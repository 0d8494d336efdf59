import LayeredCatalog.Files
import LayeredCatalog.Text.Segments
/-!
# Around the working directory

Files in memory lie in the working directory of a small machine. Around it are the
directories that every machine has, a few devices and texts, and names that lead to
something elsewhere: to the streams of the program, or to the working directory
again. A file or a directory is known by the names that lead to it from the root
through directories alone.
-/

namespace LayeredCatalog

/-- What is neither a file nor a directory. -/
inductive Device where
  /-- Takes everything and holds nothing. The standard input is this device. -/
  | null
  /-- Takes everything and gives without end. -/
  | endless
  /-- Has no room for anything. -/
  | full
  | output
  | messages
deriving DecidableEq

/-- Where a path leads. -/
inductive Place where
  | file (names : List String)
  | directory (names : List String)
  | device (d : Device)
  /-- A file of the machine, which nothing can be written to. -/
  | fixed (text : String)

namespace Place

/-- The names in a path from the root, which has neither dots nor doubled slashes. -/
def namesIn (path : String) : List String := (Text.segments path.toList).map String.ofList

/-- The working directory, which is a temporary one. -/
def workingDirectory : List String := ["tmp", "work"]

/-- The directories in which files can be created, and in those below them. -/
def temporary : List (List String) := ["tmp", "var/tmp", "dev/shm"].map namesIn

def directories : List (List String) :=
  ["bin", "boot", "dev", "dev/pts", "dev/shm", "etc", "home", "lib", "media", "mnt", "opt", "proc",
    "proc/self", "proc/self/fd", "root", "run", "sbin", "srv", "sys", "tmp", "usr", "usr/bin",
    "usr/include", "usr/lib", "usr/local", "usr/sbin", "usr/share", "usr/src", "var", "var/cache",
    "var/lib", "var/log", "var/tmp"].map namesIn

/-- What names of the machine lead to. -/
def known : List (List String × Place) :=
  [("dev/null", .device .null), ("dev/zero", .device .endless), ("dev/random", .device .endless),
    ("dev/urandom", .device .endless), ("dev/full", .device .full),
    ("dev/stdin", .device .null), ("proc/self/fd/0", .device .null),
    ("dev/stdout", .device .output), ("proc/self/fd/1", .device .output),
    ("dev/stderr", .device .messages), ("proc/self/fd/2", .device .messages),
    ("dev/fd", .directory (namesIn "proc/self/fd")),
    ("proc/self/cwd", .directory workingDirectory), ("proc/self/root", .directory []),
    ("etc/hostname", .fixed "localhost\n"), ("etc/hosts", .fixed "127.0.0.1 localhost\n"),
    ("etc/passwd", .fixed "root:x:0:0:root:/root:/bin/sh\n")].map fun e => (namesIn e.1, e.2)

/-- Whether a directory is one of the machine or leads to the working directory. -/
def isStanding (dir : List String) : Bool :=
  directories.contains dir || dir.isPrefixOf workingDirectory

/-- Whether files can be created in a directory. -/
def isWritable (dir : List String) : Bool := temporary.any fun t => t.isPrefixOf dir

end Place

end LayeredCatalog
