import LayeredCatalog.Path
/-!
# Access to files

What the library asks of a place that holds files is to read and to write whole
texts. `FileAccess m` says how that is done in a monad `m`, so that the same
program runs on a disk and on files in memory.
-/

namespace LayeredCatalog

/-- Why a file cannot be read or written. -/
inductive FileFault where
  | notFound
  /-- The path goes through something that is not a directory. -/
  | notDirectory
  | isDirectory
  /-- The path or a name in it is too long. -/
  | tooLong
  /-- The path has a character with the code 0, which ends a path. -/
  | ended
  /-- Nothing can be written there. -/
  | denied
  /-- There is no room for what is written. -/
  | noRoom
  /-- What is read has no end. -/
  | endless
  /-- The bytes of the file are not the UTF-8 form of a text. -/
  | notText
  /-- Anything else, in the words of the place that holds the files. -/
  | other (words : String)
deriving DecidableEq

def FileFault.message : FileFault → String
  | .notFound => "No such file or directory (os error 2)"
  | .notDirectory => "Not a directory (os error 20)"
  | .isDirectory => "Is a directory (os error 21)"
  | .tooLong => "File name too long (os error 36)"
  | .ended => "file name contained an unexpected NUL byte"
  | .denied => "Permission denied (os error 13)"
  | .noRoom => "No space left on device (os error 28)"
  | .endless => "out of memory"
  | .notText => "stream did not contain valid UTF-8"
  | .other words => words

/-- How texts are read from files and written to them. -/
structure FileAccess (m : Type → Type) where
  read : Path → m (Except FileFault String)
  /-- Writes a text into a file, in the place of what the file holds. -/
  write : Path → String → m (Except FileFault Unit)

end LayeredCatalog
