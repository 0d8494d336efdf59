/-!
# Component names

A component name is one or more ASCII letters, ASCII digits and the characters
`-`, `_`, `.` and `+`. Names occur inside references, so a reader also asks for
the longest run of such characters that a text begins with.
-/

namespace LayeredCatalog.Name

def isNameChar (c : Char) : Bool :=
  c.isAlphanum || c = '-' || c = '_' || c = '.' || c = '+'

/-- Whether `s` is a component name. -/
def isValid (s : String) : Bool := !s.toList.isEmpty && s.toList.all isNameChar

def takeName (cs : List Char) : List Char × List Char :=
  (cs.takeWhile isNameChar, cs.dropWhile isNameChar)

theorem takeName_append (cs : List Char) : (takeName cs).1 ++ (takeName cs).2 = cs :=
  List.takeWhile_append_dropWhile

end LayeredCatalog.Name
