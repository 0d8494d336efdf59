import LayeredCatalog.Name
import LayeredCatalog.Refusal
import LayeredCatalog.Text.Affix
/-!
# References

Two kinds of reference are written as text. An `InputRef` says what fills an
input of a component: another component by its name, or something built
elsewhere, written `external:` and an identifier. An `Origin` says which value a
derived component starts from: a name behind the view it is read through,
written `previous.` or `final.`.

Each kind has a reader and a printer.
-/

namespace LayeredCatalog

/-- The two views of a catalog that a layer can read. -/
inductive View where
  /-- The catalog as the layers below compose it. -/
  | previous
  /-- The catalog as all layers together compose it. -/
  | final
deriving DecidableEq, Repr

def View.word : View → String
  | .previous => "previous"
  | .final => "final"

/-- What fills an input of a component. -/
inductive InputRef where
  /-- The component of this name in the final catalog. -/
  | catalog (name : String)
  /-- A dependency from outside the catalog. -/
  | external (id : String)
deriving DecidableEq, Repr

namespace InputRef

/-- What marks a reference to something outside the catalog. -/
def externalMark : String := "external:"

/-- The component name referred to, if the reference stays inside the catalog. -/
def catalogName? : InputRef → Option String
  | .catalog name => some name
  | .external _ => none

/-- The written form of a reference. -/
def render : InputRef → String
  | .catalog name => name
  | .external id => externalMark ++ id

/-- Reads a name that takes up the whole text. -/
def ofName (cs : List Char) : Except Reason InputRef :=
  match Name.takeName cs with
  | ([], _) => .error (.mismatch cs .nameChar)
  | (name, []) => .ok (.catalog (String.ofList name))
  | (_, rest) => .error (.mismatch rest .nothing)

/-- Reads a reference from the characters of its written form. A mark without an
identifier behind it is read as a name, and a name ends before the colon. -/
def ofChars (cs : List Char) : Except Reason InputRef :=
  match Text.afterPrefix? externalMark.toList cs with
  | some (c :: r) => .ok (.external (String.ofList (c :: r)))
  | _ => ofName cs

def parse (s : String) : Except Refusal InputRef :=
  (ofChars s.toList).mapError fun reason => ⟨.inputReference s, reason⟩

end InputRef

/-- The component that a derived component starts from. -/
structure Origin where
  view : View
  name : String
deriving DecidableEq, Repr

namespace Origin

/-- The written form of an origin. -/
def render (o : Origin) : String := s!"{o.view.word}.{o.name}"

/-- Splits off the view that a text begins with. -/
def takeView? (cs : List Char) : Option (View × List Char) :=
  match Text.afterPrefix? View.previous.word.toList cs with
  | some rest => some (.previous, rest)
  | none => (Text.afterPrefix? View.final.word.toList cs).map fun rest => (.final, rest)

/-- Reads an origin from the characters of its written form. -/
def ofChars (cs : List Char) : Except Reason Origin :=
  match takeView? cs with
  | none => .error (.mismatch cs .word)
  | some (view, '.' :: r) =>
    match Name.takeName r with
    | ([], _) => .error (.mismatch r .nameChar)
    | (name, []) => .ok ⟨view, String.ofList name⟩
    | (_, rest) => .error (.mismatch rest .nothing)
  | some (_, rest) => .error (.mismatch rest .dot)

def parse (s : String) : Except Refusal Origin :=
  (ofChars s.toList).mapError fun reason => ⟨.origin s, reason⟩

end Origin

end LayeredCatalog
