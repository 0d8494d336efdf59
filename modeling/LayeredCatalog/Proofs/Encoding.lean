import LayeredCatalog.Plan.Encoding
import Mathlib.Data.List.Basic

/-!
# The encoded text says what was encoded

The text that names an artifact is a list of lines, each a tag and fields behind
their lengths. No tag has a blank or a line end in it, and a field is as long as its
length says, whatever characters it has. So a text that begins with a line begins with
one line only (`line_append_inj`), a text of lines is one list of lines only
(`join_lines_inj`), and the lines of a component and of its inputs tell what they are
(`eq_of_encode_eq`).
-/

namespace LayeredCatalog

/-- What a component says of its own build. Its inputs are left out. -/
structure Recipe where
  name : String
  version : String
  builder : String
  params : Table String String
  patches : List String
  excludedTests : List String
  postBuild : List String
deriving DecidableEq

def Component.recipe (c : Component) : Recipe where
  name := c.name
  version := c.version
  builder := c.builder
  params := c.params
  patches := c.patches
  excludedTests := c.excludedTests
  postBuild := c.postBuild

theorem Component.recipe_eq_iff {c c' : Component} :
    c.recipe = c'.recipe ↔
      c.name = c'.name ∧ c.version = c'.version ∧ c.builder = c'.builder ∧
        c.params = c'.params ∧ c.patches = c'.patches ∧ c.excludedTests = c'.excludedTests ∧
        c.postBuild = c'.postBuild := by
  rw [recipe, recipe, Recipe.mk.injEq]

theorem Digest.hex_inj {d e : Digest} (h : d.hex = e.hex) : d = e := by
  have hdigit : ∀ a b : Fin 16, Text.hexDigit a = Text.hexDigit b → a = b := by decide
  rw [hex, hex, String.ofList_inj] at h
  cases d with
  | mk digits _ =>
      cases e with
      | mk digits' _ =>
          simp only [mk.injEq]
          exact List.map_injective_iff.2 (fun a b => hdigit a b) h

namespace Encoding

/-- Texts are cut at the first character with a property. -/
theorem append_inj_of_head {p : Char → Bool} {l l' r r' : List Char} {a a' : Char}
    (hl : ∀ c ∈ l, p c = false) (hl' : ∀ c ∈ l', p c = false) (ha : p a) (ha' : p a')
    (h : l ++ a :: r = l' ++ a' :: r') : l = l' ∧ a :: r = a' :: r' := by
  induction l generalizing l' with
  | nil =>
      cases l' with
      | nil => exact ⟨rfl, h⟩
      | cons c l' =>
          obtain ⟨rfl, -⟩ := List.cons.inj h
          simp [hl' a (by simp)] at ha
  | cons c l ih =>
      cases l' with
      | nil =>
          obtain ⟨rfl, -⟩ := List.cons.inj h
          simp [hl c (by simp)] at ha'
      | cons c' l' =>
          obtain ⟨rfl, hrest⟩ := List.cons.inj h
          obtain ⟨rfl, hr⟩ := ih (List.forall_mem_cons.1 hl).2 (List.forall_mem_cons.1 hl').2 hrest
          exact ⟨rfl, hr⟩

theorem append_inj_of_utf8ByteSize {s t r r' : String} (h : s ++ r = t ++ r')
    (hsize : s.utf8ByteSize = t.utf8ByteSize) : s = t ∧ r = r' := by
  have hbytes : s.toByteArray ++ r.toByteArray = t.toByteArray ++ r'.toByteArray := by
    rw [← String.toByteArray_append, h, String.toByteArray_append]
  have hst : s = t := String.toByteArray_inj.1 (ByteArray.append_inj_left hbytes hsize)
  rw [hst, String.append_right_inj] at h
  exact ⟨hst, h⟩

theorem field_eq (s : String) : field s = " " ++ s.utf8ByteSize.repr ++ ":" ++ s := rfl

theorem toList_field_append (s r : String) :
    (field s ++ r).toList = ' ' :: (s.utf8ByteSize.repr.toList ++ ':' :: (s ++ r).toList) := by
  simp [field_eq]

/-- A field ends where its length says. -/
theorem field_append_inj {s t r r' : String} (h : field s ++ r = field t ++ r') :
    s = t ∧ r = r' := by
  have hdigit : ∀ n : Nat, ∀ c ∈ n.repr.toList, (!c.isDigit) = false := by
    intro n c hc
    rw [Nat.toList_repr] at hc
    simp [Nat.isDigit_of_mem_toDigits (by decide) (by decide) hc]
  have hlist := congrArg String.toList h
  rw [toList_field_append, toList_field_append, List.cons.injEq] at hlist
  -- Both lengths end at the first character that is not a digit.
  obtain ⟨hlength, hrest⟩ := append_inj_of_head (p := fun c => !c.isDigit) (hdigit _) (hdigit _)
    (by decide) (by decide) hlist.2
  have hsize : s.utf8ByteSize = t.utf8ByteSize := by
    rw [Nat.toList_repr, Nat.toList_repr] at hlength
    simpa using congrArg (fun digits => Nat.ofDigitChars 10 digits 0) hlength
  exact append_inj_of_utf8ByteSize (String.toList_inj.1 (List.cons.inj hrest).2) hsize

/-- The fields of a line end with the line. -/
theorem fields_append_inj {fields fields' : List String} {r r' : String}
    (h : String.join (fields.map field) ++ ("\n" ++ r) =
      String.join (fields'.map field) ++ ("\n" ++ r')) : fields = fields' ∧ r = r' := by
  induction fields generalizing fields' with
  | nil =>
      cases fields' with
      | nil => simpa using h
      | cons s fields' =>
          -- One text goes on with the end of the line, the other with a blank.
          have := congrArg String.toList h
          simp [field_eq] at this
  | cons s fields ih =>
      cases fields' with
      | nil =>
          have := congrArg String.toList h
          simp [field_eq] at this
      | cons t fields' =>
          simp only [List.map_cons, String.join_cons, String.append_assoc] at h
          obtain ⟨rfl, hrest⟩ := field_append_inj h
          obtain ⟨rfl, hr⟩ := ih hrest
          exact ⟨rfl, hr⟩

/-- A tag has no blank and no line end. -/
def IsTag (tag : String) : Prop := ∀ c ∈ tag.toList, (c == ' ' || c == '\n') = false

theorem exists_head_of_fields (fields : List String) (r : String) :
    ∃ a rest, (String.join (fields.map field) ++ ("\n" ++ r)).toList = a :: rest ∧
      (a == ' ' || a == '\n') := by
  cases fields with
  | nil => exact ⟨'\n', r.toList, by simp, by decide⟩
  | cons s fields => exact ⟨' ', _, by simp [field_eq]; rfl, by decide⟩

/-- A line ends within the text that goes on behind it. -/
theorem line_append_inj {tag tag' : String} {fields fields' : List String} {r r' : String}
    (htag : IsTag tag) (htag' : IsTag tag') (h : line tag fields ++ r = line tag' fields' ++ r') :
    tag = tag' ∧ fields = fields' ∧ r = r' := by
  simp only [line, String.append_assoc] at h
  obtain ⟨a, rest, hrest, ha⟩ := exists_head_of_fields fields r
  obtain ⟨a', rest', hrest', ha'⟩ := exists_head_of_fields fields' r'
  have hlist := congrArg String.toList h
  rw [String.toList_append, hrest, String.toList_append, hrest'] at hlist
  obtain ⟨heq, -⟩ := append_inj_of_head htag htag' ha ha' hlist
  obtain rfl := String.toList_inj.1 heq
  rw [String.append_right_inj] at h
  exact ⟨rfl, fields_append_inj h⟩

/-- A text of lines is made of one list of lines only. -/
theorem join_lines_inj {lines lines' : List (String × List String)}
    (h : ∀ l ∈ lines, IsTag l.1) (h' : ∀ l ∈ lines', IsTag l.1)
    (heq : String.join (lines.map fun l => line l.1 l.2) =
      String.join (lines'.map fun l => line l.1 l.2)) : lines = lines' := by
  induction lines generalizing lines' with
  | nil =>
      cases lines' with
      | nil => rfl
      | cons l lines' =>
          have := congrArg String.toList heq
          simp [line] at this
  | cons l lines ih =>
      cases lines' with
      | nil =>
          have := congrArg String.toList heq
          simp [line] at this
      | cons l' lines' =>
          obtain ⟨hl, hlines⟩ := List.forall_mem_cons.1 h
          obtain ⟨hl', hlines'⟩ := List.forall_mem_cons.1 h'
          simp only [List.map_cons, String.join_cons] at heq
          obtain ⟨htag, hfields, heq⟩ := line_append_inj hl hl' heq
          rw [Prod.ext htag hfields, ih hlines hlines' heq]

def inputFields : String × InputHandle → String × List String
  | (slot, .artifact digest) => ("input", [slot, digest.hex])
  | (slot, .external id) => ("external", [slot, id])

/-- The tags and fields of the lines that say a recipe. -/
def recipeLines (r : Recipe) : List (String × List String) :=
  [("name", [r.name]), ("version", [r.version]), ("builder", [r.builder])] ++
    r.params.toList.map (fun e => ("param", [e.1, e.2])) ++
    r.patches.map (fun p => ("patch", [p])) ++
    r.excludedTests.map (fun t => ("exclude", [t])) ++
    r.postBuild.map fun s => ("post", [s])

def lines (c : Component) (inputs : List (String × InputHandle)) : List (String × List String) :=
  recipeLines c.recipe ++ inputs.map inputFields

theorem encode_eq_join (c : Component) (inputs : List (String × InputHandle)) :
    encode c inputs = String.join ((lines c inputs).map fun l => line l.1 l.2) := by
  have hinput : inputLine = fun input => line (inputFields input).1 (inputFields input).2 := by
    funext ⟨slot, handle⟩
    cases handle with
    | artifact digest => rfl
    | external id => rfl
  simp [encode, lines, recipeLines, Component.recipe, Function.comp_def, hinput,
    String.append_assoc]

/-- Only the recipe of a component enters its text. -/
theorem encode_congr {c c' : Component} (h : c.recipe = c'.recipe)
    (inputs : List (String × InputHandle)) : encode c inputs = encode c' inputs := by
  rw [encode_eq_join, encode_eq_join, lines, lines, h]

theorem inputFields_tag (input : String × InputHandle) :
    (inputFields input).1 = "input" ∨ (inputFields input).1 = "external" := by
  obtain ⟨slot, handle⟩ := input
  cases handle with
  | artifact digest => exact .inl rfl
  | external id => exact .inr rfl

theorem inputFields_inj {input input' : String × InputHandle}
    (h : inputFields input = inputFields input') : input = input' := by
  obtain ⟨slot, handle⟩ := input
  obtain ⟨slot', handle'⟩ := input'
  cases handle with
  | artifact digest =>
      cases handle' with
      | artifact digest' =>
          simp only [inputFields, Prod.mk.injEq, List.cons.injEq] at h
          rw [h.2.1, Digest.hex_inj h.2.2.1]
      | external id => simp [inputFields] at h
  | external id =>
      cases handle' with
      | artifact digest => simp [inputFields] at h
      | external id' => simpa [inputFields] using h

theorem isTag_of_mem_lines {c : Component} {inputs : List (String × InputHandle)}
    {l : String × List String} (h : l ∈ lines c inputs) : IsTag l.1 := by
  have htags : ∀ tag ∈ ["name", "version", "builder", "param", "patch", "exclude", "post",
      "input", "external"], IsTag tag := by
    simp [IsTag]
  refine htags l.1 ?_
  rw [lines, List.mem_append, List.mem_map] at h
  rcases h with h | ⟨input, -, rfl⟩
  · simp only [recipeLines, List.mem_append, List.mem_map, List.mem_cons, List.not_mem_nil] at h
    aesop
  · rcases inputFields_tag input with htag | htag
    · simp [htag]
    · simp [htag]

/-- The fields of the lines with a tag, line by line. -/
def fieldsUnder (tag : String) (lines : List (String × List String)) : List (List String) :=
  lines.filterMap fun l => if l.1 = tag then some l.2 else none

theorem fieldsUnder_lines (c : Component) (inputs : List (String × InputHandle)) {tag : String}
    (h : tag ∉ ["input", "external"]) :
    fieldsUnder tag (lines c inputs) = fieldsUnder tag (recipeLines c.recipe) := by
  have hinput : ∀ input, (inputFields input).1 ≠ tag := by
    rintro input rfl
    rcases inputFields_tag input with htag | htag
    · simp [htag] at h
    · simp [htag] at h
  simp [fieldsUnder, lines, List.filterMap_map, hinput]

/-- The lines with each tag say one thing of a recipe, and say all of it. -/
theorem recipe_eq_of_fieldsUnder_eq {r r' : Recipe}
    (h : ∀ tag ∉ ["input", "external"],
      fieldsUnder tag (recipeLines r) = fieldsUnder tag (recipeLines r')) : r = r' := by
  have hone : Function.Injective fun s : String => [s] := fun s t hst => by simpa using hst
  have htwo : Function.Injective fun e : String × String => [e.1, e.2] :=
    fun e e' he => by simpa [Prod.ext_iff] using he
  have hname := h "name" (by decide)
  have hversion := h "version" (by decide)
  have hbuilder := h "builder" (by decide)
  have hparams := h "param" (by decide)
  have hpatches := h "patch" (by decide)
  have hexcluded := h "exclude" (by decide)
  have hpost := h "post" (by decide)
  simp [fieldsUnder, recipeLines, List.filterMap_map] at hname hversion hbuilder
  simp [fieldsUnder, recipeLines, List.filterMap_map] at hparams hpatches hexcluded hpost
  cases r
  cases r'
  simp only [Recipe.mk.injEq]
  exact ⟨hname, hversion, hbuilder, Table.toList_inj.1 (htwo.list_map hparams),
    hone.list_map hpatches, hone.list_map hexcluded, hone.list_map hpost⟩

/-- The encoded text tells what was encoded, whatever characters the fields have. -/
theorem eq_of_encode_eq {c c' : Component} {inputs inputs' : List (String × InputHandle)}
    (h : encode c inputs = encode c' inputs') : c.recipe = c'.recipe ∧ inputs = inputs' := by
  rw [encode_eq_join, encode_eq_join] at h
  have hlines : lines c inputs = lines c' inputs' :=
    join_lines_inj (fun _ => isTag_of_mem_lines) (fun _ => isTag_of_mem_lines) h
  have hrecipe : c.recipe = c'.recipe := by
    refine recipe_eq_of_fieldsUnder_eq fun tag htag => ?_
    rw [← fieldsUnder_lines c inputs htag, hlines, fieldsUnder_lines c' inputs' htag]
  rw [lines, lines, hrecipe] at hlines
  have hinputs : Function.Injective inputFields := fun _ _ => inputFields_inj
  exact ⟨hrecipe, hinputs.list_map (List.append_cancel_left hlines)⟩

/-- A text that looks like another line within a field does not pass for one. -/
example : encode { params := .ofList [("k", "v\nparam 1:x 1:y")] } [] ≠
    encode { params := .ofList [("k", "v"), ("x", "y")] } [] := by decide +kernel

end Encoding

end LayeredCatalog
