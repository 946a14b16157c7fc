import BuildTool.Settings
import BuildTool.Proofs.Yaml.LineDocument
/-!
# Lines of settings

A text of settings has lines with a key and a value each (`Entry`): the keys that are known, and others,
which are words of letters. Texts stand in single quotes, truth values as they are. Such lines are lines
of YAML (`Entry.Proper.yamlLine`, `toList_textOf`), and their text is not blank unless there are none.
-/

namespace BuildTool.Settings

open Yaml (isPrintable isKeyChar)

/-! ## Entries -/

/-- A line of a text of settings, with a known key or another one. -/
inductive Entry where
  | file (value : String)
  | defaultDirective (value : String)
  | echo (value : Bool)
  | other (key value : String)

def knownKeys : List String :=
  ["file", "default_directive", "echo"]

namespace Entry

def key : Entry → String
  | file _ => "file"
  | defaultDirective _ => "default_directive"
  | echo _ => "echo"
  | other key _ => key

def isKnown : Entry → Bool
  | other _ _ => false
  | _ => true

/-- A text in single quotes, with the quotes inside doubled. -/
def quoted (value : String) : String :=
  String.ofList (Yaml.Spelling.quoted value.toList)

/-- The value as it is written. -/
def value : Entry → String
  | file value => quoted value
  | defaultDirective value => quoted value
  | echo value => if value then "true" else "false"
  | other _ value => quoted value

def line (e : Entry) : String :=
  e.key ++ ": " ++ e.value

/-- Values are printable, and a key that is not known is a word of letters. -/
def Proper : Entry → Prop
  | file value => ∀ c ∈ value.toList, isPrintable c = true
  | defaultDirective value => ∀ c ∈ value.toList, isPrintable c = true
  | echo _ => True
  | other key value =>
    (1 ≤ key.length ∧ key.length ≤ 100 ∧ ∀ c ∈ key.toList, c.isAlpha = true) ∧
      key ∉ knownKeys ∧ ∀ c ∈ value.toList, isPrintable c = true

def file? : Entry → Option String
  | file value => some value
  | _ => none

def defaultDirective? : Entry → Option String
  | defaultDirective value => some value
  | _ => none

def echo? : Entry → Option Bool
  | echo value => some value
  | _ => none

end Entry

/-- Lines as one text, and what is behind the last one. -/
def textOf (es : List Entry) (ending : String) : String :=
  "\n".intercalate (es.map Entry.line) ++ ending

/-! ## Lines of YAML -/

namespace Entry

def yamlValue : Entry → Yaml.LineValue
  | file value => .quoted value.toList
  | defaultDirective value => .quoted value.toList
  | echo value => .word (if value then "true" else "false").toList
  | other _ value => .quoted value.toList

def yamlLine (e : Entry) : Yaml.Line :=
  ⟨e.key.toList, e.yamlValue⟩

variable {e : Entry}

theorem toList_line (e : Entry) : e.line.toList = e.yamlLine.chars := by
  have hvalue : e.value.toList = e.yamlValue.chars := by
    cases e <;> simp [value, quoted, yamlValue, Yaml.LineValue.chars]
  have hcolon : ": ".toList = [':', ' '] := rfl
  rw [line, String.toList_append, String.toList_append, hvalue, hcolon]
  simp [Yaml.Line.chars, yamlLine]

theorem entry_yamlLine (e : Entry) : e.yamlLine.entry =
    (.scalar ⟨none, .plain, e.key⟩, .scalar ⟨none, e.yamlValue.style, e.yamlValue.text⟩) := by
  rw [Yaml.Line.entry, yamlLine, String.ofList_toList]

theorem Proper.ne_of_other {key k value : String} (h : (other key value).Proper)
    (hk : k ∈ knownKeys) : key ≠ k := by
  rintro rfl
  exact h.2.1 hk

/-- Keys are words of letters and underscores. -/
theorem Proper.key_word (h : e.Proper) :
    1 ≤ e.key.toList.length ∧ e.key.toList.length ≤ 100 ∧
      ∀ c ∈ e.key.toList, isKeyChar c = true := by
  cases e with
  | other key value =>
    obtain ⟨⟨hne, hlength, hletters⟩, -, -⟩ := h
    rw [← String.length_toList] at hne hlength
    exact ⟨hne, hlength, fun c hc => Yaml.isKeyChar_of_isAlpha (hletters c hc)⟩
  | _ => simp [key, isKeyChar]

theorem Proper.yamlValue (h : e.Proper) : e.yamlValue.Proper := by
  cases e with
  | file value => exact h
  | defaultDirective value => exact h
  | echo value => cases value <;> simp [Entry.yamlValue, Yaml.LineValue.Proper, isKeyChar]
  | other key value => exact h.2.2

theorem Proper.yamlLine (h : e.Proper) : e.yamlLine.Proper := by
  obtain ⟨hne, hlength, hword⟩ := h.key_word
  exact ⟨List.ne_nil_of_length_pos hne, Nat.le_trans hlength (by decide), hword, h.yamlValue⟩

end Entry

theorem toList_textOf (e : Entry) (es : List Entry) (ending : String) :
    (textOf (e :: es) ending).toList =
      e.yamlLine.chars ++ Yaml.Line.tail ending.toList (es.map Entry.yamlLine) := by
  induction es generalizing e with
  | nil => simp [textOf, Yaml.Line.tail, Entry.toList_line]
  | cons k es ih =>
    have hbreak : "\n".toList = ['\n'] := rfl
    have htail : textOf (e :: k :: es) ending = e.line ++ "\n" ++ textOf (k :: es) ending := by
      simp [textOf, String.append_assoc]
    rw [htail, String.toList_append, String.toList_append, ih k, Entry.toList_line, hbreak]
    simp [Yaml.Line.tail]

/-! ## Blank texts -/

theorem not_isWhiteSpace_of_isKeyChar {c : Char} (h : isKeyChar c = true) :
    isWhiteSpace c = false :=
  Alphabet.forall_ascii (p := fun d => isKeyChar d = true → isWhiteSpace d = false)
    (by decide +kernel) c (Yaml.toNat_lt_of_isKeyChar h) h

/-- A text of lines is not blank. -/
theorem not_all_isWhiteSpace {e : Entry} (he : e.Proper) (es : List Entry) (ending : String) :
    (textOf (e :: es) ending).toList.all isWhiteSpace = false := by
  obtain ⟨c, w, hw⟩ := List.exists_cons_of_ne_nil he.yamlLine.key_ne_nil
  have hc := he.yamlLine.isKeyChar c (by simp [hw])
  rw [toList_textOf, Yaml.Line.chars, hw]
  simp [not_isWhiteSpace_of_isKeyChar hc]

end BuildTool.Settings
