import BuildTool.Yaml.Token
import BuildTool.Proofs.Yaml.Lexeme
import BuildTool.Proofs.Yaml.Spelling
/-!
# Lines with a key and a value

A line holds a key, a colon, a space and a value, which stands in single quotes or is a word (`Line`).
Its characters are printable, and so a text of lines is taken as it stands
(`characters_of_isPrintable`). `LineEnd` says what may be behind a line.
-/

namespace BuildTool.Yaml

/-! ## Characters -/

theorem isPermitted_of_isPrintable {c : Char} (h : isPrintable c = true) :
    isPermitted c = true := by
  simp only [isPrintable, Bool.and_eq_true, decide_eq_true_eq] at h
  simp [isPermitted, h]

theorem normalize_of_isPrintable {cs : List Char}
    (h : ∀ c ∈ cs, isPrintable c = true ∨ c = '\n') : normalize cs = cs := by
  induction cs with
  | nil => rfl
  | cons c cs ih =>
    have hne : ∀ d, isPrintable d = false → d ≠ '\n' → c ≠ d := by
      rintro d hd hbreak rfl
      rcases h c List.mem_cons_self with hc | hc
      · rw [hd] at hc
        cases hc
      · exact hbreak hc
    have hreturn : c ≠ '\r' := hne '\r' rfl (by decide)
    have hnext : c ≠ '\u0085' := hne '\u0085' rfl (by decide)
    rw [normalize]
    · simp [hreturn, hnext, ih fun d hd => h d (List.mem_cons_of_mem c hd)]
    · simp [hreturn]

theorem characters_of_isPrintable {text : String}
    (h : ∀ c ∈ text.toList, isPrintable c = true ∨ c = '\n') :
    characters text = .ok text.toList := by
  have hpermitted : text.toList.all isPermitted = true := by
    refine List.all_eq_true.2 fun c hc => ?_
    rcases h c hc with hc | rfl
    · exact isPermitted_of_isPrintable hc
    · rfl
  rw [characters, if_pos hpermitted, normalize_of_isPrintable h]

/-! ## Lines -/

/-- What is written behind a key: characters in single quotes, or a word. -/
inductive LineValue where
  | quoted (cs : List Char)
  | word (w : List Char)

theorem isPrintable_of_mem_quoted {cs : List Char} (h : ∀ c ∈ cs, isPrintable c = true) :
    ∀ c ∈ Spelling.quoted cs, isPrintable c = true := by
  intro c hc
  by_cases hquote : c = '\x27'
  · rw [hquote]
    rfl
  · exact h c (Spelling.mem_of_mem_quoted hc hquote)

namespace LineValue

def Proper : LineValue → Prop
  | quoted cs => ∀ c ∈ cs, isPrintable c = true
  | word w => w ≠ [] ∧ ∀ c ∈ w, isKeyChar c = true

def chars : LineValue → List Char
  | quoted cs => Spelling.quoted cs
  | word w => w

theorem Proper.isPrintable_of_mem {v : LineValue} (h : v.Proper) :
    ∀ c ∈ v.chars, isPrintable c = true := by
  cases v with
  | quoted cs => exact isPrintable_of_mem_quoted h
  | word w => exact fun c hc => isPrintable_of_isKeyChar (h.2 c hc)

def style : LineValue → ScalarStyle
  | quoted _ => .singleQuoted
  | word _ => .plain

def text : LineValue → String
  | quoted cs => String.ofList cs
  | word w => String.ofList w

end LineValue

/-- A key and a value on one line. -/
structure Line where
  key : List Char
  value : LineValue

namespace Line

/-- The key is a word that is short enough to be one. -/
structure Proper (l : Line) : Prop where
  key_ne_nil : l.key ≠ []
  key_length : l.key.length ≤ Layout.keyLimit
  isKeyChar : ∀ c ∈ l.key, isKeyChar c = true
  value : l.value.Proper

def chars (l : Line) : List Char :=
  l.key ++ ':' :: ' ' :: l.value.chars

theorem Proper.isPrintable_of_mem {l : Line} (h : l.Proper) :
    ∀ c ∈ l.chars, isPrintable c = true := by
  intro c hc
  simp only [chars, List.mem_append, List.mem_cons] at hc
  rcases hc with hc | rfl | rfl | hc
  · exact isPrintable_of_isKeyChar (h.isKeyChar c hc)
  · rfl
  · rfl
  · exact h.value.isPrintable_of_mem c hc

theorem Proper.head?_chars {l : Line} (h : l.Proper) (r : List Char) :
    ∀ c ∈ (l.chars ++ r).head?, Yaml.isKeyChar c = true := by
  obtain ⟨c, w, hw⟩ := List.exists_cons_of_ne_nil h.key_ne_nil
  simp [chars, hw, h.isKeyChar]

def tokens (l : Line) : List Token :=
  [.key, .scalar .plain (String.ofList l.key), .value, .scalar l.value.style l.value.text]

/-- Lines behind another one, and what is behind the last one. -/
def tail (ending : List Char) : List Line → List Char
  | [] => ending
  | l :: ls => '\n' :: (l.chars ++ tail ending ls)

theorem isPrintable_of_mem_tail {ending : List Char} (hending : ending = [] ∨ ending = ['\n'])
    {ls : List Line} (hls : ∀ l ∈ ls, l.Proper) :
    ∀ c ∈ tail ending ls, isPrintable c = true ∨ c = '\n' := by
  induction ls with
  | nil =>
    intro c hc
    obtain rfl | rfl := hending
    · cases hc
    · exact .inr (List.mem_singleton.1 hc)
  | cons l ls ih =>
    intro c hc
    simp only [tail, List.mem_cons, List.mem_append] at hc
    rcases hc with rfl | hc | hc
    · exact .inr rfl
    · exact .inl ((hls l List.mem_cons_self).isPrintable_of_mem c hc)
    · exact ih (fun k hk => hls k (List.mem_cons_of_mem l hk)) c hc

end Line

/-- The characters from the end of a line on, and those of the lines behind it. -/
inductive LineEnd : List Char → List Char → Prop where
  | text : LineEnd [] []
  | line {r : List Char} (h : ∀ c ∈ r.head?, isKeyChar c = true) : LineEnd ('\n' :: r) r

end BuildTool.Yaml
