import BuildTool.Proofs.Token.Layout
import Mathlib.Computability.Language
import Mathlib.Order.CompletePartialOrder
/-!
# Sentences

A sentence is made of names, lists of dependencies in parentheses and blocks of commands in braces, in
any order. `Token.sentences` spells this out as a regular language over tokens. Its words are the
well-spelled sequences that lead from top to top (`Token.sentences_eq_paths`).
-/

namespace BuildTool

open Alphabet
open scoped Computability

namespace Token

/-- One token of a kind, its lexeme made of certain characters. -/
def word (k : Kind) (p : Char → Bool) : Language Token :=
  {ts | ∃ t, ts = [t] ∧ t.kind = k ∧ t.lexeme ≠ "" ∧ ∀ c ∈ t.lexeme.toList, p c = true}

/-- One token of a kind that stands for a single character. -/
def mark (k : Kind) (c : Char) : Language Token :=
  {ts | ∃ line, ts = [⟨k, c.toString, line⟩]}

/-- Words and separators. A comma separates dependencies and is an ordinary character of a part. -/
def pieces : Block → Language Token
  | .dependencies => word .commandPart (fun c => isPart c && c ≠ ',') + mark .comma ','
  | .commands => word .commandPart isPart + mark .semicolon ';'

def opening : Block → Language Token
  | .dependencies => mark .leftParen '('
  | .commands => mark .leftBrace '\x7b'

def closing : Block → Language Token
  | .dependencies => mark .rightParen ')'
  | .commands => mark .rightBrace '\x7d'

def bracketed (b : Block) : Language Token :=
  opening b * (pieces b)∗ * closing b

def sentences : Language Token :=
  (word .directiveName Char.isAlpha + bracketed .dependencies + bracketed .commands)∗

/-- Well-spelled tokens that lead from a place to a place. -/
def paths (p q : Place) : Language Token :=
  {ts | Leads p ts q ∧ ∀ t ∈ ts, t.kind.Spells t.lexeme}

section

variable {p q r : Place} {t : Token} {ts us : List Token} {k : Kind} {c : Char}

/-! ## Sentences are paths -/

theorem one_le_paths (p : Place) : 1 ≤ paths p p := by
  intro ts hts
  obtain rfl : ts = [] := hts
  exact ⟨.nil p, by simp⟩

theorem paths_mul_paths_le (p q r : Place) : paths p q * paths q r ≤ paths p r := by
  intro ts hts
  obtain ⟨us, hus, vs, hvs, rfl⟩ := Language.mem_mul.1 hts
  refine ⟨leads_append.2 ⟨q, hus.1, hvs.1⟩, fun t ht => ?_⟩
  rcases List.mem_append.1 ht with ht | ht
  · exact hus.2 t ht
  · exact hvs.2 t ht

theorem mul_le_paths {l m : Language Token} (hl : l ≤ paths p q) (hm : m ≤ paths q r) :
    l * m ≤ paths p r :=
  (mul_le_mul' hl hm).trans (paths_mul_paths_le p q r)

theorem kstar_le_paths {l : Language Token} (hl : l ≤ paths p p) : l∗ ≤ paths p p :=
  kstar_le_of_mul_le_left (one_le_paths p) (mul_le_paths le_rfl hl)

theorem singleton_mem_paths (hpass : p.Passes t.kind t.lexeme q) (hspells : t.kind.Spells t.lexeme) :
    [t] ∈ paths p q :=
  ⟨.cons hpass (.nil q), by simpa using hspells⟩

/-- The words of a place are its paths of one word. -/
theorem word_le_paths {test : Char → Bool} (h : ∀ c, test c = true → p.wordChar c = true) :
    word p.wordKind test ≤ paths p p := by
  rintro ts ⟨t, rfl, hkind, hne, hchars⟩
  obtain ⟨hspells, hpass⟩ := Place.passes_of_wordChar hne fun c hc => h c (hchars c hc)
  rw [← hkind] at hspells hpass
  exact singleton_mem_paths hpass hspells

theorem mark_le_paths (h : p.Delimits c k q) : mark k c ≤ paths p q := by
  rintro ts ⟨line, rfl⟩
  obtain ⟨hspells, hpass⟩ := Place.passes_of_delimits h
  exact singleton_mem_paths hpass hspells

theorem pieces_le_paths (b : Block) : pieces b ≤ paths (.inside b) (.inside b) := by
  cases b with
  | dependencies =>
    refine add_le (word_le_paths (p := .inside .dependencies) fun c hc => hc) ?_
    exact mark_le_paths (.separator .dependencies)
  | commands =>
    refine add_le (word_le_paths (p := .inside .commands) fun c hc => ?_) ?_
    · have hne : c ≠ ';' := by
        rintro rfl
        exact absurd hc (by decide)
      simp [Place.wordChar, Block.separator, hc, hne]
    · exact mark_le_paths (.separator .commands)

theorem opening_le_paths (b : Block) : opening b ≤ paths .top (.inside b) := by
  cases b with
  | dependencies => exact mark_le_paths .parenthesis
  | commands => exact mark_le_paths .brace

theorem closing_le_paths (b : Block) : closing b ≤ paths (.inside b) .top := by
  cases b with
  | dependencies => exact mark_le_paths (.closer .dependencies)
  | commands => exact mark_le_paths (.closer .commands)

theorem bracketed_le_paths (b : Block) : bracketed b ≤ paths .top .top :=
  mul_le_paths (mul_le_paths (opening_le_paths b) (kstar_le_paths (pieces_le_paths b)))
    (closing_le_paths b)

theorem sentences_le_paths : sentences ≤ paths .top .top := by
  have hnames : word .directiveName Char.isAlpha ≤ paths .top .top :=
    word_le_paths (p := .top) fun c hc => hc
  exact kstar_le_paths
    (add_le (add_le hnames (bracketed_le_paths .dependencies)) (bracketed_le_paths .commands))

/-! ## Paths are sentences -/

/-- What makes a sentence of the text before a place. -/
def rest : Place → Language Token
  | .top => sentences
  | .inside b => (pieces b)∗ * closing b * sentences

theorem names_mul_sentences_le : word .directiveName Char.isAlpha * sentences ≤ sentences := by
  refine (mul_le_mul_left ?_ _).trans mul_kstar_le_kstar
  exact le_sup_left.trans le_sup_left

theorem bracketed_mul_sentences_le (b : Block) : bracketed b * sentences ≤ sentences := by
  refine (mul_le_mul_left ?_ _).trans mul_kstar_le_kstar
  cases b with
  | dependencies => exact le_sup_right.trans le_sup_left
  | commands => exact le_sup_right

theorem opening_mul_rest_le (b : Block) : opening b * rest (.inside b) ≤ sentences := by
  calc
    opening b * ((pieces b)∗ * closing b * sentences) = bracketed b * sentences := by
      rw [bracketed, mul_assoc, mul_assoc, mul_assoc]
    _ ≤ sentences := bracketed_mul_sentences_le b

theorem pieces_mul_rest_le (b : Block) : pieces b * rest (.inside b) ≤ rest (.inside b) := by
  calc
    pieces b * ((pieces b)∗ * closing b * sentences) =
        pieces b * (pieces b)∗ * (closing b * sentences) := by
      rw [mul_assoc, mul_assoc]
    _ ≤ (pieces b)∗ * (closing b * sentences) := mul_le_mul_left mul_kstar_le_kstar _
    _ = rest (.inside b) := (mul_assoc _ _ _).symm

theorem closing_mul_sentences_le (b : Block) : closing b * sentences ≤ rest (.inside b) := by
  calc
    closing b * sentences = 1 * (closing b * sentences) := (one_mul _).symm
    _ ≤ (pieces b)∗ * (closing b * sentences) := mul_le_mul_left one_le_kstar _
    _ = rest (.inside b) := (mul_assoc _ _ _).symm

theorem cons_mem_of_mul_le {l m n : Language Token} (hle : l * m ≤ n) (ht : [t] ∈ l) (hts : ts ∈ m) :
    t :: ts ∈ n :=
  hle (Language.append_mem_mul ht hts)

/-- A token in front of what makes a sentence at its far end makes one at its near end. -/
theorem cons_mem_rest (hpass : p.Passes t.kind t.lexeme q) (hspells : t.kind.Spells t.lexeme)
    (hts : ts ∈ rest q) : t :: ts ∈ rest p := by
  obtain ⟨k, w, line⟩ := t
  cases hpass with
  | name =>
    exact cons_mem_of_mul_le names_mul_sentences_le ⟨_, rfl, rfl, hspells⟩ hts
  | openList =>
    obtain rfl : w = "(" := hspells
    exact cons_mem_of_mul_le (opening_mul_rest_le .dependencies) ⟨line, rfl⟩ hts
  | openBlock =>
    obtain rfl : w = "\x7b" := hspells
    exact cons_mem_of_mul_le (opening_mul_rest_le .commands) ⟨line, rfl⟩ hts
  | dependency _ hcomma =>
    have hchars : ∀ c ∈ w.toList, (isPart c && decide (c ≠ ',')) = true := by
      intro c hc
      have hne : c ≠ ',' := fun heq => hcomma (heq ▸ hc)
      simp [hspells.2 c hc, hne]
    exact cons_mem_of_mul_le (pieces_mul_rest_le .dependencies)
      (.inl ⟨_, rfl, rfl, hspells.1, hchars⟩) hts
  | comma =>
    obtain rfl : w = "," := hspells
    exact cons_mem_of_mul_le (pieces_mul_rest_le .dependencies) (.inr ⟨line, rfl⟩) hts
  | closeList =>
    obtain rfl : w = ")" := hspells
    exact cons_mem_of_mul_le (closing_mul_sentences_le .dependencies) ⟨line, rfl⟩ hts
  | part =>
    exact cons_mem_of_mul_le (pieces_mul_rest_le .commands) (.inl ⟨_, rfl, rfl, hspells⟩) hts
  | semicolon =>
    obtain rfl : w = ";" := hspells
    exact cons_mem_of_mul_le (pieces_mul_rest_le .commands) (.inr ⟨line, rfl⟩) hts
  | closeBlock =>
    obtain rfl : w = "\x7d" := hspells
    exact cons_mem_of_mul_le (closing_mul_sentences_le .commands) ⟨line, rfl⟩ hts

theorem mem_rest_of_leads (hleads : Leads p ts .top)
    (hspells : ∀ t ∈ ts, t.kind.Spells t.lexeme) : ts ∈ rest p := by
  induction ts generalizing p with
  | nil =>
    cases hleads
    exact Language.nil_mem_kstar _
  | cons t ts ih =>
    obtain ⟨ht, hts⟩ := List.forall_mem_cons.1 hspells
    cases hleads with
    | cons hpass hleads => exact cons_mem_rest hpass ht (ih hleads hts)

theorem sentences_eq_paths : sentences = paths .top .top :=
  le_antisymm sentences_le_paths fun _ h => mem_rest_of_leads h.1 h.2

theorem mem_sentences_iff :
    ts ∈ sentences ↔ Leads .top ts .top ∧ ∀ t ∈ ts, t.kind.Spells t.lexeme := by
  rw [sentences_eq_paths]
  rfl

end

end Token

end BuildTool
