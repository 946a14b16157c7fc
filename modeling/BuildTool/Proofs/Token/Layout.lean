import BuildTool.Proofs.Token.Reading
import Mathlib.Data.List.Chain
/-!
# Layouts

A layout spells out a text: white space, then lexemes with the white space behind each of them. Where
two names or two parts meet there has to be some. `Layout.chars` is the text and `Layout.tokens` are the
tokens, each on the line that the text before it leads to.

`Place.Passes` says which lexemes may stand where; `Token.Leads` follows a sequence of tokens from
place to place. A word or a delimiter of the scanner is a well-spelled lexeme where it may stand, and
the other way around (`Place.Passes.word_or_delimiter`, `Place.passes_of_wordChar`,
`Place.passes_of_delimits`).
-/

namespace BuildTool

open Alphabet

/-- How the lexemes of a kind are spelled. No lexeme stands for the end of the input. -/
def Token.Kind.Spells : Token.Kind → String → Prop
  | .endOfInput, _ => False
  | .directiveName, w => w ≠ "" ∧ ∀ c ∈ w.toList, c.isAlpha = true
  | .commandPart, w => w ≠ "" ∧ ∀ c ∈ w.toList, isPart c = true
  | .leftParen, w => w = "("
  | .rightParen, w => w = ")"
  | .leftBrace, w => w = "\x7b"
  | .rightBrace, w => w = "\x7d"
  | .comma, w => w = ","
  | .semicolon, w => w = ";"

namespace Token.Kind.Spells

variable {k : Token.Kind} {w : String}

theorem ne_nil (h : k.Spells w) : w.toList ≠ [] := by
  cases k with
  | endOfInput => exact h.elim
  | directiveName | commandPart => simpa using h.1
  | leftParen | rightParen | leftBrace | rightBrace | comma | semicolon =>
    rw [show w = _ from h]
    decide

theorem isSpace_eq_false (h : k.Spells w) : ∀ c ∈ w.toList, isSpace c = false := by
  cases k with
  | endOfInput => exact h.elim
  | directiveName => exact fun c hc => isSpace_of_isAlpha (h.2 c hc)
  | commandPart => exact fun c hc => isSpace_of_isPart (h.2 c hc)
  | leftParen | rightParen | leftBrace | rightBrace | comma | semicolon =>
    intro c hc
    rw [show w = _ from h] at hc
    rw [List.mem_singleton.1 hc]
    rfl

theorem count_lineFeed (h : k.Spells w) : w.toList.count '\n' = 0 := by
  rw [List.count_eq_zero]
  intro hmem
  exact ne_lineFeed (h.isSpace_eq_false _ hmem) rfl

end Token.Kind.Spells

/-- A lexeme and the white space behind it. -/
structure Layout.Cell where
  kind : Token.Kind
  lexeme : String
  gap : List Char
  spells : kind.Spells lexeme
  gap_space : ∀ c ∈ gap, isSpace c = true

namespace Layout.Cell

def chars (c : Cell) : List Char :=
  c.lexeme.toList ++ c.gap

/-- Two names, or two parts, have white space between them. -/
def Apart (c d : Cell) : Prop :=
  c.kind = d.kind → c.kind = .directiveName ∨ c.kind = .commandPart → c.gap ≠ []

/-- The tokens of lexemes that stand behind a text. -/
def tokensAfter (before : List Char) : List Cell → List Token
  | [] => []
  | c :: cs => ⟨c.kind, c.lexeme, 1 + before.count '\n'⟩ :: tokensAfter (before ++ c.chars) cs

end Layout.Cell

/-- A text in lexemes and white space. -/
structure Layout where
  lead : List Char
  cells : List Layout.Cell
  lead_space : ∀ c ∈ lead, isSpace c = true
  apart : cells.IsChain Layout.Cell.Apart

namespace Layout

def chars (l : Layout) : List Char :=
  l.lead ++ l.cells.flatMap Cell.chars

/-- The tokens of a layout that goes on behind a text. -/
def tokensAfter (before : List Char) (l : Layout) : List Token :=
  Cell.tokensAfter (before ++ l.lead) l.cells

def tokens (l : Layout) : List Token :=
  l.tokensAfter []

/-! ## Making layouts -/

/-- No lexeme at all. -/
def empty : Layout :=
  ⟨[], [], by simp, .nil⟩

/-- White space in front. -/
def indent (c : Char) (hc : isSpace c = true) (l : Layout) : Layout where
  lead := c :: l.lead
  cells := l.cells
  lead_space := by
    intro d hd
    rcases List.mem_cons.1 hd with rfl | hd
    · exact hc
    · exact l.lead_space d hd
  apart := l.apart

/-- A lexeme in front. -/
def cons (k : Token.Kind) (w : String) (hw : k.Spells w) (l : Layout)
    (hapart : ∀ d ∈ l.cells.head?, k = d.kind → k = .directiveName ∨ k = .commandPart →
      l.lead ≠ []) : Layout where
  lead := []
  cells := ⟨k, w, l.lead, hw, l.lead_space⟩ :: l.cells
  lead_space := by simp
  apart := List.isChain_cons.2 ⟨hapart, l.apart⟩

section

variable (l : Layout) {c : Char} (hc : isSpace c = true) {k : Token.Kind} {w : String}
  {hw : k.Spells w}
  {hapart : ∀ d ∈ l.cells.head?, k = d.kind → k = .directiveName ∨ k = .commandPart → l.lead ≠ []}

@[simp] theorem tokensAfter_empty (before : List Char) : empty.tokensAfter before = [] := rfl

@[simp] theorem chars_indent : (l.indent c hc).chars = c :: l.chars := rfl

@[simp] theorem tokensAfter_indent (before : List Char) :
    (l.indent c hc).tokensAfter before = l.tokensAfter (before ++ [c]) := by
  simp [tokensAfter, indent]

@[simp] theorem chars_cons : (l.cons k w hw hapart).chars = w.toList ++ l.chars := by
  simp [chars, cons, Cell.chars]

@[simp] theorem tokensAfter_cons (before : List Char) :
    (l.cons k w hw hapart).tokensAfter before =
      ⟨k, w, 1 + before.count '\n'⟩ :: l.tokensAfter (before ++ w.toList) := by
  simp [tokensAfter, cons, Cell.tokensAfter, Cell.chars]

end

end Layout

/-! ## Where lexemes may stand -/

namespace Place

/-- A lexeme may stand at a place and leads to another. Among dependencies a comma ends a name. -/
inductive Passes : Place → Token.Kind → String → Place → Prop
  | name (w : String) : Passes top .directiveName w top
  | openList (w : String) : Passes top .leftParen w (inside .dependencies)
  | openBlock (w : String) : Passes top .leftBrace w (inside .commands)
  | dependency (w : String) (h : ',' ∉ w.toList) :
      Passes (inside .dependencies) .commandPart w (inside .dependencies)
  | comma (w : String) : Passes (inside .dependencies) .comma w (inside .dependencies)
  | closeList (w : String) : Passes (inside .dependencies) .rightParen w top
  | part (w : String) : Passes (inside .commands) .commandPart w (inside .commands)
  | semicolon (w : String) : Passes (inside .commands) .semicolon w (inside .commands)
  | closeBlock (w : String) : Passes (inside .commands) .rightBrace w top

variable {p q : Place} {k : Token.Kind} {w : String} {c : Char}

theorem wordKind_eq (p : Place) : p.wordKind = .directiveName ∨ p.wordKind = .commandPart := by
  cases p with
  | top => exact .inl rfl
  | inside b => exact .inr rfl

theorem Delimits.kind_ne (h : p.Delimits c k q) : k ≠ .directiveName ∧ k ≠ .commandPart := by
  cases h with
  | parenthesis => decide
  | brace => decide
  | closer b => cases b <;> decide
  | separator b => cases b <;> decide

/-- A lexeme is a word of its place or a delimiter. -/
theorem Passes.word_or_delimiter (h : p.Passes k w q) (hw : k.Spells w) :
    (k = p.wordKind ∧ q = p ∧ w ≠ "" ∧ ∀ c ∈ w.toList, p.wordChar c = true) ∨
    (∃ c, w = c.toString ∧ p.Delimits c k q) := by
  cases h with
  | name => exact .inl ⟨rfl, rfl, hw.1, hw.2⟩
  | openList => exact .inr ⟨'(', hw, .parenthesis⟩
  | openBlock => exact .inr ⟨'\x7b', hw, .brace⟩
  | dependency _ hcomma =>
    refine .inl ⟨rfl, rfl, hw.1, fun c hc => ?_⟩
    have hne : c ≠ ',' := by
      intro heq
      subst heq
      exact hcomma hc
    simp [wordChar, hw.2 c hc, Block.separator, hne]
  | comma => exact .inr ⟨',', hw, .separator .dependencies⟩
  | closeList => exact .inr ⟨')', hw, .closer .dependencies⟩
  | part =>
    refine .inl ⟨rfl, rfl, hw.1, fun c hc => ?_⟩
    have hne : c ≠ ';' := by
      intro heq
      subst heq
      exact absurd (hw.2 _ hc) (by decide)
    simp [wordChar, hw.2 c hc, Block.separator, hne]
  | semicolon => exact .inr ⟨';', hw, .separator .commands⟩
  | closeBlock => exact .inr ⟨'\x7d', hw, .closer .commands⟩

theorem passes_of_wordChar (hne : w ≠ "") (h : ∀ c ∈ w.toList, p.wordChar c = true) :
    p.wordKind.Spells w ∧ p.Passes p.wordKind w p := by
  cases p with
  | top => exact ⟨⟨hne, h⟩, .name w⟩
  | inside b =>
    have hpart : ∀ c ∈ w.toList, isPart c = true ∧ c ≠ b.separator := by
      intro c hc
      simpa [wordChar] using h c hc
    refine ⟨⟨hne, fun c hc => (hpart c hc).1⟩, ?_⟩
    cases b with
    | dependencies => exact .dependency w fun hcomma => (hpart _ hcomma).2 rfl
    | commands => exact .part w

theorem passes_of_delimits (h : p.Delimits c k q) :
    k.Spells c.toString ∧ p.Passes k c.toString q := by
  cases h with
  | parenthesis => exact ⟨rfl, .openList _⟩
  | brace => exact ⟨rfl, .openBlock _⟩
  | closer b =>
    cases b with
    | dependencies => exact ⟨rfl, .closeList _⟩
    | commands => exact ⟨rfl, .closeBlock _⟩
  | separator b =>
    cases b with
    | dependencies => exact ⟨rfl, .comma _⟩
    | commands => exact ⟨rfl, .semicolon _⟩

theorem Passes.unique {r : Place} (h : p.Passes k w q) (hr : p.Passes k w r) : q = r := by
  cases h <;> cases hr <;> rfl

end Place

namespace Token

/-- A sequence of tokens leads from a place to a place. -/
inductive Leads : Place → List Token → Place → Prop
  | nil (p : Place) : Leads p [] p
  | cons {p q r : Place} {t : Token} {ts : List Token} (h : p.Passes t.kind t.lexeme q)
      (hts : Leads q ts r) : Leads p (t :: ts) r

theorem Leads.unique {p q r : Place} {ts : List Token} (h : Leads p ts q) (hr : Leads p ts r) :
    q = r := by
  induction h with
  | nil =>
    cases hr
    rfl
  | cons hpass hts ih =>
    cases hr with
    | cons hrpass hrts =>
      obtain rfl := hpass.unique hrpass
      exact ih hrts

theorem leads_append {p r : Place} {ts us : List Token} :
    Leads p (ts ++ us) r ↔ ∃ q, Leads p ts q ∧ Leads q us r := by
  induction ts generalizing p with
  | nil =>
    constructor
    · intro h
      exact ⟨p, .nil p, h⟩
    · intro h
      obtain ⟨q, hp, h⟩ := h
      cases hp
      exact h
  | cons t ts ih =>
    constructor
    · intro h
      cases h with
      | cons ht h =>
        obtain ⟨q, hts, hus⟩ := ih.1 h
        exact ⟨q, .cons ht hts, hus⟩
    · intro h
      obtain ⟨q, hts, hus⟩ := h
      cases hts with
      | cons ht hts => exact .cons ht (ih.2 ⟨q, hts, hus⟩)

end Token

end BuildTool
