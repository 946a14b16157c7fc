import BuildTool.Token.Scanner
import BuildTool.Proofs.Text.Characters
/-!
# What a character is, and what the scanner does with it

The tests of `Place.reading` exclude each other, so their order does not matter: a character is white
space, goes on with a word, is a delimiter or is illegal (`reading_cases`). `Scanner.step_cases` says
once what a step of the scanner can do; what runs do is derived from it.
-/

namespace BuildTool

open Alphabet

namespace Place

/-- The characters of the words of a place. -/
def wordChar : Place → Char → Bool
  | top, c => c.isAlpha
  | inside b, c => isPart c && decide (c ≠ b.separator)

/-- A delimiter stands at a place, is a token of a kind and leads to a place. -/
inductive Delimits : Place → Char → Token.Kind → Place → Prop
  | parenthesis : Delimits top '(' .leftParen (inside .dependencies)
  | brace : Delimits top '\x7b' .leftBrace (inside .commands)
  | closer (b : Block) : Delimits (inside b) b.closer b.closerKind top
  | separator (b : Block) : Delimits (inside b) b.separator b.separatorKind (inside b)

/-! ## The characters of a place apart -/

theorem closer_ne_of_isSpace {b : Block} {c : Char} (h : isSpace c = true) : c ≠ b.closer := by
  intro hc
  subst hc
  cases b <;> cases h

theorem closer_ne_of_isPart {b : Block} {c : Char} (h : isPart c = true) : c ≠ b.closer := by
  intro hc
  subst hc
  cases b <;> exact absurd h (by decide)

theorem ne_of_not_delimits_top {c : Char} (h : ∀ k q, ¬ top.Delimits c k q) :
    c ≠ '(' ∧ c ≠ '\x7b' := by
  constructor
  · intro hc
    subst hc
    exact h _ _ .parenthesis
  · intro hc
    subst hc
    exact h _ _ .brace

theorem ne_of_not_delimits_inside {b : Block} {c : Char}
    (h : ∀ k q, ¬ (inside b).Delimits c k q) : c ≠ b.closer ∧ c ≠ b.separator := by
  constructor
  · intro hc
    subst hc
    exact h _ _ (.closer b)
  · intro hc
    subst hc
    exact h _ _ (.separator b)

theorem isSpace_of_wordChar {p : Place} {c : Char} (h : p.wordChar c = true) :
    isSpace c = false := by
  cases p with
  | top => exact isSpace_of_isAlpha h
  | inside b =>
    simp only [wordChar, Bool.and_eq_true] at h
    exact isSpace_of_isPart h.1

theorem isSpace_of_delimits {p q : Place} {c : Char} {k : Token.Kind} (h : p.Delimits c k q) :
    isSpace c = false := by
  cases h with
  | parenthesis => rfl
  | brace => rfl
  | closer b => cases b <;> rfl
  | separator b => cases b <;> rfl

/-! ## Reading a character -/

theorem reading_of_isSpace {p : Place} {c : Char} (h : isSpace c = true) :
    p.reading c = if c = '\n' then .newline else .blank := by
  simp only [isSpace, isBlank, Bool.or_eq_true, decide_eq_true_eq] at h
  cases p with
  | top => rcases h with ((rfl | rfl) | rfl) | rfl <;> rfl
  | inside b => cases b <;> rcases h with ((rfl | rfl) | rfl) | rfl <;> rfl

theorem reading_of_wordChar {p : Place} {c : Char} (h : p.wordChar c = true) :
    p.reading c = .word := by
  obtain ⟨hblank, hline⟩ : isBlank c = false ∧ c ≠ '\n' := by
    simpa [isSpace] using isSpace_of_wordChar h
  cases p with
  | top =>
    have hletter : letters.contains c = true := by rw [contains_letters]; exact h
    simp [reading, hblank, hline, hletter]
  | inside b =>
    simp only [wordChar, Bool.and_eq_true, decide_eq_true_eq] at h
    obtain ⟨hpart, hsep⟩ := h
    have hclose : c ≠ b.closer := closer_ne_of_isPart hpart
    have hword : b.wordChars.contains c = true := by
      cases b with
      | dependencies => simp [Block.wordChars, contains_dependencyChars, hpart]; exact hsep
      | commands => rw [Block.wordChars, contains_partChars]; exact hpart
    simp [reading, hclose, hblank, hline, hsep, hword]

theorem reading_of_delimits {p q : Place} {c : Char} {k : Token.Kind} (h : p.Delimits c k q) :
    p.reading c = .delimiter k q := by
  cases h with
  | parenthesis => rfl
  | brace => rfl
  | closer b => cases b <;> rfl
  | separator b => cases b <;> rfl

theorem reading_eq_illegal {p : Place} {c : Char} (hspace : isSpace c = false)
    (hword : p.wordChar c = false) (hdelim : ∀ k q, ¬ p.Delimits c k q) :
    p.reading c = .illegal := by
  obtain ⟨hblank, hline⟩ : isBlank c = false ∧ c ≠ '\n' := by
    simpa [isSpace] using hspace
  cases p with
  | top =>
    have hletter : letters.contains c = false := by rw [contains_letters]; exact hword
    obtain ⟨hparen, hbrace⟩ := ne_of_not_delimits_top hdelim
    simp [reading, hblank, hline, hletter, hbrace, hparen]
  | inside b =>
    obtain ⟨hclose, hsep⟩ := ne_of_not_delimits_inside hdelim
    have hpart : isPart c = false := by simpa [wordChar, hsep] using hword
    have hchars : b.wordChars.contains c = false := by
      cases b with
      | dependencies => simp [Block.wordChars, contains_dependencyChars, hpart]
      | commands => rw [Block.wordChars, contains_partChars]; exact hpart
    simp [reading, hclose, hblank, hline, hsep, hchars]

/-- Every character is read in exactly one of four ways, whatever the order of the tests. -/
theorem reading_cases (p : Place) (c : Char) :
    (isSpace c = true ∧ p.reading c = if c = '\n' then .newline else .blank) ∨
    (p.wordChar c = true ∧ p.reading c = .word) ∨
    (∃ k q, p.Delimits c k q ∧ p.reading c = .delimiter k q) ∨
    (isSpace c = false ∧ p.wordChar c = false ∧ (∀ k q, ¬ p.Delimits c k q) ∧
      p.reading c = .illegal) := by
  cases hspace : isSpace c with
  | true => exact .inl ⟨rfl, reading_of_isSpace hspace⟩
  | false =>
    cases hword : p.wordChar c with
    | true => exact .inr (.inl ⟨rfl, reading_of_wordChar hword⟩)
    | false =>
      by_cases hdelim : ∃ k q, p.Delimits c k q
      · obtain ⟨k, q, h⟩ := hdelim
        exact .inr (.inr (.inl ⟨k, q, h, reading_of_delimits h⟩))
      · have hnone : ∀ k q, ¬ p.Delimits c k q := fun k q h => hdelim ⟨k, q, h⟩
        exact .inr (.inr (.inr ⟨rfl, rfl, hnone, reading_eq_illegal hspace hword hnone⟩))

end Place

/-! ## Steps of the scanner -/

namespace Scanner

variable {s t : Scanner} {c : Char}

theorem step_of_isSpace (h : isSpace c = true) :
    s.step c = .ok { s.flush with line := s.line + [c].count '\n' } := by
  rw [step, Place.reading_of_isSpace h]
  by_cases hc : c = '\n'
  · simp [hc]
  · simp only [hc, ↓reduceIte, List.count_singleton, beq_iff_eq, Nat.add_zero]
    rw [← flush_line s]

theorem step_of_wordChar (h : s.place.wordChar c = true) :
    s.step c = .ok { s with word := s.word.push c } := by
  rw [step, Place.reading_of_wordChar h]

theorem step_of_delimits {k : Token.Kind} {q : Place} (h : s.place.Delimits c k q) :
    s.step c = .ok (s.flush.emit k c q) := by
  rw [step, Place.reading_of_delimits h]

/-- Everything a step that succeeds can do. -/
theorem step_cases (h : s.step c = .ok t) :
    (isSpace c = true ∧ t = { s.flush with line := s.line + [c].count '\n' }) ∨
    (s.place.wordChar c = true ∧ t = { s with word := s.word.push c }) ∨
    (∃ k q, s.place.Delimits c k q ∧ t = s.flush.emit k c q) := by
  rcases s.place.reading_cases c with ⟨hc, -⟩ | ⟨hc, -⟩ | ⟨k, q, hc, -⟩ | ⟨-, -, -, hr⟩
  · rw [step_of_isSpace hc] at h
    exact .inl ⟨hc, (Except.ok.inj h).symm⟩
  · rw [step_of_wordChar hc] at h
    exact .inr (.inl ⟨hc, (Except.ok.inj h).symm⟩)
  · rw [step_of_delimits hc] at h
    exact .inr (.inr ⟨k, q, hc, (Except.ok.inj h).symm⟩)
  · rw [step, hr] at h
    cases h

/-! ## Runs that succeed -/

variable {cs ds : List Char} {ts : List Token}

theorem exists_of_feed_cons (h : s.feed (c :: cs) = .ok t) :
    ∃ u, s.step c = .ok u ∧ u.feed cs = .ok t := by
  rw [feed_cons] at h
  cases hstep : s.step c with
  | error e => rw [hstep] at h; cases h
  | ok u => rw [hstep] at h; exact ⟨u, rfl, h⟩

theorem exists_of_feed_append (h : s.feed (cs ++ ds) = .ok t) :
    ∃ u, s.feed cs = .ok u ∧ u.feed ds = .ok t := by
  rw [feed_append] at h
  cases hfeed : s.feed cs with
  | error e => rw [hfeed] at h; cases h
  | ok u => rw [hfeed] at h; exact ⟨u, rfl, h⟩

/-- What becomes of a text that ends with these characters. -/
def complete (s : Scanner) (cs : List Char) : Except ScanError (List Token) :=
  s.feed cs >>= finish

theorem complete_append_of_feed (h : s.feed cs = .ok t) (ds : List Char) :
    s.complete (cs ++ ds) = t.complete ds := by
  rw [complete, feed_append, h]
  rfl

theorem exists_of_complete (h : s.complete cs = .ok ts) :
    ∃ t, s.feed cs = .ok t ∧ t.finish = .ok ts := by
  rw [complete] at h
  cases hfeed : s.feed cs with
  | error e => rw [hfeed] at h; cases h
  | ok t => rw [hfeed] at h; exact ⟨t, rfl, h⟩

end Scanner

theorem Token.scan_eq_complete (source : String) :
    scan source = Scanner.start.complete source.toList := rfl

end BuildTool
