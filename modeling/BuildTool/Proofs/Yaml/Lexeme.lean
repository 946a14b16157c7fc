import BuildTool.Yaml.Token
import BuildTool.Yaml.Spelling
import BuildTool.Proofs.Text.Characters
/-!
# Words and quotes on a line

How the lexemes of a line with a word, a colon and a scalar are read: a word as a plain scalar, which
ends before the colon or with its line (`PlainScalar.read_key`, `PlainScalar.read_line_end`), and
printable characters in single quotes as themselves, blanks and doubled quotes included
(`Quoted.single_doubled`).
-/

namespace BuildTool.Yaml

open Alphabet (forall_ascii)

/-! ## Characters -/

/-- The characters of the words that a line may start with. -/
def isKeyChar (c : Char) : Bool :=
  c.isAlpha || c = '_'

def isPrintable (c : Char) : Bool :=
  ' ' ≤ c && c ≤ '~'

section

variable {c d : Char}

theorem toNat_lt_of_isPrintable (h : isPrintable c = true) : c.toNat < 128 := by
  simp only [isPrintable, Bool.and_eq_true, decide_eq_true_eq, Char.le_def,
    UInt32.le_iff_toNat_le] at h
  have hlast : '~'.val.toNat = 126 := rfl
  change c.val.toNat < 128
  omega

theorem toNat_lt_of_isKeyChar (h : isKeyChar c = true) : c.toNat < 128 := by
  simp only [isKeyChar, Bool.or_eq_true, decide_eq_true_eq] at h
  rcases h with h | rfl
  · exact Alphabet.toNat_lt_of_isAlpha h
  · decide

theorem isKeyChar_of_isAlpha (h : c.isAlpha = true) : isKeyChar c = true := by
  rw [isKeyChar, h, Bool.true_or]

theorem ne_of_isKeyChar (h : isKeyChar c = true) (hd : isKeyChar d = false) : c ≠ d := by
  intro hcd
  rw [hcd, hd] at h
  cases h

theorem isPrintable_of_isKeyChar (h : isKeyChar c = true) : isPrintable c = true :=
  forall_ascii (p := fun d => isKeyChar d = true → isPrintable d = true) (by decide +kernel) c
    (toNat_lt_of_isKeyChar h) h

theorem isBreak_of_isPrintable (h : isPrintable c = true) : isBreak c = false :=
  forall_ascii (p := fun d => isPrintable d = true → isBreak d = false) (by decide +kernel) c
    (toNat_lt_of_isPrintable h) h

theorem utf8Size_of_isPrintable (h : isPrintable c = true) : c.utf8Size = 1 :=
  forall_ascii (p := fun d => isPrintable d = true → d.utf8Size = 1) (by decide +kernel) c
    (toNat_lt_of_isPrintable h) h

theorem isBlank_of_isKeyChar (h : isKeyChar c = true) : isBlank c = false := by
  have hspace := ne_of_isKeyChar h (d := ' ') rfl
  have htab := ne_of_isKeyChar h (d := '\t') rfl
  simp [isBlank, hspace, htab]

theorem isBreak_of_isKeyChar (h : isKeyChar c = true) : isBreak c = false :=
  isBreak_of_isPrintable (isPrintable_of_isKeyChar h)

theorem isSpace_of_isKeyChar (h : isKeyChar c = true) : isSpace c = false := by
  rw [isSpace, isBlank_of_isKeyChar h, isBreak_of_isKeyChar h, Bool.or_false]

end

/-! ## Plain scalars -/

namespace PlainScalar

variable {c : Char} {w : List Char}

theorem startsHere_of_isKeyChar (h : isKeyChar c = true) (flow : Bool) (r : List Char) :
    startsHere flow (c :: r) = true := by
  have hindicator : "-?:,[]\x7b\x7d#&*!|>'\"%@\x60".toList.contains c = false :=
    forall_ascii (p := fun d => isKeyChar d = true →
      "-?:,[]\x7b\x7d#&*!|>'\"%@\x60".toList.contains d = false) (by decide +kernel) c
      (toNat_lt_of_isKeyChar h) h
  rw [startsHere, isSpace_of_isKeyChar h, hindicator]
  rfl

theorem read_cons_of_isKeyChar (h : isKeyChar c = true) (indent column : Nat) (r : List Char) :
    read false indent .none column (c :: r) =
      (read false indent .none (column + 1) r).map fun x => { x with text := c :: x.text } := by
  have hcolon := ne_of_isKeyChar h (d := ':') rfl
  rw [read, isBlank_of_isKeyChar h, isBreak_of_isKeyChar h]
  simp [Gap.isNone, Gap.none, endsWord, Gap.text, Gap.hasBreak, hcolon]

theorem read_word (h : ∀ c ∈ w, isKeyChar c = true) (indent column : Nat) (r : List Char) :
    read false indent .none column (w ++ r) =
      (read false indent .none (column + w.length) r).map fun x =>
        { x with text := w ++ x.text } := by
  induction w generalizing column with
  | nil =>
    rw [List.nil_append, List.length_nil, Nat.add_zero]
    cases read false indent .none column r <;> rfl
  | cons c w ih =>
    have hw : ∀ d ∈ w, isKeyChar d = true := fun d hd => h d (List.mem_cons_of_mem c hd)
    have hlength : column + 1 + w.length = column + (c :: w).length := by
      rw [List.length_cons]
      omega
    rw [List.cons_append, read_cons_of_isKeyChar (h c List.mem_cons_self), ih hw, hlength]
    cases read false indent .none (column + (c :: w).length) r <;> rfl

/-- A word with a colon and a space behind it. -/
theorem read_key (h : ∀ c ∈ w, isKeyChar c = true) (indent column : Nat) (r : List Char) :
    read false indent .none column (w ++ ':' :: ' ' :: r) = .ok ⟨w, false, ':' :: ' ' :: r⟩ := by
  have hcolon : read false indent .none (column + w.length) (':' :: ' ' :: r) =
      .ok ⟨[], false, ':' :: ' ' :: r⟩ := by
    rw [read]
    simp [isBlank, isBreak, Gap.isNone, Gap.none, endsWord, atWordEnd, isSpace, Gap.hasBreak]
  rw [read_word h, hcolon]
  simp [Except.map]

/-- A word that ends its line, and the lines with it. -/
theorem read_last_word (h : ∀ c ∈ w, isKeyChar c = true) (indent column : Nat) :
    read false indent .none column w = .ok ⟨w, false, []⟩ := by
  have hnil : read false indent .none (column + w.length) [] = .ok ⟨[], false, []⟩ := rfl
  have hword := read_word h indent column []
  rw [List.append_nil, hnil] at hword
  rw [hword]
  simp [Except.map]

/-- A word that ends its line; the next line, if there is one, is no further in. -/
theorem read_line_end (h : ∀ c ∈ w, isKeyChar c = true) {indent : Nat} (hindent : 0 < indent)
    (column : Nat) {r : List Char} (hr : ∀ c ∈ r.head?, isKeyChar c = true) :
    read false indent .none column (w ++ '\n' :: r) = .ok ⟨w, true, r⟩ := by
  have hbreak : read false indent .none (column + w.length) ('\n' :: r) = .ok ⟨[], true, r⟩ := by
    rw [read]
    simp only [show isBlank '\n' = false from rfl, show isBreak '\n' = true from rfl,
      Bool.false_eq_true, if_false, if_true]
    cases r with
    | nil => rfl
    | cons c r =>
      have hc := hr c rfl
      rw [read, isBlank_of_isKeyChar hc, isBreak_of_isKeyChar hc]
      simp [Gap.isNone, Gap.none, Gap.add, endsScalar, hindent, Gap.hasBreak, isBreak]
  rw [read_word h, hbreak]
  simp [Except.map]

end PlainScalar

/-! ## Quoted scalars -/

/-- A gap on one line. -/
structure Gap.OneLine (g : Gap) : Prop where
  joined : g.joined = false
  isBreak : ∀ c ∈ g.reversed, isBreak c = false

namespace Gap.OneLine

variable {g : Gap} {c : Char}

theorem none : Gap.none.OneLine :=
  ⟨rfl, by simp [Gap.none]⟩

theorem add (h : g.OneLine) (hc : Yaml.isBreak c = false) : (g.add c).OneLine := by
  refine ⟨h.joined, fun d hd => ?_⟩
  rcases List.mem_cons.1 hd with rfl | hd
  · exact hc
  · exact h.isBreak d hd

theorem atLineStart (h : g.OneLine) : g.atLineStart = false := by
  unfold Gap.atLineStart
  split
  · exact h.joined
  · rename_i c r hr
    exact h.isBreak c (by simp [hr])

theorem text (h : g.OneLine) : g.text = g.reversed.reverse := by
  have hbreak : g.hasBreak = false := by
    rw [Gap.hasBreak, h.joined, Bool.false_or, List.any_eq_false]
    exact fun c hc => by simp [h.isBreak c hc]
  simp [Gap.text, h.joined, hbreak]

end Gap.OneLine

namespace Quoted

variable {cs rest : List Char} {g : Gap}

theorem single_closing (g : Gap) (h : rest.head? ≠ some '\x27') :
    single true g rest = .ok (g.text, rest) := by
  cases rest with
  | nil => rfl
  | cons c r =>
    have hc : c ≠ '\x27' := by simpa using h
    rw [single, if_neg hc]

/-- What is behind a gap in single quotes is read to the quote that closes it. -/
theorem single_doubled (hcs : ∀ c ∈ cs, isPrintable c = true) (hg : g.OneLine)
    (hrest : rest.head? ≠ some '\x27') :
    single false g (cs.flatMap Spelling.doubleQuote ++ '\x27' :: rest) =
      .ok (g.text ++ cs, rest) := by
  induction cs generalizing g with
  | nil =>
    rw [List.flatMap_nil, List.nil_append, single, hg.atLineStart]
    simp [isSpace, isBlank, isBreak, single_closing g hrest]
  | cons c cs ih =>
    have hbreak : isBreak c = false := isBreak_of_isPrintable (hcs c List.mem_cons_self)
    have hcs' : ∀ d ∈ cs, isPrintable d = true := fun d hd => hcs d (List.mem_cons_of_mem c hd)
    have htail := ih hcs' Gap.OneLine.none
    have hnone : Gap.none.text = [] := rfl
    rw [List.flatMap_cons, List.append_assoc]
    by_cases hquote : c = '\x27'
    · -- A quote that is followed by another one closes nothing.
      subst hquote
      have hdouble : Spelling.doubleQuote '\x27' = ['\x27', '\x27'] := rfl
      rw [hdouble, List.cons_append, List.singleton_append, single, hg.atLineStart,
        if_neg (by decide), Bool.false_and, if_neg (by decide), if_pos rfl, single, if_pos rfl, htail]
      simp [TextResult.after, Except.map, hnone]
    · have hdouble : Spelling.doubleQuote c = [c] := if_neg hquote
      rw [hdouble, List.singleton_append, single, hg.atLineStart]
      by_cases hspace : isSpace c = true
      · rw [if_pos hspace, ih hcs' (hg.add hbreak), (hg.add hbreak).text, hg.text]
        simp [Gap.add]
      · rw [if_neg hspace, Bool.false_and, if_neg (by decide), if_neg hquote, htail]
        simp [TextResult.after, Except.map, hnone]

end Quoted

/-! ## Lexemes -/

theorem isMark_of_ne {m c : Char} (h : c ≠ m) (r : List Char) : isMark m (c :: r) = false := by
  unfold isMark
  split
  · simp_all
  · rfl

namespace Lexeme

variable {c : Char} {w cs r : List Char}

theorem read_of_isKeyChar (h : isKeyChar c = true) (p : Place) (r : List Char) :
    read p c r = readPlain p (c :: r) := by
  have hne : ∀ d, isKeyChar d = false → c ≠ d := fun d => ne_of_isKeyChar h
  unfold read
  rw [isMark_of_ne (hne '-' rfl), isMark_of_ne (hne '.' rfl)]
  simp only [hne '%' rfl, Bool.and_false, decide_false, if_false, Bool.false_eq_true]
  split
  all_goals first | exact absurd h (by decide) | skip
  simp [hne '-' rfl, hne '?' rfl, hne ':' rfl, hne '|' rfl, hne '>' rfl,
    PlainScalar.startsHere_of_isKeyChar h]

theorem read_key (h : ∀ d ∈ c :: w, isKeyChar d = true) (indent : Option Nat) (column : Nat)
    (r : List Char) :
    read ⟨false, indent, column⟩ c (w ++ ':' :: ' ' :: r) =
      .ok (.scalar .plain (String.ofList (c :: w)) false, ':' :: ' ' :: r) := by
  rw [read_of_isKeyChar (h c List.mem_cons_self), readPlain, ← List.cons_append,
    PlainScalar.read_key h]
  rfl

theorem read_colon (indent : Option Nat) (column : Nat) (r : List Char) :
    read ⟨false, indent, column⟩ ':' (' ' :: r) = .ok (.value, ' ' :: r) := by
  have hdash : isMark '-' (':' :: ' ' :: r) = false := isMark_of_ne (by decide) _
  have hdot : isMark '.' (':' :: ' ' :: r) = false := isMark_of_ne (by decide) _
  simp [read, hdash, hdot, atWordEnd, isSpace, isBlank]

theorem read_quoted (hcs : ∀ d ∈ cs, isPrintable d = true) (hr : r.head? ≠ some '\x27')
    (indent : Option Nat) (column : Nat) :
    read ⟨false, indent, column⟩ '\x27' (cs.flatMap Spelling.doubleQuote ++ '\x27' :: r) =
      .ok (.scalar .singleQuoted (String.ofList cs) false, r) := by
  unfold read
  rw [isMark_of_ne (by decide), isMark_of_ne (by decide)]
  simp only [show ¬ ('\x27' = '%') by decide, Bool.and_false, decide_false, if_false,
    Bool.false_eq_true]
  rw [readQuoted, Quoted.single_doubled hcs .none hr]
  rfl

end Lexeme

end BuildTool.Yaml
