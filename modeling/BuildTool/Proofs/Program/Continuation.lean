import BuildTool.Proofs.Program.Grammar
import BuildTool.Proofs.Token.Shift
/-!
# Reading behind other tokens

What a reader makes of tokens does not depend on the directives closed before them, and their lines
matter for the line of an error alone (`Reader.run_after`). A sequence of tokens either leaves the reader
somewhere, and what follows is read from there, or it stops the reader for good (`Reader.run_append`).
-/

namespace BuildTool

def ParseError.shift (k : Nat) (e : ParseError) : ParseError :=
  { e with line := e.line + k }

namespace Program

/-- What was read behind directives that take up `k` lines. -/
def Parsed.after (p : Parsed) (ds : List Directive) (k : Nat) : Parsed :=
  ⟨⟨ds ++ p.program.directives⟩, p.error.map (.shift k)⟩

namespace Reader

/-- The reader behind directives. -/
def after (r : Reader) (ds : List Directive) : Reader :=
  { r with closed := ds.toArray ++ r.closed }

def Verdict.after (ds : List Directive) (k : Nat) : Verdict → Verdict
  | on next => on (next.after ds)
  | done error => done (error.map (.shift k))

section

variable (r : Reader) (ds : List Directive) (k : Nat)

theorem result_after (error : Option ParseError) :
    (r.after ds).result (error.map (.shift k)) = (r.result error).after ds k := by
  simp [result, after, Parsed.after]

theorem cutShort_after (n : Nat) : (r.after ds).cutShort (n + k) = (r.cutShort n).after ds k := by
  have hstate : (r.after ds).state = r.state := rfl
  rw [cutShort, cutShort, hstate]
  cases r.state with
  | seeking => exact result_after r ds k none
  | collecting => exact result_after r ds k (some ⟨n, .endOfInput, [.commandPart, .semicolon]⟩)

theorem read_after (t : Token) : (r.after ds).read (t.shift k) = (r.read t).after ds k := by
  obtain ⟨state, closed⟩ := r
  obtain ⟨kind, lexeme, line⟩ := t
  cases state with
  | seeking name => cases name <;> cases kind <;> rfl
  | collecting name commands parts =>
    cases kind with
    | rightBrace => simp [read, after, Verdict.after, Token.shift]
    | _ => rfl

/-- Reading goes the same way behind other directives and further down. -/
theorem run_after (n : Nat) (ts : List Token) :
    run (n + k) (r.after ds) (ts.map (Token.shift k)) = (run n r ts).after ds k := by
  induction ts generalizing r with
  | nil => exact cutShort_after r ds k n
  | cons t ts ih =>
    rw [List.map_cons, run, run, read_after]
    cases r.read t with
    | on next => exact ih next
    | done error => exact result_after r ds k error

/-- Either the reader comes to the end of the first tokens, or they stop it whatever follows. -/
theorem run_append (xs : List Token) :
    (∃ next, ∀ n ys, run n r (xs ++ ys) = run n next ys) ∨
    (∃ p, ∀ n ys, run n r (xs ++ ys) = p) := by
  induction xs generalizing r with
  | nil => exact .inl ⟨r, fun n ys => rfl⟩
  | cons x xs ih =>
    cases hread : r.read x with
    | on next =>
      have hstep : ∀ n ys, run n r (x :: xs ++ ys) = run n next (xs ++ ys) :=
        fun n ys => run_of_on hread
      simp only [hstep]
      exact ih next
    | done error => exact .inr ⟨r.result error, fun n ys => run_of_done hread⟩

/-- The end of the input comes too early or not, but it is never taken for another token. -/
theorem found_of_run_endOfInput {n line : Nat} {e : ParseError}
    (h : (run n r [.endOfInput line]).error = some e) : e.found = .endOfInput := by
  obtain ⟨state, closed⟩ := r
  cases state with
  | seeking name => cases name <;> cases h
  | collecting name commands parts =>
    cases h
    rfl

end

end Reader

/-- What stops the reader before the end of the input stops it whatever follows. -/
theorem ofTokens_append_of_found {xs : List Token} {line : Nat} {e : ParseError}
    (h : (ofTokens (xs ++ [.endOfInput line])).error = some e) (hfound : e.found ≠ .endOfInput)
    (ys : List Token) : ofTokens (xs ++ ys) = ofTokens (xs ++ [.endOfInput line]) := by
  rcases Reader.start.run_append xs with ⟨next, hon⟩ | ⟨p, hdone⟩
  · -- A reader that `xs` does not stop can only complain about the end of the input.
    rw [ofTokens, hon] at h
    exact absurd (next.found_of_run_endOfInput h) hfound
  · rw [ofTokens, ofTokens, hdone, hdone]

theorem lastLine_append_shift {xs us : List Token} {k : Nat} (hus : us ≠ []) :
    lastLine (xs ++ us.map (Token.shift k)) = lastLine us + k := by
  have hne : us.map (Token.shift k) ≠ [] := by simpa using hus
  rw [lastLine, lastLine, List.getLast?_append_of_ne_nil _ hne, List.getLast?_map,
    List.getLast?_eq_some_getLast hus]
  rfl

/-- Tokens that come to stand further down can only take an error with them. -/
theorem ofTokens_append_shift (xs : List Token) {us : List Token} (k : Nat) (hus : us ≠ []) :
    ofTokens (xs ++ us.map (Token.shift k)) = ofTokens (xs ++ us) ∨
    ofTokens (xs ++ us.map (Token.shift k)) = (ofTokens (xs ++ us)).after [] k := by
  have hlast : lastLine (xs ++ us) = lastLine us := by
    rw [lastLine, lastLine, List.getLast?_append_of_ne_nil _ hus]
  rcases Reader.start.run_append xs with ⟨next, hon⟩ | ⟨p, hdone⟩
  · right
    have hnext : next.after [] = next := by simp [Reader.after]
    rw [ofTokens, ofTokens, hon, hon, hlast, lastLine_append_shift hus, ← Reader.run_after, hnext]
  · left
    rw [ofTokens, ofTokens, hdone, hdone]

/-- Behind blocks, tokens are read by themselves. -/
theorem ofTokens_stanzas_append (blocks : List Stanza) {us : List Token} (k : Nat) (hus : us ≠ []) :
    ofTokens (blocks.flatMap Stanza.tokens ++ us.map (Token.shift k)) =
      (ofTokens us).after (blocks.map Stanza.directive) k := by
  rw [ofTokens, lastLine_append_shift hus]
  calc
    Reader.run (lastLine us + k) .start (blocks.flatMap Stanza.tokens ++ us.map (Token.shift k)) =
        Reader.run (lastLine us + k) (Reader.start.after (blocks.map Stanza.directive))
          (us.map (Token.shift k)) := by
      rw [Reader.start, Reader.run_stanzas]
      simp [Reader.after]
    _ = (ofTokens us).after (blocks.map Stanza.directive) k := Reader.run_after ..

end Program

end BuildTool
