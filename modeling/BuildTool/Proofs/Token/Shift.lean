import BuildTool.Proofs.Token.LayoutScan
/-!
# Scanning behind another text

A scanner that starts behind other tokens, some lines further down, makes what it would make at the
start: its tokens come behind those, and their lines are larger (`Scanner.complete_after`). At the end of a
line of a text that can be scanned the scanner is such a one, so what follows is scanned by itself
(`Token.scan_append_line`).
-/

namespace BuildTool

/-- The token `k` lines further down. -/
def Token.shift (k : Nat) (t : Token) : Token :=
  { t with line := t.line + k }

def ScanError.shift (k : Nat) (e : ScanError) : ScanError :=
  { e with line := e.line + k }

namespace Scanner

/-- The scanner behind tokens that take up `k` lines. -/
def after (s : Scanner) (ts : Array Token) (k : Nat) : Scanner :=
  { s with line := s.line + k, tokens := ts ++ s.tokens.map (Token.shift k) }

section

variable (s : Scanner) (ts : Array Token) (k : Nat)

theorem emit_after (kind : Token.Kind) (c : Char) (q : Place) :
    (s.after ts k).emit kind c q = (s.emit kind c q).after ts k := by
  simp [emit, after, Token.shift]

theorem flush_after : (s.after ts k).flush = s.flush.after ts k := by
  by_cases hword : s.word = ""
  · rw [flush_of_word_eq hword, flush_of_word_eq (s := s.after ts k) hword]
  · have hafter : (s.after ts k).word ≠ "" := hword
    rw [flush, if_neg hafter, flush, if_neg hword]
    simp [after, Token.shift]

theorem step_after (c : Char) :
    (s.after ts k).step c = ((s.step c).map (·.after ts k)).mapError (.shift k) := by
  have hplace : (s.after ts k).place = s.place := rfl
  rw [step, step, hplace]
  cases s.place.reading c with
  | word => rfl
  | blank => exact congrArg Except.ok (flush_after s ts k)
  | newline =>
    rw [flush_after]
    simp [Except.map, Except.mapError, after, Nat.add_right_comm]
  | delimiter kind next =>
    dsimp only
    rw [flush_after, emit_after]
    rfl
  | illegal => rfl

theorem feed_after (cs : List Char) :
    (s.after ts k).feed cs = ((s.feed cs).map (·.after ts k)).mapError (.shift k) := by
  induction cs generalizing s with
  | nil => rfl
  | cons c cs ih =>
    rw [feed_cons, feed_cons, step_after]
    cases s.step c with
    | error e => rfl
    | ok t => exact ih t

theorem finish_after :
    (s.after ts k).finish =
      (s.finish.map fun us => ts.toList ++ us.map (Token.shift k)).mapError (.shift k) := by
  have hplace : (s.after ts k).place = s.place := rfl
  rw [finish, finish, hplace]
  cases s.place with
  | top =>
    rw [flush_after]
    simp [Except.map, Except.mapError, after, Token.shift, Token.endOfInput]
  | inside b => rfl

theorem complete_after (cs : List Char) :
    (s.after ts k).complete cs =
      ((s.complete cs).map fun us => ts.toList ++ us.map (Token.shift k)).mapError (.shift k) := by
  rw [complete, complete, feed_after]
  cases s.feed cs with
  | error e => rfl
  | ok t => exact finish_after t ts k

end

end Scanner

namespace Token

/-- Behind the last line of a text that can be scanned, another text is scanned by itself. -/
theorem scan_append_line {s t : String} {ts : List Token} {line : Nat}
    (h : scan s = .ok (ts ++ [.endOfInput line])) :
    scan (s ++ "\n" ++ t) =
      ((scan t).map fun us => ts ++ us.map (shift (s.toList.count '\n' + 1))).mapError
        (.shift (s.toList.count '\n' + 1)) := by
  obtain ⟨u, hfeed, hfinish⟩ := Scanner.exists_of_complete h
  obtain ⟨hplace, hts⟩ := Scanner.finish_eq_ok_iff.1 hfinish
  obtain ⟨-, hline⟩ := Scanner.walk_of_feed hfeed
  obtain ⟨rfl, -⟩ : ts = u.flush.tokens.toList ∧ _ := List.append_inj' hts rfl
  -- The line feed ends a word still open, so behind it the scanner stands at the top with none.
  have hseam : u.feed ['\n'] =
      .ok (Scanner.start.after u.flush.tokens (s.toList.count '\n' + 1)) := by
    rw [Scanner.feed_gap (by simp [Alphabet.isSpace]) (by simp), hline]
    simp [Scanner.start, Scanner.after, hplace, Nat.add_assoc]
  rw [scan_eq_complete, scan_eq_complete, String.toList_append, String.toList_append,
    List.append_assoc, Scanner.complete_append_of_feed hfeed, ← Scanner.complete_after]
  exact Scanner.complete_append_of_feed hseam t.toList

end Token

end BuildTool
