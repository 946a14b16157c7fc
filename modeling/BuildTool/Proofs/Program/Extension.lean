import BuildTool.Proofs.Program.Continuation
/-!
# Sequences that go on

Tokens that follow a sequence can close further directives. They take none back, and behind the end of
the input or a token out of place they change nothing at all. A sequence that is cut short is read as if
the input ended there. Main result: `Program.ofTokens_append_extends`.
-/

namespace BuildTool.Program

namespace Reader

variable {n : Nat} {r next : Reader} {t : Token} {ts : List Token}

/-- A token closes one directive at most, behind those closed before. -/
theorem closed_isPrefix_of_read (h : r.read t = .on next) :
    r.closed.toList <+: next.closed.toList := by
  obtain ⟨state, closed⟩ := r
  obtain ⟨kind, lexeme, line⟩ := t
  cases state with
  | seeking name => cases name <;> cases kind <;> cases h <;> exact List.prefix_rfl
  | collecting name commands parts =>
    cases kind with
    | commandPart | semicolon =>
      cases h
      exact List.prefix_rfl
    | rightBrace =>
      cases h
      rw [Array.toList_push]
      exact List.prefix_append ..
    | endOfInput | directiveName | leftParen | rightParen | leftBrace | comma => cases h

theorem directives_cutShort (r : Reader) (n : Nat) :
    (r.cutShort n).program.directives = r.closed.toList := by
  unfold cutShort
  split <;> rfl

/-- What is closed stays closed. -/
theorem closed_isPrefix_run (n : Nat) (r : Reader) (ts : List Token) :
    r.closed.toList <+: (run n r ts).program.directives := by
  induction ts generalizing r with
  | nil => simp [run, directives_cutShort]
  | cons t ts ih =>
    cases hread : r.read t with
    | done error => simp [run_of_done hread, result]
    | on next =>
      rw [run_of_on hread]
      exact (closed_isPrefix_of_read hread).trans (ih next)

/-! ## The end of the input -/

theorem exists_read_of_endOfInput (r : Reader) (h : t.kind = .endOfInput) :
    ∃ error, r.read t = .done error := by
  obtain ⟨state, closed⟩ := r
  cases state with
  | seeking name => exact ⟨none, by simp [read, h]⟩
  | collecting name commands parts =>
    exact ⟨some ⟨t.line, .endOfInput, [.commandPart, .semicolon]⟩, by simp [read, h]⟩

/-- Running out of tokens is the end of the input. -/
theorem run_nil_eq_endOfInput (n : Nat) (r : Reader) :
    run n r [] = run n r [.endOfInput n] := by
  obtain ⟨state, closed⟩ := r
  cases state with
  | seeking name => cases name <;> rfl
  | collecting name commands parts => rfl

/-- Nothing is read behind the end of the input. -/
theorem run_append_of_endOfInput (hmem : t ∈ ts) (h : t.kind = .endOfInput) (m : Nat)
    (us : List Token) : run m r (ts ++ us) = run n r ts := by
  induction ts generalizing r with
  | nil => cases hmem
  | cons u ts ih =>
    rw [List.cons_append]
    cases hread : r.read u with
    | done error => rw [run_of_done hread, run_of_done hread]
    | on next =>
      rw [run_of_on hread, run_of_on hread]
      rcases List.mem_cons.1 hmem with rfl | hmem
      · obtain ⟨error, hdone⟩ := r.exists_read_of_endOfInput h
        rw [hread] at hdone
        cases hdone
      · exact ih hmem

end Reader

/-! ## More tokens -/

theorem ofTokens_append_of_endOfInput {xs : List Token}
    (h : ∃ t ∈ xs, t.kind = .endOfInput) (ys : List Token) :
    ofTokens (xs ++ ys) = ofTokens xs := by
  obtain ⟨t, hmem, hkind⟩ := h
  exact Reader.run_append_of_endOfInput hmem hkind ..

theorem ofTokens_eq_append_endOfInput (xs : List Token) :
    ofTokens xs = ofTokens (xs ++ [.endOfInput (lastLine xs)]) := by
  have hlast : lastLine (xs ++ [.endOfInput (lastLine xs)]) = lastLine xs := by
    rw [lastLine, List.getLast?_concat]
    rfl
  rw [ofTokens, ofTokens, hlast]
  rcases Reader.start.run_append xs with ⟨next, hon⟩ | ⟨p, hdone⟩
  · rw [hon, ← Reader.run_nil_eq_endOfInput, ← hon, List.append_nil]
  · rw [hdone, ← hdone (lastLine xs) [], List.append_nil]

theorem directives_isPrefix_ofTokens_append (xs ys : List Token) :
    (ofTokens xs).program.directives <+: (ofTokens (xs ++ ys)).program.directives := by
  have hxs : ofTokens xs = Reader.run (lastLine xs) .start (xs ++ []) := by
    rw [List.append_nil]
    rfl
  rw [hxs, ofTokens]
  rcases Reader.start.run_append xs with ⟨next, hon⟩ | ⟨p, hdone⟩
  · rw [hon, hon, Reader.run, Reader.directives_cutShort]
    exact next.closed_isPrefix_run ..
  · have hsame := (hdone (lastLine xs) []).trans (hdone (lastLine (xs ++ ys)) ys).symm
    exact hsame ▸ List.prefix_rfl

theorem find?_of_isPrefix {p q : Program} {name : String} {d : Directive}
    (h : p.directives <+: q.directives) (hfind : p.find? name = some d) :
    q.find? name = some d :=
  h.find?_eq_some hfind

/-- Further tokens take back no directive that is closed, and a name stays with the directive that it
found. They change nothing behind the end of the input or behind a token out of place. Where the tokens
stop short, the input ends on the line of the last of them. -/
theorem ofTokens_append_extends (xs ys : List Token) :
    (ofTokens xs).program.directives <+: (ofTokens (xs ++ ys)).program.directives ∧
    (∀ name d, (ofTokens xs).program.find? name = some d →
      (ofTokens (xs ++ ys)).program.find? name = some d) ∧
    ((∃ t ∈ xs, t.kind = .endOfInput) → ofTokens (xs ++ ys) = ofTokens xs) ∧
    (∀ e, (ofTokens xs).error = some e → e.found ≠ .endOfInput →
      ofTokens (xs ++ ys) = ofTokens xs) ∧
    ofTokens xs = ofTokens (xs ++ [⟨.endOfInput, "", (xs.getLast?.map Token.line).getD 1⟩]) := by
  have hfront := directives_isPrefix_ofTokens_append xs ys
  have hend := ofTokens_eq_append_endOfInput xs
  refine ⟨hfront, fun name d => find?_of_isPrefix hfront,
    fun h => ofTokens_append_of_endOfInput h ys, ?_, hend⟩
  intro e herror hfound
  rw [hend] at herror ⊢
  exact ofTokens_append_of_found herror hfound ys

/-- The second block of the name `a` and what follows the bracket come too late. -/
theorem ofTokens_append_extends_of_bracket :
    let block : List Token := [⟨.directiveName, "a", 1⟩, ⟨.leftBrace, "\x7b", 1⟩,
      ⟨.commandPart, "x", 2⟩, ⟨.semicolon, ";", 2⟩, ⟨.rightBrace, "\x7d", 3⟩]
    let bracket : List Token := [⟨.leftParen, "(", 4⟩]
    let ended : List Token := [⟨.endOfInput, "", 4⟩]
    ((ofTokens block).program.find? "a" = some ⟨"a", [⟨["x"]⟩]⟩ ∧
      (ofTokens (block ++ block.take 2 ++ block.drop 4)).program.find? "a" =
        some ⟨"a", [⟨["x"]⟩]⟩) ∧
    ((block ++ ended).any (·.kind = .endOfInput) ∧
      ofTokens (block ++ ended ++ bracket) = ofTokens (block ++ ended)) ∧
    ((ofTokens (block ++ bracket)).error = some ⟨4, .leftParen, [.directiveName]⟩ ∧
      ofTokens (block ++ bracket ++ block) = ofTokens (block ++ bracket)) := by
  intro block bracket ended
  have hfind : (ofTokens block).program.find? "a" = some ⟨"a", [⟨["x"]⟩]⟩ := by decide
  have herror : (ofTokens (block ++ bracket)).error = some ⟨4, .leftParen, [.directiveName]⟩ := by
    decide
  refine ⟨⟨hfind, ?_⟩, ⟨by decide, ?_⟩, herror, ?_⟩
  · rw [List.append_assoc]
    exact (ofTokens_append_extends block _).2.1 "a" _ hfind
  · exact (ofTokens_append_extends (block ++ ended) bracket).2.2.1 (by decide)
  · exact (ofTokens_append_extends (block ++ bracket) block).2.2.2.1 _ herror (by decide)

end BuildTool.Program
