import BuildTool.Proofs.Token.Insertion
/-!
# Texts that can be completed

An illegal character is not made legal by what follows it, and an open block can always be closed. So a
text is the front of one that can be scanned if and only if it has no illegal character. Main result:
`Token.scan_outlook`.
-/

namespace BuildTool

theorem Block.unclosed_inj {b d : Block} : b.unclosed = d.unclosed ↔ b = d := by
  cases b <;> cases d <;> decide

/-- An error at a character stands there whatever follows. -/
theorem ScanError.Stands.append {source : String} {e : ScanError} {before : List Char}
    (h : e.Stands source before) (hcause : e.cause = .illegalCharacter) (t : String) :
    e.Stands (source ++ t) before := by
  cases h with
  | @illegal before after c p hsplit hwalk hstuck =>
    have hcut : (source ++ t).toList = before ++ c :: (after ++ t.toList) := by
      rw [String.toList_append, hsplit, List.append_assoc, List.cons_append]
    exact .illegal hcut hwalk hstuck
  | @unclosed b hwalk => cases b <;> cases hcause

/-- An error over an open block says that the text ends in it. -/
theorem ScanError.Stands.walk_of_unclosed {source : String} {e : ScanError} {before : List Char}
    {b : Block} (h : e.Stands source before) (hcause : e.cause = b.unclosed) :
    Place.top.walk source.toList = some (.inside b) ∧ e.line = 1 + source.toList.count '\n' := by
  cases h with
  | illegal hsplit hwalk hstuck => cases b <;> cases hcause
  | @unclosed d hwalk =>
    obtain rfl : d = b := Block.unclosed_inj.1 hcause
    exact ⟨hwalk, rfl⟩

namespace Token

variable {source : String} {e : ScanError}

theorem scan_append_of_illegal (h : scan source = .error e) (hcause : e.cause = .illegalCharacter)
    (t : String) : scan (source ++ t) = .error e := by
  obtain ⟨before, hstands⟩ := scan_eq_error_iff.1 h
  exact scan_eq_error_iff.2 ⟨before, hstands.append hcause t⟩

/-- The closer of an open block is a token of its own and the last one. -/
theorem exists_scan_append_closer {b : Block} (h : scan source = .error e)
    (hcause : e.cause = b.unclosed) :
    ∃ ts, scan (source ++ b.closer.toString) =
      .ok (ts ++ [⟨b.closerKind, b.closer.toString, e.line⟩, .endOfInput e.line]) := by
  obtain ⟨before, hstands⟩ := scan_eq_error_iff.1 h
  obtain ⟨hwalk, hline⟩ := hstands.walk_of_unclosed hcause
  obtain ⟨s, hfeed, hplace, hsline⟩ := Scanner.feed_of_walk (s := .start) hwalk
  obtain ⟨hspells, hpass⟩ := Place.passes_of_delimits (.closer b)
  have hkind : s.word ≠ "" → b.closerKind ≠ s.place.wordKind := by
    intro _
    rw [hplace]
    exact (Place.Delimits.closer b).kind_ne.2
  rw [← hplace] at hpass
  obtain ⟨t, hcloser, htplace, htline, htokens, -⟩ := Scanner.feed_lexeme hspells hpass hkind
  have hline : s.line = e.line := hsline.trans hline.symm
  refine ⟨s.flush.tokens.toList, ?_⟩
  rw [scan_eq_complete, String.toList_append, Scanner.complete_append_of_feed hfeed,
    Scanner.complete, hcloser]
  refine Scanner.finish_eq_ok_iff.2 ⟨htplace, ?_⟩
  rw [htokens, htline, hline, List.append_assoc]
  rfl

/-- A text is the front of one that can be scanned unless it has an illegal character. -/
theorem exists_scan_append_iff :
    (∃ t ts, scan (source ++ t) = .ok ts) ↔
      ∀ e, scan source = .error e → e.cause ≠ .illegalCharacter := by
  constructor
  · rintro ⟨t, ts, hts⟩ e he hcause
    rw [scan_append_of_illegal he hcause] at hts
    cases hts
  · intro hlegal
    rcases scan_cases source with ⟨-, ts, hts⟩ | ⟨b, -, hb⟩ | ⟨-, _, c, _, _, -, -, -, hc⟩
    · exact ⟨"", ts, by rwa [String.append_empty]⟩
    · obtain ⟨ts, hts⟩ := exists_scan_append_closer hb rfl
      exact ⟨_, _, hts⟩
    · exact absurd rfl (hlegal _ hc)

/-- An illegal character stays the error of a text whatever follows; the closer of an open block, put
behind it, completes the text and stands on the line of the error, as does the end of the input; and no
front of a text that can be scanned has an illegal character. -/
theorem scan_outlook (source : String) :
    (∀ e, scan source = .error e → e.cause = .illegalCharacter →
      ∀ t, scan (source ++ t) = .error e) ∧
    (∀ e, scan source = .error e → e.cause = .unclosedDependencyList →
      ∃ ts, scan (source ++ ")") = .ok (ts ++ [⟨.rightParen, ")", e.line⟩, .endOfInput e.line])) ∧
    (∀ e, scan source = .error e → e.cause = .unclosedCommandBlock →
      ∃ ts, scan (source ++ "\x7d") =
        .ok (ts ++ [⟨.rightBrace, "\x7d", e.line⟩, .endOfInput e.line])) ∧
    (∀ ts, scan source = .ok ts → ∀ u v, source = u ++ v →
      ∀ e, scan u = .error e → e.cause ≠ .illegalCharacter) ∧
    ((∃ t ts, scan (source ++ t) = .ok ts) ↔
      ∀ e, scan source = .error e → e.cause ≠ .illegalCharacter) := by
  refine ⟨fun e => scan_append_of_illegal, fun e he hcause => ?_, fun e he hcause => ?_, ?_,
    exists_scan_append_iff⟩
  · exact exists_scan_append_closer (b := .dependencies) he hcause
  · exact exists_scan_append_closer (b := .commands) he hcause
  · rintro ts hts u v rfl
    exact exists_scan_append_iff.1 ⟨v, ts, hts⟩

theorem scan_outlook_of_open_list :
    (scan "a\n(b,\n" = .error (.unclosed .unclosedDependencyList 3) ∧
      ∃ ts, scan ("a\n(b,\n" ++ ")") = .ok (ts ++ [⟨.rightParen, ")", 3⟩, .endOfInput 3])) ∧
    (scan "a \x7bb\n(" = .error (.illegal '(' 2) ∧
      scan ("a \x7bb\n(" ++ ";\x7d") = .error (.illegal '(' 2)) ∧
    (scan "a \x7bb" = .error (.unclosed .unclosedCommandBlock 1) ∧
      ∃ ts, scan ("a \x7bb" ++ "\x7d") = .ok (ts ++ [⟨.rightBrace, "\x7d", 1⟩, .endOfInput 1])) ∧
    (scan "a" = .ok [⟨.directiveName, "a", 1⟩, .endOfInput 1] ∧
      ∀ e, scan "a" = .error e → e.cause ≠ .illegalCharacter) := by
  have hlist : scan "a\n(b,\n" = .error (.unclosed .unclosedDependencyList 3) := by decide +kernel
  have hillegal : scan "a \x7bb\n(" = .error (.illegal '(' 2) := by decide +kernel
  have hblock : scan "a \x7bb" = .error (.unclosed .unclosedCommandBlock 1) := by decide +kernel
  have hok : scan "a" = .ok [⟨.directiveName, "a", 1⟩, .endOfInput 1] := by decide +kernel
  refine ⟨⟨hlist, (scan_outlook _).2.1 _ hlist rfl⟩,
    ⟨hillegal, (scan_outlook _).1 _ hillegal rfl _⟩,
    ⟨hblock, (scan_outlook _).2.2.1 _ hblock rfl⟩, hok, ?_⟩
  exact (scan_outlook "a").2.2.2.1 _ hok "a" "" rfl

end Token

end BuildTool
