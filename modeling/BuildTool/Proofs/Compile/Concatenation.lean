import BuildTool.Proofs.Compile.FirstError
import BuildTool.Proofs.Program.Continuation
/-!
# Compiling one text behind another

Of two texts joined by a line feed the second is compiled by itself, unless the first is stopped by a
stray bracket or breaks off behind a name (`Compile.value_parse_append_line`). An error in the characters
of the second text leaves no program at all.
-/

namespace BuildTool

open Program (Stanza Peeled)

def CompileError.shift (k : Nat) : CompileError → CompileError
  | scan e => scan (e.shift k)
  | parse e => parse (e.shift k)

/-- What was compiled behind directives that take up `k` lines. -/
def Compiled.after (c : Compiled) (ds : List Directive) (k : Nat) : Compiled :=
  ⟨⟨ds ++ c.program.directives⟩, c.error.map (.shift k)⟩

theorem Compiled.ofParsed_after (p : Program.Parsed) (ds : List Directive) (k : Nat) :
    ofParsed (p.after ds k) = (ofParsed p).after ds k := by
  rw [ofParsed, ofParsed, Compiled.after, Program.Parsed.after, Option.map_map, Option.map_map]
  rfl

namespace Compile

variable {s t : String} {ts us : List Token}

/-- Without an error the tokens of a text are blocks, names and the end of the input. -/
theorem exists_stanzas_of_parse (hscan : Token.scan s = .ok ts)
    (h : (parse s).value.error = none) :
    ∃ (blocks : List Stanza) (trailing : List Token) (line : Nat),
      ts = blocks.flatMap Stanza.tokens ++ trailing ++ [.endOfInput line] ∧
      (∀ t ∈ trailing, t.isName) ∧
      (parse s).value.program = ⟨blocks.map Stanza.directive⟩ := by
  have hok : (program s).value = .ok (parse s).value.program := by
    rw [value_program_eq_ok_iff_parse, ← h]
  obtain ⟨l, blocks, trailing, hchars, htokens, htrailing, hp⟩ := exists_layout_of_program hok
  have hleads : Token.Leads .top l.tokens .top := by
    rw [htokens]
    exact Token.leads_stanzas_append htrailing
  have hl := Token.scan_eq_ok_iff.2 ⟨l, hchars, hleads, rfl⟩
  rw [htokens] at hl
  exact ⟨blocks, trailing, _, Except.ok.inj (hscan.symm.trans hl), htrailing, hp⟩

theorem value_parse_append_of_error {e : ScanError} (hs : Token.scan s = .ok ts)
    (ht : Token.scan t = .error e) :
    (parse (s ++ "\n" ++ t)).value =
      ⟨.empty, some (.scan (e.shift (s.toList.count '\n' + 1)))⟩ := by
  obtain ⟨l, -, -, hts⟩ := Token.scan_eq_ok_iff.1 hs
  rw [hts] at hs
  apply value_parse_of_error
  rw [Token.scan_append_line hs, ht]
  rfl

/-- A text that is stopped by a bracket is stopped there whatever follows. -/
theorem value_parse_append_of_bracket {e : CompileError} (hs : Token.scan s = .ok ts)
    (ht : Token.scan t = .ok us) (he : (parse s).value.error = some e) :
    (parse (s ++ "\n" ++ t)).value = (parse s).value := by
  obtain ⟨l, -, -, hts⟩ := Token.scan_eq_ok_iff.1 hs
  rw [hts] at hs
  have hjoined := Token.scan_append_line (t := t) hs
  rw [ht] at hjoined
  rw [value_parse_of_ok hs] at he
  obtain ⟨d, hd, rfl⟩ := Option.map_eq_some_iff.1 he
  have hparse : (parse s).value = ⟨(parse s).value.program, some (.parse d)⟩ := by
    rw [value_parse_of_ok hs, ← he]
  obtain ⟨-, before, c, after, hhalts, -⟩ := exists_halts_of_parse hparse
  -- A text that can be scanned has no block left open, so only a bracket can be in the way.
  have hfound : d.found ≠ .endOfInput := by
    rcases hhalts.stray.kind_eq with hkind | hkind <;> simp [hkind]
  rw [value_parse_of_ok hjoined, value_parse_of_ok hs,
    Program.ofTokens_append_of_found hd hfound]

/-- Behind blocks alone a text is compiled by itself. -/
theorem value_parse_append_of_blocks (hs : Token.scan s = .ok ts) (ht : Token.scan t = .ok us)
    (he : (parse s).value.error = none)
    (hlast : ∀ x ∈ ts.dropLast.getLast?, x.kind ≠ .directiveName) :
    (parse (s ++ "\n" ++ t)).value =
      (parse t).value.after (parse s).value.program.directives (s.toList.count '\n' + 1) := by
  obtain ⟨blocks, trailing, line, rfl, htrailing, hp⟩ := exists_stanzas_of_parse hs he
  have hnil : trailing = [] := by
    rcases List.eq_nil_or_concat trailing with hnil | ⟨names, name, rfl⟩
    · exact hnil
    · have hname : name.isName := htrailing name (by simp)
      refine absurd (of_decide_eq_true hname) (hlast name ?_)
      simp
  rw [hnil, List.append_nil] at hs
  have hjoined := Token.scan_append_line (t := t) hs
  rw [ht] at hjoined
  have hus : us ≠ [] := by
    obtain ⟨l, -, -, hl⟩ := Token.scan_eq_ok_iff.1 ht
    simp [hl]
  rw [value_parse_of_ok hjoined, value_parse_of_ok ht, hp,
    Program.ofTokens_stanzas_append blocks _ hus, Compiled.ofParsed_after]

/-- Behind a text that can be scanned, and a line feed, an error in the characters of another text leaves
no program. If that can be scanned too, an error of the first text is the error of both; otherwise, and
if no name is left at the end of the first, the second is compiled by itself, its lines counted from the
first line of the other. -/
theorem value_parse_append_line (h : Token.scan s = .ok ts) (t : String) :
    (∀ e, Token.scan t = .error e → (parse (s ++ "\n" ++ t)).value =
      ⟨.empty, some (.scan (e.shift (s.toList.count '\n' + 1)))⟩) ∧
    (∀ us e, Token.scan t = .ok us → (parse s).value.error = some e →
      (parse (s ++ "\n" ++ t)).value = (parse s).value) ∧
    (∀ us, Token.scan t = .ok us → (parse s).value.error = none →
      (∀ x ∈ ts.dropLast.getLast?, x.kind ≠ .directiveName) →
      (parse (s ++ "\n" ++ t)).value =
        ⟨⟨(parse s).value.program.directives ++ (parse t).value.program.directives⟩,
          (parse t).value.error.map (.shift (s.toList.count '\n' + 1))⟩) := by
  refine ⟨fun e ht => value_parse_append_of_error h ht, fun us e ht he => ?_, ?_⟩
  · exact value_parse_append_of_bracket h ht he
  · intro us ht he hlast
    exact value_parse_append_of_blocks h ht he hlast

theorem value_parse_append_line_of_block :
    (parse ("a{b;}" ++ "\n" ++ "?")).value = ⟨.empty, some (.scan (.illegal '?' 2))⟩ ∧
    (parse ("a{b;}()" ++ "\n" ++ "c{d;}")).value = (parse "a{b;}()").value ∧
    (parse ("a{b;}" ++ "\n" ++ "c{d;}()")).value =
      ⟨⟨[⟨"a", [⟨["b"]⟩]⟩, ⟨"c", [⟨["d"]⟩]⟩]⟩, some (.parse ⟨2, .leftParen, [.directiveName]⟩)⟩ := by
  have hblock : Token.scan "a{b;}" = .ok [⟨.directiveName, "a", 1⟩, ⟨.leftBrace, "\x7b", 1⟩,
      ⟨.commandPart, "b", 1⟩, ⟨.semicolon, ";", 1⟩, ⟨.rightBrace, "\x7d", 1⟩, .endOfInput 1] := by
    decide +kernel
  have hbracket : Token.scan "a{b;}()" = .ok [⟨.directiveName, "a", 1⟩, ⟨.leftBrace, "\x7b", 1⟩,
      ⟨.commandPart, "b", 1⟩, ⟨.semicolon, ";", 1⟩, ⟨.rightBrace, "\x7d", 1⟩,
      ⟨.leftParen, "(", 1⟩, ⟨.rightParen, ")", 1⟩, .endOfInput 1] := by
    decide +kernel
  have hsecond : Token.scan "c{d;}" = .ok [⟨.directiveName, "c", 1⟩, ⟨.leftBrace, "\x7b", 1⟩,
      ⟨.commandPart, "d", 1⟩, ⟨.semicolon, ";", 1⟩, ⟨.rightBrace, "\x7d", 1⟩, .endOfInput 1] := by
    decide +kernel
  have hboth : Token.scan "c{d;}()" = .ok [⟨.directiveName, "c", 1⟩, ⟨.leftBrace, "\x7b", 1⟩,
      ⟨.commandPart, "d", 1⟩, ⟨.semicolon, ";", 1⟩, ⟨.rightBrace, "\x7d", 1⟩,
      ⟨.leftParen, "(", 1⟩, ⟨.rightParen, ")", 1⟩, .endOfInput 1] := by
    decide +kernel
  refine ⟨?_, ?_, ?_⟩
  · exact ((value_parse_append_line hblock "?").1 (.illegal '?' 1) (by decide +kernel)).trans
      (by decide +kernel)
  · exact (value_parse_append_line hbracket "c{d;}").2.1 _
      (.parse ⟨1, .leftParen, [.directiveName]⟩) hsecond (by decide +kernel)
  · exact ((value_parse_append_line hblock "c{d;}()").2.2 _ hboth (by decide +kernel)
      (by decide)).trans (by decide +kernel)

end Compile

end BuildTool
