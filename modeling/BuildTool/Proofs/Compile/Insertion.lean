import BuildTool.Proofs.Compile.Concatenation
import BuildTool.Proofs.Token.Insertion
/-!
# White space in a build file

White space that cuts no word leaves the program as it is and moves an error that stands behind it, be it
an error of the scanner or of the reader (`Compile.value_parse_insert`).
-/

namespace BuildTool

open Alphabet

/-- Where what is wrong with a text stands: behind which of its characters. -/
inductive CompileError.Stands (source : String) : CompileError → List Char → Prop
  | scan {e : ScanError} {before : List Char} (h : e.Stands source before) :
      Stands source (.scan e) before
  | bracket {ts : List Token} {before after : String} {c : Char} {p : Program} {k : Token.Kind}
      (hscan : Token.scan source = .ok ts) (h : Compile.Halts source before c after p k) :
      Stands source (.parse ⟨1 + before.toList.count '\n', k, [.directiveName]⟩) before.toList

theorem Alphabet.lastVisible_insert {u w v : List Char} (hw : ∀ c ∈ w, isSpace c = true) :
    lastVisible (u ++ w ++ v) = lastVisible (u ++ v) := by
  have hnone : w.filter (!isSpace ·) = [] := by
    apply List.filter_eq_nil_iff.2
    intro c hc
    simp [hw c hc]
  unfold lastVisible
  rw [List.filter_append, List.filter_append, hnone, List.append_nil, List.filter_append]

namespace Compile

variable {source u w v : String} {p : Program} {e : CompileError}

theorem exists_stands (h : (parse source).value.error = some e) :
    ∃ before, e.Stands source before := by
  cases hscan : Token.scan source with
  | error d =>
    rw [value_parse_of_error hscan] at h
    obtain rfl := Option.some.inj h
    obtain ⟨before, hbefore⟩ := Token.scan_eq_error_iff.1 hscan
    exact ⟨before, .scan hbefore⟩
  | ok ts =>
    rw [value_parse_of_ok hscan] at h
    obtain ⟨d, hd, rfl⟩ := Option.map_eq_some_iff.1 h
    have hparse : (parse source).value = ⟨(parse source).value.program, some (.parse d)⟩ := by
      rw [value_parse_of_ok hscan, ← h]
    obtain ⟨-, before, c, after, hhalts, hline, hexpected⟩ := exists_halts_of_parse hparse
    obtain ⟨line, found, expected⟩ := d
    obtain rfl : line = _ := hline
    obtain rfl : expected = _ := hexpected
    exact ⟨_, .bracket hscan hhalts⟩

/-- White space that cuts no word does not matter to the program. -/
theorem value_program_insert (hw : ∀ c ∈ w.toList, isSpace c = true)
    (hseam : Seam u.toList v.toList) :
    (parse (u ++ w ++ v)).value.program = (parse (u ++ v)).value.program ∧
    ((parse (u ++ v)).value.error = none → (parse (u ++ w ++ v)).value.error = none) := by
  cases hscan : Token.scan (u ++ v) with
  | error e =>
    obtain ⟨before, hbefore⟩ := Token.scan_eq_error_iff.1 hscan
    have hmoved := Token.scan_eq_error_iff.2 (hbefore.insert hw)
    rw [value_parse_of_error hscan, value_parse_of_error hmoved]
    simp
  | ok ts =>
    obtain ⟨front, back, rfl, hback, -, hinserted⟩ := Token.scan_insert hw hseam hscan
    rw [value_parse_of_ok hscan, value_parse_of_ok hinserted]
    rcases Program.ofTokens_append_shift front (w.toList.count '\n') hback with heq | heq
    · rw [heq]
      exact ⟨rfl, id⟩
    · rw [heq]
      simp [Compiled.ofParsed, Program.Parsed.after]

/-- White space before the bracket moves it, and none behind it does. -/
theorem Halts.insert {before after : String} {c : Char} {k : Token.Kind}
    (hw : ∀ c ∈ w.toList, isSpace c = true) (hseam : Seam u.toList v.toList)
    (h : Halts (u ++ v) before c after p k) :
    ∃ front back, Halts (u ++ w ++ v) front c back p k ∧
      front.toList.count '\n' = before.toList.count '\n' +
        if before.toList.length < u.toList.length then 0 else w.toList.count '\n' := by
  have hsplit : u.toList ++ v.toList = before.toList ++ c :: after.toList := by
    rw [← String.toList_append, h.split]
    simp
  rcases append_eq_cut hsplit with ⟨mid, hu, -⟩ | ⟨mid, hbefore, hv⟩
  · have hfront : before.toList.length < u.toList.length := by
      rw [hu]
      simp
    rw [if_pos hfront]
    refine ⟨before, String.ofList (mid ++ w.toList ++ v.toList), ⟨?_, h.compiles, h.stray⟩, rfl⟩
    apply String.toList_inj.1
    simp [hu]
  · obtain rfl : before = u ++ String.ofList mid := by
      apply String.toList_inj.1
      simp [hbefore]
    have hcut : Seam u.toList (String.ofList mid).toList := by
      rw [hv] at hseam
      rw [String.toList_ofList]
      exact hseam.of_append
    -- What stands before the bracket is cut at the same seam, so it still compiles.
    have hcompiles := value_program_eq_ok_iff_parse.1 h.compiles
    obtain ⟨hprogram, hnone⟩ := value_program_insert hw hcut
    rw [hcompiles] at hprogram hnone
    rw [if_neg (by simp)]
    refine ⟨u ++ w ++ String.ofList mid, after, ⟨?_, ?_, ?_⟩, ?_⟩
    · apply String.toList_inj.1
      simp [hv]
    · have hp : (parse (u ++ w ++ String.ofList mid)).value.program = p := hprogram
      rw [value_program_eq_ok_iff_parse, ← hp, ← hnone rfl]
    · cases h.stray with
      | parenthesis => exact .parenthesis
      | brace hlast =>
        apply Stray.brace
        rw [String.toList_append, String.toList_append, lastVisible_insert hw,
          ← String.toList_append]
        exact hlast
    · simp only [String.toList_append, List.count_append]
      omega

theorem error_insert {before : List Char} (hw : ∀ c ∈ w.toList, isSpace c = true)
    (hseam : Seam u.toList v.toList) (h : e.Stands (u ++ v) before) :
    (parse (u ++ w ++ v)).value.error =
      some (e.shift (if before.length < u.toList.length then 0 else w.toList.count '\n')) := by
  cases h with
  | scan h =>
    rw [value_parse_of_error (Token.scan_eq_error_iff.2 (h.insert hw))]
    rfl
  | bracket hscan h =>
    obtain ⟨front, back, -, -, -, hinserted⟩ := Token.scan_insert hw hseam hscan
    obtain ⟨before, after, hhalts, hline⟩ := h.insert hw hseam
    rw [value_parse_of_halts hinserted hhalts, hline, ← Nat.add_assoc]
    rfl

/-- Where no word is cut, white space changes nothing but the lines of what stands behind it: the tokens,
the program and what is wrong with the text stay the same. A carriage return before a line feed does not
change anything. -/
theorem value_parse_insert {u w v : String} (hw : ∀ c ∈ w.toList, isSpace c = true)
    (hseam : Seam u.toList v.toList) :
    (∀ ts, Token.scan (u ++ v) = .ok ts → ∃ front back, ts = front ++ back ∧ back ≠ [] ∧
      front.flatMap (fun t => t.lexeme.toList) = u.toList.filter (!isSpace ·) ∧
      Token.scan (u ++ w ++ v) = .ok (front ++ back.map (Token.shift (w.toList.count '\n')))) ∧
    (∀ e, Token.scan (u ++ v) = .error e → (∃ before, e.Stands (u ++ v) before) ∧
      ∀ before, e.Stands (u ++ v) before → Token.scan (u ++ w ++ v) = .error
        (e.shift (if before.length < u.toList.length then 0 else w.toList.count '\n'))) ∧
    (parse (u ++ w ++ v)).value.program = (parse (u ++ v)).value.program ∧
    ((parse (u ++ v)).value.error = none → (parse (u ++ w ++ v)).value.error = none) ∧
    (∀ e, (parse (u ++ v)).value.error = some e → (∃ before, e.Stands (u ++ v) before) ∧
      ∀ before, e.Stands (u ++ v) before → (parse (u ++ w ++ v)).value.error = some
        (e.shift (if before.length < u.toList.length then 0 else w.toList.count '\n'))) ∧
    (∀ s t : String, Returns s.toList t.toList → Token.scan t = Token.scan s ∧ parse t = parse s) := by
  obtain ⟨hprogram, hnone⟩ := value_program_insert hw hseam
  refine ⟨fun ts => Token.scan_insert hw hseam, ?_, hprogram, hnone, ?_, ?_⟩
  · intro e he
    refine ⟨Token.scan_eq_error_iff.1 he, ?_⟩
    intro before hbefore
    exact Token.scan_eq_error_iff.2 (hbefore.insert hw)
  · intro e he
    exact ⟨exists_stands he, fun before => error_insert hw hseam⟩
  · intro s t h
    have hscan := Token.scan_of_returns h
    refine ⟨hscan, ?_⟩
    unfold parse tokens
    rw [hscan]

theorem value_parse_insert_line :
    (∃ front back, [⟨.directiveName, "a", 1⟩, ⟨.leftBrace, "\x7b", 1⟩, ⟨.commandPart, "b", 1⟩,
        ⟨.semicolon, ";", 1⟩, ⟨.rightBrace, "\x7d", 1⟩, ⟨.leftParen, "(", 1⟩,
        ⟨.rightParen, ")", 1⟩, .endOfInput 1] = front ++ back ∧ back ≠ [] ∧
      front.flatMap (fun t => t.lexeme.toList) = "a{b;}".toList ∧
      Token.scan ("a{b;}" ++ " \n" ++ "()") = .ok (front ++ back.map (Token.shift 1))) ∧
    (parse ("a{b;}" ++ " \n" ++ "()")).value =
      ⟨⟨[⟨"a", [⟨["b"]⟩]⟩]⟩, some (.parse ⟨2, .leftParen, [.directiveName]⟩)⟩ ∧
    Token.scan ("?" ++ "\n" ++ "\x7b") = .error (.illegal '?' 1) ∧
    (parse ("a" ++ "\n" ++ "{b;}")).value.error = none ∧
    parse "a\r\n{b;}\n" = parse "a\n{b;}\n" := by
  have hspace : ∀ c ∈ " \n".toList, isSpace c = true := List.all_eq_true.1 (by decide +kernel)
  have hfeed : ∀ c ∈ "\n".toList, isSpace c = true := List.all_eq_true.1 (by decide +kernel)
  have hbracket : Token.scan ("a{b;}" ++ "()") = .ok [⟨.directiveName, "a", 1⟩,
      ⟨.leftBrace, "\x7b", 1⟩, ⟨.commandPart, "b", 1⟩, ⟨.semicolon, ";", 1⟩,
      ⟨.rightBrace, "\x7d", 1⟩, ⟨.leftParen, "(", 1⟩, ⟨.rightParen, ")", 1⟩, .endOfInput 1] := by
    decide +kernel
  have hhalts : Halts ("a{b;}" ++ "()") "a{b;}" '(' ")" ⟨[⟨"a", [⟨["b"]⟩]⟩]⟩ .leftParen :=
    ⟨by decide +kernel, by decide +kernel, .parenthesis⟩
  have hstray : CompileError.Stands ("a{b;}" ++ "()") (.parse ⟨1, .leftParen, [.directiveName]⟩)
      "a{b;}".toList :=
    .bracket hbracket hhalts
  have hillegal : ScanError.Stands ("?" ++ "\x7b") (.illegal '?' (1 + [].count '\n')) [] :=
    .illegal rfl rfl rfl
  obtain ⟨htokens, -, hprogram, -, herror, hreturns⟩ :=
    value_parse_insert (u := "a{b;}") (v := "()") hspace (seam_of_head? rfl rfl _)
  obtain ⟨-, hscan, -⟩ :=
    value_parse_insert (u := "?") (v := "\x7b") hfeed (seam_of_head? rfl rfl _)
  obtain ⟨-, -, -, hnone, -⟩ :=
    value_parse_insert (u := "a") (v := "{b;}") hfeed (seam_of_head? rfl rfl _)
  refine ⟨htokens _ hbracket, ?_, ?_, hnone (by decide +kernel), (hreturns _ _ ?_).2⟩
  · have hp : (parse ("a{b;}" ++ "()")).value.program = ⟨[⟨"a", [⟨["b"]⟩]⟩]⟩ := by decide +kernel
    have he := (herror _ (by decide +kernel)).2 _ hstray
    rw [hp] at hprogram
    exact congrArg₂ Compiled.mk hprogram he
  · exact (hscan _ (by decide +kernel)).2 [] hillegal
  · exact .keep 'a' (.convert (.keep '\x7b' (.keep 'b' (.keep ';' (.keep '\x7d' (.keep '\n' .nil))))))

end Compile

end BuildTool
