import BuildTool.Proofs.Yaml.Line
/-!
# The tokens of lines

A line has three lexemes: the key, which is a candidate at first, the colon, which confirms it, and
the value (`Layout.run_key`, `Layout.run_colon`, `Layout.comesTo_of_value`). From the start of one line
a run comes to the start of the next with the tokens of the first (`Layout.comesTo_of_line`), and over
lines to the tokens of all of them. Main result: `Layout.run_start`.
-/

namespace BuildTool.Yaml

/-! ## Cursors -/

namespace Cursor

theorem advance_zero (c : Cursor) : c.advance 0 = c := by
  unfold advance
  rfl

theorem advance_of_isPrintable {c : Char} (hc : isPrintable c = true)
    (n : Nat) (r : List Char) (line column octets : Nat) :
    advance (n + 1) ⟨c :: r, line, column, octets⟩ =
      advance n ⟨r, line, column + 1, octets + 1⟩ := by
  rw [advance, isBreak_of_isPrintable hc, utf8Size_of_isPrintable hc]
  rfl

theorem advance_append {cs : List Char} (h : ∀ c ∈ cs, isPrintable c = true) (n : Nat)
    (r : List Char) (line column octets : Nat) :
    advance (cs.length + n) ⟨cs ++ r, line, column, octets⟩ =
      advance n ⟨r, line, column + cs.length, octets + cs.length⟩ := by
  induction cs generalizing column octets with
  | nil => simp
  | cons c cs ih =>
    have hlength : (c :: cs).length + n = cs.length + n + 1 := by
      rw [List.length_cons]
      omega
    have hcolumn : ∀ k, k + 1 + cs.length = k + (c :: cs).length := by
      intro k
      rw [List.length_cons]
      omega
    rw [hlength, List.cons_append, advance_of_isPrintable (h c List.mem_cons_self),
      ih fun d hd => h d (List.mem_cons_of_mem c hd), hcolumn, hcolumn]

/-- Over a lexeme on one line. -/
theorem advance_lexeme {c : Char} {w : List Char} (h : ∀ d ∈ c :: w, isPrintable d = true)
    (r : List Char) (line column octets : Nat) :
    advance ((w ++ r).length - r.length + 1) ⟨c :: (w ++ r), line, column, octets⟩ =
      ⟨r, line, column + (c :: w).length, octets + (c :: w).length⟩ := by
  have hlength : (w ++ r).length - r.length + 1 = (c :: w).length + 0 := by
    rw [List.length_append, Nat.add_sub_cancel, List.length_cons, Nat.add_zero]
  rw [hlength, ← List.cons_append, advance_append h, advance_zero]

/-- The break at the end of a line. -/
theorem advance_break (r : List Char) (line column octets : Nat) :
    advance 1 ⟨'\n' :: r, line, column, octets⟩ = ⟨r, line + 1, 0, 0⟩ := by
  have hbreak : isBreak '\n' = true := rfl
  rw [advance, hbreak, if_pos rfl, advance_zero]

/-- Over the last lexeme of a line and the end of the line. -/
theorem advance_line {c : Char} {w : List Char} (h : ∀ d ∈ c :: w, isPrintable d = true)
    (r : List Char) (line column octets : Nat) :
    advance ((w ++ '\n' :: r).length - r.length + 1) ⟨c :: (w ++ '\n' :: r), line, column, octets⟩ =
      ⟨r, line + 1, 0, 0⟩ := by
  have hlength : (w ++ '\n' :: r).length - r.length + 1 = (c :: w).length + 1 := by
    simp only [List.length_append, List.length_cons]
    omega
  rw [hlength, ← List.cons_append, advance_append h, advance_break]

theorem moveTo_self (c : Cursor) : c.moveTo c.rest = c := by
  rw [moveTo, Nat.sub_self, advance_zero]

/-- Where it stands between two lexemes. -/
def spot (c : Cursor) : Layout.Spot :=
  if c.column = 0 then .lineStart else .inLine

theorem spot_ne_comment (c : Cursor) : c.spot ≠ .comment := by
  unfold spot
  split <;> decide

end Cursor

/-! ## One lexeme of a run -/

namespace Layout

theorem run_of_end {l : Layout} {keyAllowed : Bool}
    (hskip : skipSpace l.inFlow l.cursor.spot l.keyAllowed l.cursor.rest = (keyAllowed, [])) :
    l.run = l.arrive keyAllowed (l.cursor.moveTo []) >>= finish := by
  have hrest : (l.cursor.moveTo []).rest = [] := by
    rw [← List.length_eq_zero_iff, Cursor.moveTo, Cursor.length_rest_advance]
    simp
  have hspot : skipSpace l.inFlow (if l.cursor.column = 0 then .lineStart else .inLine)
      l.keyAllowed l.cursor.rest = (keyAllowed, []) := hskip
  rw [run]
  simp only [hspot]
  split
  · rfl
  · rename_i hcons
    rw [hspot, hrest] at hcons
    cases hcons

/-- One lexeme, from the end of the one before it. -/
theorem run_of_lexeme {l standing next : Layout} {keyAllowed : Bool} {c : Char} {r rest : List Char}
    {line column octets : Nat} {lexeme : Lexeme}
    (hskip : skipSpace l.inFlow l.cursor.spot l.keyAllowed l.cursor.rest = (keyAllowed, c :: r))
    (hcursor : l.cursor.moveTo (c :: r) = ⟨c :: r, line, column, octets⟩)
    (harrive : l.arrive keyAllowed ⟨c :: r, line, column, octets⟩ = .ok standing)
    (hread : Lexeme.read ⟨standing.inFlow, standing.indent, column⟩ c r = .ok (lexeme, rest))
    (haccept : standing.accept lexeme = .ok next) :
    l.run = run { next with
      cursor := Cursor.advance (r.length - rest.length + 1) ⟨c :: r, line, column, octets⟩ } := by
  have hspot : skipSpace l.inFlow (if l.cursor.column = 0 then .lineStart else .inLine)
      l.keyAllowed l.cursor.rest = (keyAllowed, c :: r) := hskip
  rw [run]
  simp only [hspot]
  split
  · rename_i hnil
    rw [hspot, hcursor] at hnil
    cases hnil
  · rename_i d s hcons
    rw [hspot, hcursor] at hcons
    obtain ⟨rfl, rfl⟩ := List.cons.inj hcons
    rw [hcursor, harrive]
    simp only [bind, Except.bind, hread, haccept]

theorem skipSpace_of_lexeme {c : Char} {spot : Spot} (hspace : isSpace c = false)
    (hmark : c ≠ byteOrderMark) (hcomment : c ≠ '#') (hspot : spot ≠ .comment)
    (flow keyAllowed : Bool) (r : List Char) :
    skipSpace flow spot keyAllowed (c :: r) = (keyAllowed, c :: r) := by
  simp only [isSpace, isBlank, Bool.or_eq_false_iff, decide_eq_false_iff_not] at hspace
  simp [skipSpace, hspace, hmark, hspot, hcomment]

/-- Outside of flow collections: on the first line no block is open, and later one at the margin. -/
def block (first : Bool) (cursor : Cursor) (ts : List Token) (candidate : Option Candidate)
    (keyAllowed : Bool) : Layout :=
  ⟨cursor, ts.toArray, if first then [] else [0], candidate, [], keyAllowed⟩

section

variable {keyAllowed allowed : Bool} {cursor old : Cursor} {ts : List Token}
  {candidate : Option Candidate} {c : Char} {w r rest : List Char} {line column octets : Nat}
  {lexeme : Lexeme} {next : Layout}

theorem arrive_block {first : Bool} (h : refresh cursor candidate = .ok candidate) :
    (block first old ts candidate allowed).arrive keyAllowed cursor =
      .ok (block first cursor ts candidate keyAllowed) := by
  cases first <;>
    simp [block, arrive, h, bind, Except.bind, pure, Except.pure, unroll, inFlow, closeBlocks]

theorem run_block (first : Bool)
    (hskip : skipSpace false old.spot allowed old.rest = (keyAllowed, c :: r))
    (hcursor : old.moveTo (c :: r) = ⟨c :: r, line, column, octets⟩)
    (hcandidate : refresh ⟨c :: r, line, column, octets⟩ candidate = .ok candidate)
    (hread : Lexeme.read ⟨false, if first then none else some 0, column⟩ c r = .ok (lexeme, rest))
    (haccept : (block first ⟨c :: r, line, column, octets⟩ ts candidate keyAllowed).accept lexeme =
      .ok next) :
    (block first old ts candidate allowed).run = run { next with
      cursor := Cursor.advance (r.length - rest.length + 1) ⟨c :: r, line, column, octets⟩ } :=
  run_of_lexeme hskip hcursor (arrive_block hcandidate) (by cases first <;> exact hread) haccept

end

/-! ## The lexemes of a line -/

/-- At the start of a line, at the break in front of it, or at the end of the text. -/
structure AtLine (cursor : Cursor) (keyAllowed : Bool) (cs : List Char) : Prop where
  skip : ∃ allowed, skipSpace false cursor.spot keyAllowed cursor.rest = (allowed, cs) ∧
    (cs ≠ [] → allowed = true)
  start : cs ≠ [] → ∃ line, cursor.moveTo cs = ⟨cs, line, 0, 0⟩

/-- The run comes to a line with these tokens. -/
def ComesTo (l : Layout) (ts : List Token) (cs : List Char) : Prop :=
  ∃ cursor keyAllowed, AtLine cursor keyAllowed cs ∧
    l.run = (block false cursor ts none keyAllowed).run

variable {first keyAllowed : Bool} {cursor : Cursor} {ts : List Token} {w r tail : List Char}
  {line column octets : Nat}

/-- The word in front of a colon may turn out to be a key. -/
theorem run_key (first : Bool) (ts : List Token)
    (h : AtLine cursor keyAllowed (w ++ ':' :: ' ' :: r)) (hne : w ≠ [])
    (hw : ∀ c ∈ w, isKeyChar c = true) :
    ∃ line required, (block first cursor ts none keyAllowed).run =
      (block first ⟨':' :: ' ' :: r, line, w.length, w.length⟩
        (ts ++ [.scalar .plain (String.ofList w)]) (some ⟨required, ts.length, line, 0, 0⟩)
        false).run := by
  obtain ⟨⟨allowed, hskip, hallowed⟩, hcursor⟩ := h
  obtain ⟨c, v, rfl⟩ := List.exists_cons_of_ne_nil hne
  obtain rfl := hallowed (by simp)
  obtain ⟨line, hline⟩ := hcursor (by simp)
  refine ⟨line, !first, ?_⟩
  rw [run_block first hskip hline rfl (Lexeme.read_key hw ..) rfl]
  have hprintable : ∀ d ∈ c :: v, isPrintable d = true :=
    fun d hd => isPrintable_of_isKeyChar (hw d hd)
  have hadvance := Cursor.advance_lexeme hprintable (':' :: ' ' :: r) line 0 0
  simp only [Nat.zero_add] at hadvance
  rw [List.append_eq, hadvance]
  cases first <;> simp [block, emit, allowKey, inFlow, indent]

/-- What a confirmed key puts in front of its value. -/
def confirmed (first : Bool) (w : List Char) : List Token :=
  (if first then [.blockMappingStart] else []) ++
    [.key, .scalar .plain (String.ofList w), .value]

theorem run_colon {required : Bool} (hw : w.length ≤ keyLimit) :
    (block first ⟨':' :: ' ' :: r, line, w.length, w.length⟩
        (ts ++ [.scalar .plain (String.ofList w)]) (some ⟨required, ts.length, line, 0, 0⟩)
        false).run =
      (block false ⟨' ' :: r, line, w.length + 1, w.length + 1⟩ (ts ++ confirmed first w) none
        false).run := by
  have hskip : skipSpace false (⟨':' :: ' ' :: r, line, w.length, w.length⟩ : Cursor).spot false
      (':' :: ' ' :: r) = (false, ':' :: ' ' :: r) :=
    skipSpace_of_lexeme rfl (by decide) (by decide) (Cursor.spot_ne_comment _) ..
  have hcandidate : refresh ⟨':' :: ' ' :: r, line, w.length, w.length⟩
      (some ⟨required, ts.length, line, 0, 0⟩) =
      .ok (some ⟨required, ts.length, line, 0, 0⟩) := by
    simp [refresh, Candidate.isStale, Nat.not_lt.2 hw]
  rw [run_block first hskip (Cursor.moveTo_self _) hcandidate (Lexeme.read_colon ..) rfl]
  have hadvance : Cursor.advance ((' ' :: r).length - (' ' :: r).length + 1)
      ⟨':' :: ' ' :: r, line, w.length, w.length⟩ =
      ⟨' ' :: r, line, w.length + 1, w.length + 1⟩ := by
    exact Cursor.advance_lexeme (w := []) (by simp [isPrintable]) ..
  rw [hadvance]
  congr 1
  cases first <;>
    simp [block, confirm, opensBlock, inFlow, indent, insertTokens, allowKey, emit, confirmed]

theorem run_scalar {c : Char} {rest : List Char} {style : ScalarStyle} {text : String}
    {endsLine : Bool} (hspace : isSpace c = false) (hmark : c ≠ byteOrderMark)
    (hcomment : c ≠ '#') (hstyle : ¬ (style = .literal ∨ style = .folded))
    (hread : Lexeme.read ⟨false, some 0, column + 1⟩ c r =
      .ok (.scalar style text endsLine, rest)) :
    (block false ⟨' ' :: c :: r, line, column, octets⟩ ts none false).run =
      (block false (Cursor.advance (r.length - rest.length + 1)
        ⟨c :: r, line, column + 1, octets + 1⟩) (ts ++ [.scalar style text]) none endsLine).run := by
  have hskip : skipSpace false (⟨' ' :: c :: r, line, column, octets⟩ : Cursor).spot false
      (' ' :: c :: r) = (false, c :: r) := by
    have hinLine : Spot.inLine ≠ .comment := by decide
    have hfirst : isBreak ' ' = false := rfl
    rw [skipSpace, hfirst, if_neg (by decide), if_neg (Cursor.spot_ne_comment _)]
    simp [byteOrderMark, skipSpace_of_lexeme hspace hmark hcomment hinLine]
  have hcursor : (⟨' ' :: c :: r, line, column, octets⟩ : Cursor).moveTo (c :: r) =
      ⟨c :: r, line, column + 1, octets + 1⟩ := by
    have hlength : (' ' :: c :: r).length - (c :: r).length = 0 + 1 := by
      simp
    rw [Cursor.moveTo, hlength, Cursor.advance_of_isPrintable rfl, Cursor.advance_zero]
  have haccept : (block false ⟨c :: r, line, column + 1, octets + 1⟩ ts none false).accept
      (.scalar style text endsLine) =
      .ok (block false ⟨c :: r, line, column + 1, octets + 1⟩ (ts ++ [.scalar style text]) none
        endsLine) := by
    simp [accept, hstyle, propose, block, bind, Except.bind, pure, Except.pure, allowKey, emit]
  have hcandidate : refresh ⟨c :: r, line, column + 1, octets + 1⟩ none = .ok none := rfl
  rw [run_block false hskip hcursor hcandidate hread haccept]
  rfl

theorem skipSpace_lineStart (h : ∀ c ∈ r.head?, isKeyChar c = true) (keyAllowed : Bool) :
    skipSpace false .lineStart keyAllowed r = (keyAllowed, r) := by
  cases r with
  | nil => rfl
  | cons c r =>
    have hc := h c rfl
    exact skipSpace_of_lexeme (isSpace_of_isKeyChar hc) (ne_of_isKeyChar hc (by decide))
      (ne_of_isKeyChar hc rfl) (by decide) ..

theorem moveTo_next_line (r : List Char) (line column octets : Nat) :
    (⟨'\n' :: r, line, column, octets⟩ : Cursor).moveTo r = ⟨r, line + 1, 0, 0⟩ := by
  have hlength : ('\n' :: r).length - r.length = 1 := by
    simp
  rw [Cursor.moveTo, hlength, Cursor.advance_break]

/-- Behind the last lexeme of a line, if that one has not taken its end. -/
theorem atLine_of_lineEnd (h : LineEnd tail r) (hcolumn : column ≠ 0) (line octets : Nat) :
    AtLine ⟨tail, line, column, octets⟩ false r := by
  have hspot : (⟨tail, line, column, octets⟩ : Cursor).spot = .inLine := if_neg hcolumn
  cases h with
  | text => exact ⟨⟨false, by simp [skipSpace], by simp⟩, by simp⟩
  | line hr =>
    refine ⟨⟨true, ?_, fun _ => rfl⟩, fun _ => ⟨line + 1, moveTo_next_line ..⟩⟩
    rw [hspot, ← skipSpace_lineStart hr]
    rfl

theorem atLine_start (h : ∀ c ∈ r.head?, isKeyChar c = true) (line : Nat) :
    AtLine ⟨r, line, 0, 0⟩ true r :=
  ⟨⟨true, skipSpace_lineStart h true, fun _ => rfl⟩, fun _ => ⟨line, Cursor.moveTo_self _⟩⟩

/-- A scalar that leaves the end of its line. -/
theorem comesTo_of_scalar {c : Char} {style : ScalarStyle} {text : String} (h : LineEnd tail r)
    (hw : ∀ d ∈ c :: w, isPrintable d = true)
    (hspace : isSpace c = false) (hcomment : c ≠ '#')
    (hstyle : ¬ (style = .literal ∨ style = .folded))
    (hread : Lexeme.read ⟨false, some 0, column + 1⟩ c (w ++ tail) =
      .ok (.scalar style text false, tail)) :
    (block false ⟨' ' :: (c :: w ++ tail), line, column, octets⟩ ts none false).ComesTo
      (ts ++ [.scalar style text]) r := by
  have hmark : c ≠ byteOrderMark := by
    rintro rfl
    exact absurd (hw byteOrderMark List.mem_cons_self) (by decide)
  refine ⟨⟨tail, line, column + 1 + (c :: w).length, octets + 1 + (c :: w).length⟩, false,
    atLine_of_lineEnd h (by omega) .., ?_⟩
  rw [List.cons_append, run_scalar hspace hmark hcomment hstyle hread, Cursor.advance_lexeme hw]

theorem comesTo_of_quoted {cs : List Char} (h : LineEnd tail r)
    (hcs : ∀ c ∈ cs, isPrintable c = true) :
    (block false ⟨' ' :: (Spelling.quoted cs ++ tail), line, column, octets⟩ ts none
      false).ComesTo (ts ++ [.scalar .singleQuoted (String.ofList cs)]) r := by
  have htail : tail.head? ≠ some '\x27' := by
    cases h <;> simp
  refine comesTo_of_scalar h (isPrintable_of_mem_quoted hcs) rfl (by decide) (by decide) ?_
  rw [List.append_eq, List.append_assoc]
  exact Lexeme.read_quoted hcs htail ..

theorem comesTo_of_word (h : LineEnd tail r) (hne : w ≠ [])
    (hw : ∀ c ∈ w, isKeyChar c = true) :
    (block false ⟨' ' :: (w ++ tail), line, column, octets⟩ ts none false).ComesTo
      (ts ++ [.scalar .plain (String.ofList w)]) r := by
  obtain ⟨c, v, rfl⟩ := List.exists_cons_of_ne_nil hne
  have hc : isKeyChar c = true := hw c List.mem_cons_self
  have hprintable : ∀ d ∈ c :: v, isPrintable d = true :=
    fun d hd => isPrintable_of_isKeyChar (hw d hd)
  have hspace : isSpace c = false := isSpace_of_isKeyChar hc
  have hcomment : c ≠ '#' := ne_of_isKeyChar hc rfl
  cases h with
  | text =>
    refine comesTo_of_scalar .text hprintable hspace hcomment (by decide) ?_
    rw [Lexeme.read_of_isKeyChar hc, Lexeme.readPlain, List.append_nil,
      PlainScalar.read_last_word hw]
    rfl
  | line hr =>
    -- A plain scalar takes the end of its line with it.
    have hindent : 0 < ((some 0).map (· + 1)).getD 0 := Nat.zero_lt_one
    have hread : Lexeme.read ⟨false, some 0, column + 1⟩ c (v ++ '\n' :: r) =
        .ok (.scalar .plain (String.ofList (c :: v)) true, r) := by
      rw [Lexeme.read_of_isKeyChar hc, Lexeme.readPlain, ← List.cons_append,
        PlainScalar.read_line_end hw hindent _ hr]
      rfl
    refine ⟨⟨r, line + 1, 0, 0⟩, true, atLine_start hr _, ?_⟩
    have hmark : c ≠ byteOrderMark := ne_of_isKeyChar hc (by decide)
    rw [List.cons_append, run_scalar hspace hmark hcomment (by decide) hread,
      Cursor.advance_line hprintable]

/-- A value with the end of its line. -/
theorem comesTo_of_value {v : LineValue} (h : LineEnd tail r) (hv : v.Proper) :
    (block false ⟨' ' :: (v.chars ++ tail), line, column, octets⟩ ts none false).ComesTo
      (ts ++ [.scalar v.style v.text]) r := by
  cases v with
  | quoted cs => exact comesTo_of_quoted h hv
  | word w => exact comesTo_of_word h hv.1 hv.2

/-! ## A run over lines -/

/-- One line: in front of the first one the mapping starts. -/
theorem comesTo_of_line (first : Bool) (ts : List Token) {l : Line} (hl : l.Proper)
    (hcursor : AtLine cursor keyAllowed (l.chars ++ tail)) (htail : LineEnd tail r) :
    (block first cursor ts none keyAllowed).ComesTo
      (ts ++ (if first then [.blockMappingStart] else []) ++ l.tokens) r := by
  rw [Line.chars, List.append_assoc, List.cons_append, List.cons_append] at hcursor
  obtain ⟨line, required, hkey⟩ := run_key first ts hcursor hl.key_ne_nil hl.isKeyChar
  have htokens : ts ++ confirmed first l.key ++ [.scalar l.value.style l.value.text] =
      ts ++ (if first then [.blockMappingStart] else []) ++ l.tokens := by
    simp [confirmed, Line.tokens]
  rw [ComesTo, hkey, run_colon hl.key_length, ← htokens]
  exact comesTo_of_value htail hl.value

theorem run_end (h : AtLine cursor keyAllowed []) :
    (block false cursor ts none keyAllowed).run = .ok (ts ++ [.blockEnd]) := by
  obtain ⟨⟨allowed, hskip, -⟩, -⟩ := h
  rw [run_of_end (l := block false cursor ts none keyAllowed) hskip, arrive_block rfl]
  simp [block, finish, leaveContent, unroll, inFlow, closeBlocks, dropCandidate, allowKey, bind,
    Except.bind, pure, Except.pure]

theorem lineEnd_tail {ending : List Char} (hending : ending = [] ∨ ending = ['\n'])
    {ls : List Line} (hls : ∀ l ∈ ls, l.Proper) :
    LineEnd (Line.tail ending ls) (Line.tail ending ls).tail := by
  cases ls with
  | nil =>
    obtain rfl | rfl := hending
    · exact .text
    · exact .line (by simp)
  | cons l ls =>
    exact .line ((hls l List.mem_cons_self).head?_chars _)

theorem run_of_comesTo {ending : List Char} (hending : ending = [] ∨ ending = ['\n'])
    {ls : List Line} (hls : ∀ l ∈ ls, l.Proper) {l : Layout}
    (h : l.ComesTo ts (Line.tail ending ls).tail) :
    l.run = .ok (ts ++ ls.flatMap Line.tokens ++ [.blockEnd]) := by
  induction ls generalizing l ts with
  | nil =>
    have hend : (Line.tail ending []).tail = [] := by
      obtain rfl | rfl := hending <;> rfl
    obtain ⟨cursor, keyAllowed, hcursor, hrun⟩ := h
    rw [hend] at hcursor
    rw [hrun, run_end hcursor, List.flatMap_nil, List.append_nil]
  | cons k ls ih =>
    obtain ⟨cursor, keyAllowed, hcursor, hrun⟩ := h
    have hls' : ∀ l ∈ ls, l.Proper := fun l hl => hls l (List.mem_cons_of_mem k hl)
    have hnext := comesTo_of_line false ts (hls k List.mem_cons_self) hcursor
      (lineEnd_tail hending hls')
    rw [hrun, ih hls' hnext]
    simp

theorem run_start {ending : List Char} (hending : ending = [] ∨ ending = ['\n']) {l : Line}
    {ls : List Line} (hls : ∀ k ∈ l :: ls, k.Proper) :
    (start (l.chars ++ Line.tail ending ls)).run =
      .ok (.blockMappingStart :: ((l :: ls).flatMap Line.tokens ++ [.blockEnd])) := by
  have hl : l.Proper := hls l List.mem_cons_self
  have hls' : ∀ k ∈ ls, k.Proper := fun k hk => hls k (List.mem_cons_of_mem l hk)
  have hcursor := atLine_start (hl.head?_chars (Line.tail ending ls)) 0
  have hnext := comesTo_of_line true [] hl hcursor (lineEnd_tail hending hls')
  change (block true (Cursor.start _) [] none true).run = _
  rw [Cursor.start, run_of_comesTo hending hls' hnext]
  simp

end Layout

end BuildTool.Yaml
