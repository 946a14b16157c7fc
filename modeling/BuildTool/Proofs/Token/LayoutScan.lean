import BuildTool.Proofs.Token.Layout
import BuildTool.Proofs.Token.Verdict
/-!
# Scanning reads layouts

Scanning the text of a layout gives the tokens of the layout (`Scanner.feed_cells`), and every text that
can be scanned has a layout with the tokens scanned (`Scanner.exists_lays_of_feed`). Together they say
what the tokens of a text are (`Token.scan_eq_ok_iff`).
-/

namespace BuildTool

open Alphabet

namespace Scanner

/-! ## The pending word -/

theorem flush_of_word_eq {s : Scanner} (h : s.word = "") : s.flush = s := by
  rw [flush, if_pos h]

theorem toList_flush_of_word_ne {s : Scanner} (h : s.word ≠ "") :
    s.flush.tokens.toList = s.tokens.toList ++ [⟨s.place.wordKind, s.word, s.line⟩] := by
  rw [flush, if_neg h, Array.toList_push]

@[simp] theorem emit_word (s : Scanner) (k : Token.Kind) (c : Char) (q : Place) :
    (s.emit k c q).word = s.word := rfl

theorem finish_eq_ok_iff {s : Scanner} {ts : List Token} :
    s.finish = .ok ts ↔
      s.place = .top ∧ ts = s.flush.tokens.toList ++ [.endOfInput s.line] := by
  cases hplace : s.place with
  | top =>
    simp only [finish, hplace, Array.toList_push, Except.ok.injEq, true_and]
    exact eq_comm
  | inside b => simp [finish, hplace]

/-! ## From layouts to tokens -/

theorem feed_word {s : Scanner} {w : List Char} (h : ∀ c ∈ w, s.place.wordChar c = true) :
    s.feed w = .ok { s with word := s.word ++ String.ofList w } := by
  induction w generalizing s with
  | nil => simp
  | cons c w ih =>
    have hc : s.place.wordChar c = true := h c (List.mem_cons_self ..)
    have hw := ih (s := { s with word := s.word.push c })
      fun d hd => h d (List.mem_cons_of_mem _ hd)
    rw [feed_cons, step_of_wordChar hc]
    change feed { s with word := s.word.push c } w = _
    rw [hw, String.push_eq_append, String.append_assoc, ← String.ofList_cons]

/-- White space ends the pending word. -/
theorem feed_gap {s : Scanner} {gap : List Char} (h : ∀ c ∈ gap, isSpace c = true)
    (hne : gap ≠ []) :
    s.feed gap = .ok { s.flush with line := s.line + gap.count '\n' } := by
  induction gap generalizing s with
  | nil => exact absurd rfl hne
  | cons c gap ih =>
    have hc : isSpace c = true := h c (List.mem_cons_self ..)
    have hgap : ∀ d ∈ gap, isSpace d = true := fun d hd => h d (List.mem_cons_of_mem _ hd)
    rw [feed_cons, step_of_isSpace hc]
    change feed { s.flush with line := s.line + [c].count '\n' } gap = _
    by_cases hnil : gap = []
    · rw [hnil]
      rfl
    · have hcount : (c :: gap).count '\n' = [c].count '\n' + gap.count '\n' := by
        rw [← List.count_append, List.singleton_append]
      rw [ih hgap hnil, flush_of_word_eq (by simp), hcount, Nat.add_assoc]

/-- A lexeme that may stand at a place becomes a token, at once or as the pending word. -/
theorem feed_lexeme {s : Scanner} {k : Token.Kind} {w : String} {q : Place}
    (hw : k.Spells w) (hpass : s.place.Passes k w q)
    (hpending : s.word ≠ "" → k ≠ s.place.wordKind) :
    ∃ t, s.feed w.toList = .ok t ∧ t.place = q ∧ t.line = s.line ∧
      t.flush.tokens.toList = s.flush.tokens.toList ++ [⟨k, w, s.line⟩] ∧
      (t.word ≠ "" → k = t.place.wordKind) := by
  rcases hpass.word_or_delimiter hw with ⟨hk, hq, hne, hchars⟩ | ⟨c, hc, hdelim⟩
  · have hword : s.word = "" := by
      by_contra hpend
      exact hpending hpend hk
    refine ⟨{ s with word := w }, ?_, hq.symm, rfl, ?_, fun _ => hk⟩
    · rw [feed_word hchars, hword]
      simp
    · rw [toList_flush_of_word_ne hne, flush_of_word_eq hword, hk]
  · refine ⟨s.flush.emit k c q, ?_, rfl, flush_line s, ?_, fun h => ?_⟩
    · rw [hc, Char.toString_eq_singleton, String.toList_singleton, feed_cons,
        step_of_delimits hdelim]
      rfl
    · rw [flush_of_word_eq (by simp [emit]), emit, Array.toList_push, flush_line, hc]
    · exact absurd (flush_word s) h

/-- A cell is read as its token. Only a word without white space behind it stays pending. -/
theorem feed_cell {s : Scanner} {cell : Layout.Cell} {before : List Char} {q : Place}
    (hpass : s.place.Passes cell.kind cell.lexeme q)
    (hpending : s.word ≠ "" → cell.kind ≠ s.place.wordKind)
    (hline : s.line = 1 + before.count '\n') :
    ∃ t, s.feed cell.chars = .ok t ∧ t.place = q ∧
      t.line = 1 + (before ++ cell.chars).count '\n' ∧
      t.flush.tokens.toList =
        s.flush.tokens.toList ++ [⟨cell.kind, cell.lexeme, 1 + before.count '\n'⟩] ∧
      (t.word ≠ "" → cell.gap = [] ∧ cell.kind = t.place.wordKind) := by
  obtain ⟨u, hfeed, hplace, huline, htokens, hkind⟩ := feed_lexeme cell.spells hpass hpending
  have hcount : (before ++ cell.chars).count '\n' = before.count '\n' + cell.gap.count '\n' := by
    rw [List.count_append, Layout.Cell.chars, List.count_append, cell.spells.count_lineFeed,
      Nat.zero_add]
  rw [Layout.Cell.chars, feed_append, hfeed]
  by_cases hgap : cell.gap = []
  · refine ⟨u, by rw [hgap]; rfl, hplace, ?_, ?_, fun hu => ⟨hgap, hkind hu⟩⟩
    · rw [← Layout.Cell.chars, hcount, huline, hline, hgap]
      rfl
    · rw [htokens, hline]
  · refine ⟨_, feed_gap cell.gap_space hgap, ?_, ?_, ?_, fun hu => ?_⟩
    · rw [← hplace]
      exact flush_place u
    · rw [← Layout.Cell.chars, hcount, huline, hline, Nat.add_assoc]
    · rw [flush_of_word_eq (by simp), ← hline]
      exact htokens
    · exact absurd (flush_word u) hu

/-- Reading the cells of a layout gives their tokens. -/
theorem feed_cells {cells : List Layout.Cell} {s : Scanner} {before : List Char} {q : Place}
    (hapart : cells.IsChain Layout.Cell.Apart)
    (hleads : Token.Leads s.place (Layout.Cell.tokensAfter before cells) q)
    (hpending : s.word ≠ "" → ∀ cell ∈ cells.head?, cell.kind ≠ s.place.wordKind)
    (hline : s.line = 1 + before.count '\n') :
    ∃ t, s.feed (cells.flatMap Layout.Cell.chars) = .ok t ∧ t.place = q ∧
      t.flush.tokens.toList =
        s.flush.tokens.toList ++ Layout.Cell.tokensAfter before cells := by
  induction cells generalizing s before with
  | nil =>
    cases hleads
    exact ⟨s, rfl, rfl, (List.append_nil _).symm⟩
  | cons cell cells ih =>
    obtain ⟨hnext, hapart⟩ := List.isChain_cons.1 hapart
    cases hleads with
    | cons hpass hleads =>
      obtain ⟨u, hfeed, hplace, huline, htokens, hword⟩ :=
        feed_cell hpass (fun hs => hpending hs cell rfl) hline
      rw [← hplace] at hleads
      have hnextKind : u.word ≠ "" → ∀ d ∈ cells.head?, d.kind ≠ u.place.wordKind := by
        intro hu d hd hkind
        obtain ⟨hgap, hcell⟩ := hword hu
        exact hnext d hd (hcell.trans hkind.symm) (hcell ▸ u.place.wordKind_eq) hgap
      obtain ⟨t, hrest, htplace, httokens⟩ := ih hapart hleads hnextKind huline
      refine ⟨t, ?_, htplace, ?_⟩
      · rw [List.flatMap_cons, feed_append, hfeed]
        exact hrest
      · rw [httokens, htokens, List.append_assoc]
        rfl

/-- Between two words white space only counts line feeds. -/
theorem feed_space {s : Scanner} {gap : List Char} (h : ∀ c ∈ gap, isSpace c = true)
    (hword : s.word = "") : s.feed gap = .ok { s with line := s.line + gap.count '\n' } := by
  by_cases hgap : gap = []
  · rw [hgap]
    rfl
  · rw [feed_gap h hgap, flush_of_word_eq hword]

/-- Reading a layout from between two words gives its tokens. -/
theorem feed_layout (s : Scanner) (l : Layout) (before : List Char) {q : Place}
    (hleads : Token.Leads s.place (l.tokensAfter before) q) (hword : s.word = "")
    (hline : s.line = 1 + before.count '\n') :
    ∃ t, s.feed l.chars = .ok t ∧ t.place = q ∧
      t.flush.tokens.toList = s.tokens.toList ++ l.tokensAfter before := by
  let u : Scanner := { s with line := s.line + l.lead.count '\n' }
  have huline : u.line = 1 + (before ++ l.lead).count '\n' := by
    rw [List.count_append, ← Nat.add_assoc, ← hline]
  obtain ⟨t, hfeed, hplace, htokens⟩ :=
    feed_cells (s := u) l.apart hleads (fun hne => absurd hword hne) huline
  refine ⟨t, ?_, hplace, ?_⟩
  · rw [Layout.chars, feed_append, feed_space l.lead_space hword]
    exact hfeed
  · rw [htokens, flush_of_word_eq (s := u) hword]
    rfl

/-! ## From texts to layouts -/

/-- The text before the pending word, and a pending word of characters of the place. -/
structure Behind (s : Scanner) (before : List Char) : Prop where
  line : s.line = 1 + before.count '\n'
  word : ∀ c ∈ s.word.toList, s.place.wordChar c = true

/-- A layout of the pending word and of a text the scanner reads on its way to `t`. -/
structure Lays (s t : Scanner) (before cs : List Char) (l : Layout) : Prop where
  chars : l.chars = s.word.toList ++ cs
  leads : Token.Leads s.place (l.tokensAfter before) t.place
  tokens : t.flush.tokens.toList = s.tokens.toList ++ l.tokensAfter before

section

variable {s t : Scanner} {before cs : List Char} {c : Char} {k : Token.Kind} {q : Place}

theorem Behind.count_word (h : s.Behind before) : s.word.toList.count '\n' = 0 := by
  rw [List.count_eq_zero]
  intro hmem
  exact ne_lineFeed (Place.isSpace_of_wordChar (h.word _ hmem)) rfl

theorem Behind.space (h : s.Behind before) :
    Behind { s.flush with line := s.line + [c].count '\n' } (before ++ s.word.toList ++ [c]) where
  line := by
    simp only [List.count_append, h.count_word, h.line]
    omega
  word := by simp

theorem Behind.push (h : s.Behind before) (hc : s.place.wordChar c = true) :
    Behind { s with word := s.word.push c } before where
  line := h.line
  word := by
    intro d hd
    rw [String.toList_push, List.mem_append, List.mem_singleton] at hd
    rcases hd with hd | rfl
    · exact h.word d hd
    · exact hc

theorem Behind.emit (h : s.Behind before) (hc : s.place.Delimits c k q) :
    (s.flush.emit k c q).Behind (before ++ s.word.toList ++ c.toString.toList) where
  line := by
    have hlexeme := (Place.passes_of_delimits hc).1.count_lineFeed
    simp only [Scanner.emit, flush_line, List.count_append, h.count_word, hlexeme, h.line]
    omega
  word := by simp

/-- The pending word becomes the first lexeme of a layout of what follows, if no word follows at
once. -/
theorem exists_layout_of_flush {l : Layout} (h : s.Behind before)
    (hends : l.lead ≠ [] ∨ ∀ d ∈ l.cells.head?, d.kind ≠ s.place.wordKind)
    (hleads : Token.Leads s.place (l.tokensAfter (before ++ s.word.toList)) q) :
    ∃ m : Layout, m.chars = s.word.toList ++ l.chars ∧
      Token.Leads s.place (m.tokensAfter before) q ∧
      s.tokens.toList ++ m.tokensAfter before =
        s.flush.tokens.toList ++ l.tokensAfter (before ++ s.word.toList) := by
  by_cases hword : s.word = ""
  · rw [hword, String.toList_empty, List.append_nil] at hleads ⊢
    exact ⟨l, rfl, hleads, by rw [flush_of_word_eq hword]⟩
  · obtain ⟨hspells, hpass⟩ := Place.passes_of_wordChar hword h.word
    have hapart : ∀ d ∈ l.cells.head?, s.place.wordKind = d.kind →
        s.place.wordKind = .directiveName ∨ s.place.wordKind = .commandPart → l.lead ≠ [] := by
      intro d hd hkind _
      rcases hends with hlead | hends
      · exact hlead
      · exact absurd hkind.symm (hends d hd)
    refine ⟨l.cons s.place.wordKind s.word hspells hapart, by simp, ?_, ?_⟩
    · rw [Layout.tokensAfter_cons]
      exact .cons hpass hleads
    · rw [Layout.tokensAfter_cons, toList_flush_of_word_ne hword, h.line, List.append_assoc]
      rfl

theorem exists_lays_nil (h : s.Behind before) : ∃ l, s.Lays s before [] l := by
  obtain ⟨l, hchars, hleads, htokens⟩ :=
    exists_layout_of_flush (l := .empty) h (.inr (by simp [Layout.empty])) (.nil s.place)
  rw [Layout.tokensAfter_empty, List.append_nil] at htokens
  exact ⟨l, hchars, hleads, htokens.symm⟩

theorem exists_lays_space {l : Layout} (h : s.Behind before) (hc : isSpace c = true)
    (hl : Lays { s.flush with line := s.line + [c].count '\n' } t
      (before ++ s.word.toList ++ [c]) cs l) :
    ∃ m, s.Lays t before (c :: cs) m := by
  have hleads := hl.leads
  have htokens := hl.tokens
  rw [← l.tokensAfter_indent hc] at hleads htokens
  rw [flush_place] at hleads
  obtain ⟨m, hmchars, hmleads, hmtokens⟩ :=
    exists_layout_of_flush h (.inl (List.cons_ne_nil c l.lead)) hleads
  refine ⟨m, ?_, hmleads, htokens.trans hmtokens.symm⟩
  rw [hmchars, Layout.chars_indent, hl.chars, flush_word, String.toList_empty, List.nil_append]

theorem exists_lays_push {l : Layout} (hl : Lays { s with word := s.word.push c } t before cs l) :
    ∃ m, s.Lays t before (c :: cs) m := by
  refine ⟨l, ?_, hl.leads, hl.tokens⟩
  rw [hl.chars, String.toList_push, List.append_assoc]
  rfl

theorem exists_lays_emit {l : Layout} (h : s.Behind before) (hc : s.place.Delimits c k q)
    (hl : Lays (s.flush.emit k c q) t (before ++ s.word.toList ++ c.toString.toList) cs l) :
    ∃ m, s.Lays t before (c :: cs) m := by
  obtain ⟨hspells, hpass⟩ := Place.passes_of_delimits hc
  have hkind : ¬ (k = .directiveName ∨ k = .commandPart) := not_or.2 hc.kind_ne
  let d : Layout := l.cons k c.toString hspells fun _ _ _ hk => absurd hk hkind
  have hdtokens : d.tokensAfter (before ++ s.word.toList) =
      ⟨k, c.toString, s.line⟩ :: l.tokensAfter (before ++ s.word.toList ++ c.toString.toList) := by
    rw [Layout.tokensAfter_cons, List.count_append, h.count_word, h.line]
    rfl
  have hdleads : Token.Leads s.place (d.tokensAfter (before ++ s.word.toList)) t.place := by
    rw [hdtokens]
    exact .cons hpass hl.leads
  have hends : ∀ e ∈ d.cells.head?, e.kind ≠ s.place.wordKind := by
    intro e he hek
    obtain rfl : _ = e := Option.some.inj he
    have hword : k = s.place.wordKind := hek
    rw [hword] at hkind
    exact hkind s.place.wordKind_eq
  obtain ⟨m, hmchars, hmleads, hmtokens⟩ := exists_layout_of_flush h (.inr hends) hdleads
  refine ⟨m, ?_, hmleads, ?_⟩
  · rw [hmchars, Layout.chars_cons, hl.chars, emit_word, flush_word, Char.toString_eq_singleton,
      String.toList_singleton]
    rfl
  · rw [hmtokens, hdtokens, hl.tokens, emit, Array.toList_push, flush_line, List.append_assoc]
    rfl

/-- What a scanner reads has a layout, whose tokens it adds to those it had. -/
theorem exists_lays_of_feed (hfeed : s.feed cs = .ok t) (h : s.Behind before) :
    ∃ l, s.Lays t before cs l := by
  -- The pending word belongs to the layout: a step moves text from it into the text before.
  induction cs generalizing s before with
  | nil =>
    obtain rfl : s = t := Except.ok.inj hfeed
    exact exists_lays_nil h
  | cons c cs ih =>
    obtain ⟨u, hstep, hrest⟩ := exists_of_feed_cons hfeed
    rcases step_cases hstep with ⟨hc, rfl⟩ | ⟨hc, rfl⟩ | ⟨k, q, hc, rfl⟩
    · obtain ⟨l, hl⟩ := ih hrest h.space
      exact exists_lays_space h hc hl
    · obtain ⟨l, hl⟩ := ih hrest (h.push hc)
      exact exists_lays_push hl
    · obtain ⟨l, hl⟩ := ih hrest (h.emit hc)
      exact exists_lays_emit h hc hl

/-- What is read from the start has a layout of its own. -/
theorem exists_layout_of_feed (hfeed : start.feed cs = .ok t) :
    ∃ l : Layout, l.chars = cs ∧ Token.Leads .top l.tokens t.place ∧
      t.flush.tokens.toList = l.tokens := by
  have hstart : start.Behind [] := ⟨rfl, by simp [start]⟩
  obtain ⟨l, hl⟩ := exists_lays_of_feed hfeed hstart
  exact ⟨l, hl.chars, hl.leads, hl.tokens⟩

end

end Scanner

namespace Token

/-- The tokens of a text are the tokens of its layouts, the places leading from top to top. -/
theorem scan_eq_ok_iff {source : String} {ts : List Token} :
    scan source = .ok ts ↔
      ∃ l : Layout, l.chars = source.toList ∧ Leads .top l.tokens .top ∧
        ts = l.tokens ++ [.endOfInput (1 + source.toList.count '\n')] := by
  constructor
  · intro h
    obtain ⟨t, hfeed, hfinish⟩ := Scanner.exists_of_complete h
    obtain ⟨hplace, hts⟩ := Scanner.finish_eq_ok_iff.1 hfinish
    obtain ⟨-, hline⟩ := Scanner.walk_of_feed hfeed
    obtain ⟨l, hchars, hleads, htokens⟩ := Scanner.exists_layout_of_feed hfeed
    rw [hplace] at hleads
    refine ⟨l, hchars, hleads, ?_⟩
    rw [hts, htokens, hline]
    rfl
  · intro h
    obtain ⟨l, hchars, hleads, rfl⟩ := h
    obtain ⟨t, hfeed, hplace, htokens⟩ := Scanner.feed_layout .start l [] hleads rfl rfl
    rw [hchars] at hfeed
    obtain ⟨-, hline⟩ := Scanner.walk_of_feed hfeed
    rw [scan, hfeed]
    refine Scanner.finish_eq_ok_iff.2 ⟨hplace, ?_⟩
    rw [htokens, hline]
    rfl

end Token

end BuildTool
