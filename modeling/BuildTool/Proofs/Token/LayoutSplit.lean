import BuildTool.Proofs.Token.LayoutScan
/-!
# Cutting layouts

A layout can be cut before each of its tokens (`Layout.exists_split`). The visible characters of its
text are those of its tokens, so the last visible character belongs to the last token
(`Layout.lastVisible_of_concat`). When a text is scanned past a delimiter, the tokens before the
delimiter are those of the text before it (`Token.scan_of_delimiter`).
-/

namespace BuildTool

open Alphabet

/-- The last character that is not white space. -/
def Alphabet.lastVisible (cs : List Char) : Option Char :=
  (cs.filter (!isSpace ·)).getLast?

namespace Layout

/-! ## Tokens and visible characters -/

theorem Cell.filter_chars (c : Cell) :
    c.chars.filter (!isSpace ·) = c.lexeme.toList := by
  have hlexeme : c.lexeme.toList.filter (!isSpace ·) = c.lexeme.toList :=
    List.filter_eq_self.2 fun d hd => by simp [c.spells.isSpace_eq_false d hd]
  have hgap : c.gap.filter (!isSpace ·) = [] :=
    List.filter_eq_nil_iff.2 fun d hd => by simp [c.gap_space d hd]
  rw [Cell.chars, List.filter_append, hlexeme, hgap, List.append_nil]

theorem Cell.flatMap_tokensAfter (before : List Char) (cells : List Cell) :
    (Cell.tokensAfter before cells).flatMap (fun t => t.lexeme.toList) =
      (cells.flatMap Cell.chars).filter (!isSpace ·) := by
  induction cells generalizing before with
  | nil => rfl
  | cons c cells ih =>
    rw [Cell.tokensAfter, List.flatMap_cons, List.flatMap_cons, List.filter_append, ih,
      Cell.filter_chars]

theorem flatMap_tokens (l : Layout) :
    l.tokens.flatMap (fun t => t.lexeme.toList) = l.chars.filter (!isSpace ·) := by
  have hlead : l.lead.filter (!isSpace ·) = [] :=
    List.filter_eq_nil_iff.2 fun d hd => by simp [l.lead_space d hd]
  rw [chars, List.filter_append, hlead, List.nil_append]
  exact Cell.flatMap_tokensAfter ..

theorem Cell.spells_of_mem {before : List Char} {cells : List Cell} {t : Token}
    (h : t ∈ Cell.tokensAfter before cells) : t.kind.Spells t.lexeme := by
  induction cells generalizing before with
  | nil => cases h
  | cons c cells ih =>
    rcases List.mem_cons.1 h with ht | ht
    · rw [ht]
      exact c.spells
    · exact ih ht

theorem spells_of_mem {l : Layout} {t : Token} (h : t ∈ l.tokens) : t.kind.Spells t.lexeme :=
  Cell.spells_of_mem h

theorem lastVisible_of_nil {l : Layout} (h : l.tokens = []) : lastVisible l.chars = none := by
  rw [lastVisible, ← flatMap_tokens, h]
  rfl

theorem lastVisible_of_concat {l : Layout} {ts : List Token} {t : Token}
    (h : l.tokens = ts ++ [t]) : lastVisible l.chars = t.lexeme.toList.getLast? := by
  have hspells : t.kind.Spells t.lexeme := spells_of_mem (by rw [h]; simp)
  rw [lastVisible, ← flatMap_tokens, h, List.flatMap_append, List.flatMap_singleton,
    List.getLast?_append_of_ne_nil _ hspells.ne_nil]

/-! ## Cuts -/

theorem Cell.exists_split {before : List Char} {cells : List Cell} {ts us : List Token}
    {x : Token} (h : Cell.tokensAfter before cells = ts ++ x :: us) :
    ∃ front c back, cells = front ++ c :: back ∧ Cell.tokensAfter before front = ts ∧
      x = ⟨c.kind, c.lexeme, 1 + (before ++ front.flatMap Cell.chars).count '\n'⟩ := by
  induction ts generalizing before cells with
  | nil =>
    cases cells with
    | nil => cases h
    | cons c cells =>
      have hx : _ = x := (List.cons.inj h).1
      exact ⟨[], c, cells, rfl, rfl, by rw [← hx]; simp⟩
  | cons t ts ih =>
    cases cells with
    | nil => cases h
    | cons c cells =>
      obtain ⟨ht, htail⟩ := List.cons.inj h
      obtain ⟨front, d, back, hcells, hfront, hx⟩ := ih htail
      refine ⟨c :: front, d, back, by rw [hcells]; rfl, ?_, ?_⟩
      · rw [Cell.tokensAfter, ht, hfront]
      · rw [hx, List.flatMap_cons, List.append_assoc]

/-- The text before a token is laid out as the tokens before it. -/
theorem exists_split {l : Layout} {ts us : List Token} {x : Token}
    (h : l.tokens = ts ++ x :: us) :
    ∃ (front : Layout) (after : List Char), l.chars = front.chars ++ x.lexeme.toList ++ after ∧
      front.tokens = ts ∧ x.line = 1 + front.chars.count '\n' := by
  obtain ⟨cells, c, back, hcells, htokens, hx⟩ := Cell.exists_split h
  have hapart : (cells ++ c :: back).IsChain Cell.Apart := hcells ▸ l.apart
  refine ⟨⟨l.lead, cells, l.lead_space, hapart.left_of_append⟩,
    c.gap ++ back.flatMap Cell.chars, ?_, htokens, ?_⟩
  · rw [hx, chars, chars, hcells]
    simp [Cell.chars]
  · rw [hx]
    rfl

end Layout

/-! ## Scanning past a delimiter -/

/-- Behind a text that is laid out, a delimiter is the next token, on the line the text leads to. -/
theorem Token.scan_of_delimiter {source : String} {l : Layout} {after : List Char} {c : Char}
    {k : Token.Kind} {q : Place} {ts : List Token} (hscan : Token.scan source = .ok ts)
    (hsource : source.toList = l.chars ++ c :: after) (hleads : Token.Leads .top l.tokens .top)
    (hc : Place.top.Delimits c k q) :
    ∃ us line, ts = l.tokens ++ ⟨k, c.toString, 1 + l.chars.count '\n'⟩ :: us ++ [.endOfInput line] ∧
      ∃ r, Token.Leads q us r := by
  obtain ⟨s, hfeed, hplace, htokens⟩ := Scanner.feed_layout .start l [] hleads rfl rfl
  have hline : s.line = 1 + l.chars.count '\n' := (Scanner.walk_of_feed hfeed).2
  rw [← hplace] at hc
  rw [Token.scan_eq_complete, hsource, Scanner.complete_append_of_feed hfeed] at hscan
  obtain ⟨t, hback, hfinish⟩ := Scanner.exists_of_complete hscan
  obtain ⟨u, hstep, hrest⟩ := Scanner.exists_of_feed_cons hback
  obtain rfl : s.flush.emit k c q = u :=
    Except.ok.inj ((Scanner.step_of_delimits hc).symm.trans hstep)
  obtain ⟨-, hts⟩ := Scanner.finish_eq_ok_iff.1 hfinish
  have hbehind : (s.flush.emit k c q).Behind (l.chars ++ [c]) := by
    have hc' : c ≠ '\n' := ne_lineFeed (Place.isSpace_of_delimits hc)
    refine ⟨?_, by simp⟩
    simp only [Scanner.emit, Scanner.flush_line, hline, List.count_append, List.count_singleton]
    simp [hc']
  obtain ⟨m, hm⟩ := Scanner.exists_lays_of_feed hrest hbehind
  refine ⟨m.tokensAfter (l.chars ++ [c]), t.line, ?_, t.place, hm.leads⟩
  rw [hts, hm.tokens, Scanner.emit, Array.toList_push, htokens, Scanner.flush_line, hline]
  simp [Layout.tokens, Scanner.start]

end BuildTool
