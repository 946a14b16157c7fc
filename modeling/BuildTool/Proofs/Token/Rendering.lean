import BuildTool.Proofs.Token.LayoutSplit
import BuildTool.Proofs.Token.Sentence
/-!
# Texts and their tokens

The text of a layout is scanned to the tokens of the layout if and only if these are a sentence
(`Token.scan_text_eq_ok_iff`). Every text that can be scanned is the text of such a layout, so its tokens
account for each of its characters (`Token.exists_accounts_of_scan`).
-/

namespace BuildTool

open Alphabet

namespace Layout

def text (l : Layout) : String :=
  String.ofList l.chars

@[simp] theorem toList_text (l : Layout) : l.text.toList = l.chars :=
  String.toList_ofList

/-! ## Lines -/

theorem Cell.line_bounds {before : List Char} {cells : List Cell} {t : Token}
    (h : t ∈ Cell.tokensAfter before cells) :
    1 + before.count '\n' ≤ t.line ∧
      t.line ≤ 1 + (before ++ cells.flatMap Cell.chars).count '\n' := by
  induction cells generalizing before with
  | nil => cases h
  | cons c cells ih =>
    rw [List.flatMap_cons, ← List.append_assoc]
    rcases List.mem_cons.1 h with rfl | ht
    · simp only [List.count_append]
      omega
    · obtain ⟨hlower, hupper⟩ := ih ht
      rw [List.count_append] at hlower
      exact ⟨by omega, hupper⟩

theorem Cell.pairwise_line (before : List Char) (cells : List Cell) :
    (Cell.tokensAfter before cells).Pairwise fun t u => t.line ≤ u.line := by
  induction cells generalizing before with
  | nil => exact .nil
  | cons c cells ih =>
    refine List.pairwise_cons.2 ⟨fun u hu => ?_, ih _⟩
    have hlower := (Cell.line_bounds hu).1
    rw [List.count_append] at hlower
    dsimp only
    omega

/-- Lines never decrease along the tokens of a layout and on to the end of its text. -/
theorem pairwise_line (l : Layout) :
    (l.tokens ++ [Token.endOfInput (1 + l.chars.count '\n')]).Pairwise
      fun t u => t.line ≤ u.line := by
  refine List.pairwise_append.2 ⟨Cell.pairwise_line _ _, List.pairwise_singleton _ _, ?_⟩
  intro t ht u hu
  rw [List.mem_singleton.1 hu]
  exact (Cell.line_bounds ht).2

end Layout

namespace Token

/-- The text of a layout is scanned to the tokens of the layout, each on its line, and an end of input,
if the tokens are a sentence, and only then. -/
theorem scan_text_eq_ok_iff (l : Layout) :
    scan l.text = .ok (l.tokens ++ [.endOfInput (1 + l.chars.count '\n')]) ↔
      l.tokens ∈ sentences := by
  rw [scan_eq_ok_iff, mem_sentences_iff, Layout.toList_text]
  constructor
  · intro h
    obtain ⟨m, -, hleads, hts⟩ := h
    have htokens : l.tokens = m.tokens := List.append_cancel_right hts
    rw [htokens]
    exact ⟨hleads, fun t => Layout.spells_of_mem⟩
  · intro h
    exact ⟨l, rfl, h.1, rfl⟩

/-! ## What tokens say about their text -/

/-- The tokens of a text as a layout of it shows them. -/
structure Accounts (source : String) (ts : List Token) (l : Layout) : Prop where
  text : l.text = source
  tokens : ts = l.tokens ++ [.endOfInput (1 + source.toList.count '\n')]
  sentence : l.tokens ∈ sentences
  kind_ne : ∀ t ∈ l.tokens, t.kind ≠ .endOfInput
  /-- Before each token stand the lexemes of the earlier ones and white space, and they tell its
  line. -/
  line : ∀ us t vs, l.tokens = us ++ t :: vs → ∃ before after,
    source.toList = before ++ t.lexeme.toList ++ after ∧
      before.filter (!isSpace ·) = us.flatMap (fun u => u.lexeme.toList) ∧
      t.line = 1 + before.count '\n'
  /-- No visible character is lost, and none is made up. -/
  visible : source.toList.filter (!isSpace ·) = ts.flatMap fun t => t.lexeme.toList
  line_le : ts.Pairwise fun t u => t.line ≤ u.line

theorem exists_accounts_of_scan {source : String} {ts : List Token} (h : scan source = .ok ts) :
    ∃ l, Accounts source ts l := by
  obtain ⟨l, hchars, hleads, hts⟩ := scan_eq_ok_iff.1 h
  have hspells : ∀ t ∈ l.tokens, t.kind.Spells t.lexeme := fun t => Layout.spells_of_mem
  refine ⟨l, ?_, hts, mem_sentences_iff.2 ⟨hleads, hspells⟩, ?_, ?_, ?_, ?_⟩
  · rw [← String.toList_inj, Layout.toList_text, hchars]
  · intro t ht hkind
    have hspelled := hspells t ht
    rw [hkind] at hspelled
    exact hspelled
  · intro us t vs hsplit
    obtain ⟨front, after, hcut, hfront, hline⟩ := Layout.exists_split hsplit
    refine ⟨front.chars, after, hchars ▸ hcut, ?_, hline⟩
    rw [← hfront, Layout.flatMap_tokens]
  · rw [hts, List.flatMap_append, Layout.flatMap_tokens, hchars]
    simp [endOfInput]
  · rw [hts, ← hchars]
    exact l.pairwise_line

theorem exists_accounts_of_scan_two_lines :
    ∃ ts, scan "a\n{b c;}" = .ok ts ∧ ∃ l, Accounts "a\n{b c;}" ts l :=
  ⟨[⟨.directiveName, "a", 1⟩, ⟨.leftBrace, "\x7b", 2⟩, ⟨.commandPart, "b", 2⟩,
      ⟨.commandPart, "c", 2⟩, ⟨.semicolon, ";", 2⟩, ⟨.rightBrace, "\x7d", 2⟩, .endOfInput 2],
    by decide +kernel, exists_accounts_of_scan (by decide +kernel)⟩

end Token

end BuildTool
