import BuildTool.Yaml.Spelling
import BuildTool.Proofs.Text.Characters
/-!
# Scalars told apart

Scalars that are written plainly or in quotes, and in quotes if they start with one, can be told apart
(`Unambiguous.eq_of_eq`). What is written for a word of a build file stays on one line
(`Unambiguous.lineFeed_not_mem`).
-/

namespace BuildTool.Yaml.Spelling

open Alphabet

/-! ## Quotes -/

theorem doubleQuote_append_inj {c d : Char} {cs ds : List Char}
    (h : doubleQuote c ++ cs = doubleQuote d ++ ds) : c = d ∧ cs = ds := by
  have hhead : ∀ c, (doubleQuote c).head? = some c := by
    intro c
    unfold doubleQuote
    split <;> rfl
  have hcd : c = d := by
    have hfirst := congrArg List.head? h
    rw [List.head?_append, List.head?_append, hhead, hhead] at hfirst
    exact Option.some.inj hfirst
  subst hcd
  exact ⟨rfl, List.append_cancel_left h⟩

theorem flatMap_doubleQuote_inj {cs ds : List Char}
    (h : cs.flatMap doubleQuote = ds.flatMap doubleQuote) : cs = ds := by
  have hne : ∀ c, doubleQuote c ≠ [] := by
    intro c
    unfold doubleQuote
    split <;> simp
  induction cs generalizing ds with
  | nil =>
    cases ds with
    | nil => rfl
    | cons d ds => simp [hne] at h
  | cons c cs ih =>
    cases ds with
    | nil => simp [hne] at h
    | cons d ds =>
      rw [List.flatMap_cons, List.flatMap_cons] at h
      obtain ⟨rfl, htail⟩ := doubleQuote_append_inj h
      rw [ih htail]

theorem quoted_inj {cs ds : List Char} (h : quoted cs = quoted ds) : cs = ds :=
  flatMap_doubleQuote_inj (List.append_cancel_right (List.cons.inj h).2)

theorem mem_of_mem_quoted {c : Char} {cs : List Char} (h : c ∈ quoted cs) (hc : c ≠ '\x27') :
    c ∈ cs := by
  simp only [quoted, List.cons_append, List.mem_cons, List.mem_append, List.mem_flatMap, hc,
    List.not_mem_nil, or_false, false_or] at h
  obtain ⟨d, hd, hmem⟩ := h
  have hcd : c = d := by
    unfold doubleQuote at hmem
    split at hmem <;> simpa using hmem
  rwa [hcd]

/-! ## Ways to write words -/

/-- Each word is written plainly or in quotes, and in quotes at least if it starts with one. -/
structure Unambiguous (spell : String → String) : Prop where
  plain_or_quoted : ∀ w, (∀ c ∈ w.toList, isPart c = true) →
    spell w = w ∨ spell w = String.ofList (quoted w.toList)
  quoted_of_quote : ∀ w, (∀ c ∈ w.toList, isPart c = true) → w.toList.head? = some '\x27' →
    spell w = String.ofList (quoted w.toList)

namespace Unambiguous

variable {spell : String → String} {v w : String}

/-- The word is not written plainly if that could be another one in quotes. -/
theorem eq_of_eq_quoted (h : Unambiguous spell) (hv : ∀ c ∈ v.toList, isPart c = true)
    (hplain : spell v = v) (hquoted : spell v = String.ofList (quoted w.toList)) : v = w := by
  have hv' : v.toList = quoted w.toList := by
    rw [← hplain, hquoted, String.toList_ofList]
  have hspell : spell v = String.ofList (quoted v.toList) :=
    h.quoted_of_quote v hv (by rw [hv']; rfl)
  rw [hquoted] at hspell
  exact (String.toList_inj.1 (quoted_inj (String.ofList_injective hspell))).symm

theorem eq_of_eq (h : Unambiguous spell) (hv : ∀ c ∈ v.toList, isPart c = true)
    (hw : ∀ c ∈ w.toList, isPart c = true) (hvw : spell v = spell w) : v = w := by
  rcases h.plain_or_quoted v hv with hplain | hquoted <;>
    rcases h.plain_or_quoted w hw with hplain' | hquoted'
  · rw [← hplain, hvw, hplain']
  · exact h.eq_of_eq_quoted hv hplain (hvw.trans hquoted')
  · exact (h.eq_of_eq_quoted hw hplain' (hvw.symm.trans hquoted)).symm
  · rw [hquoted, hquoted'] at hvw
    exact String.toList_inj.1 (quoted_inj (String.ofList_injective hvw))

theorem lineFeed_not_mem (h : Unambiguous spell) (hw : ∀ c ∈ w.toList, isPart c = true) :
    '\n' ∉ (spell w).toList := by
  have hword : '\n' ∉ w.toList := fun hmem => absurd (hw _ hmem) (by decide)
  rcases h.plain_or_quoted w hw with hplain | hquoted
  · rwa [hplain]
  · rw [hquoted, String.toList_ofList]
    exact fun hmem => hword (mem_of_mem_quoted hmem (by decide))

end Unambiguous

theorem unambiguous_write : Unambiguous write where
  plain_or_quoted w _ := by
    unfold write
    split
    · exact .inl rfl
    · exact .inr rfl
  quoted_of_quote w _ hquote := by
    obtain ⟨cs, hw⟩ := List.head?_eq_some_iff.1 hquote
    have hindicator : indicators.contains '\x27' = true := by decide
    have hplain : isPlain w.toList = false := by
      simp only [hw, isPlain, hindicator, Bool.not_true, Bool.false_and]
    simp only [write, hplain, Bool.false_and, Bool.false_eq_true, if_false]

end BuildTool.Yaml.Spelling
