import BuildTool.Text.Alphabet
/-!
# Characters taken out of a set

Whatever characters are taken out of a set, one after another, what stays is what was in the set and is
none of them (`AsciiSet.contains_eraseAll`), so a set depends on which characters were taken out and on
nothing else about them.

A word may be shifted by less than its width only. The operations on sets are done once more with a
shift that fails from there on (`AsciiSet.oneAt?`); they never fail and come to the same. Main result:
`AsciiSet.eraseAll_faithful`.
-/

namespace BuildTool.AsciiSet

variable {s t : AsciiSet} {cs ds : List Char} {c : Char}

/-! ## Members -/

theorem eraseAll_cons (s : AsciiSet) (c : Char) (cs : List Char) :
    s.eraseAll (c :: cs) = (s.erase c).eraseAll cs := rfl

theorem contains_eraseAll (s : AsciiSet) (cs : List Char) (c : Char) :
    (s.eraseAll cs).contains c = (s.contains c && decide (c ∉ cs)) := by
  induction cs generalizing s with
  | nil => simp [eraseAll]
  | cons d cs ih =>
    rw [eraseAll_cons, ih, contains_erase, Bool.and_assoc]
    congr 1
    by_cases hdc : d = c
    · simp [hdc]
    · have hcd : c ≠ d := fun h => hdc h.symm
      simp [hdc, hcd]

theorem mask_eq_iff : s.mask = t.mask ↔ ∀ c, s.contains c = t.contains c := by
  constructor
  · intro h c
    rw [contains_eq_getLsbD, contains_eq_getLsbD, h]
  · intro h
    exact congrArg mask (ext_contains h)

theorem eraseAll_congr (s : AsciiSet) (h : ∀ c, c ∈ cs ↔ c ∈ ds) :
    s.eraseAll cs = s.eraseAll ds := by
  refine ext_contains fun c => ?_
  simp only [contains_eraseAll, h c]

theorem contains_of_not_ascii (s : AsciiSet) (hc : 128 ≤ c.toNat) : s.contains c = false := by
  rw [Bool.eq_false_iff]
  intro hmem
  have hlt := toNat_lt_of_contains hmem
  omega

theorem erase_of_not_ascii (s : AsciiSet) (hc : 128 ≤ c.toNat) : s.erase c = s := by
  have hnone : index? c = none := by
    rw [index?, dif_neg (by omega)]
  rw [erase, hnone]

/-! ## Shifts within the width of a word -/

/-- One bit at a place, by a shift that fails from the width of the word on. -/
def oneAt? (n : Nat) : Option (BitVec 128) :=
  if n < 128 then some (1#128 <<< n) else none

/-- The bits of characters put together, without a look at their codes. -/
def shiftAll? (cs : List Char) : Option AsciiSet :=
  cs.foldlM (fun s c => (oneAt? c.toNat).map fun b => ⟨s.mask ||| b⟩) empty

def shiftErase? (s : AsciiSet) (c : Char) : Option AsciiSet :=
  if c.toNat < 128 then (oneAt? c.toNat).map fun b => ⟨s.mask &&& ~~~b⟩ else some s

def shiftContains? (s : AsciiSet) (c : Char) : Option Bool :=
  if c.toNat < 128 then (oneAt? c.toNat).map fun b => s.mask &&& b != 0#128 else some false

theorem shiftErase?_eq (s : AsciiSet) (c : Char) : shiftErase? s c = some (s.erase c) := by
  unfold shiftErase? erase index?
  by_cases hc : c.toNat < 128
  · simp [hc, oneAt?, bit]
  · simp [hc]

theorem shiftContains?_eq (s : AsciiSet) (c : Char) : shiftContains? s c = some (s.contains c) := by
  unfold shiftContains? contains index?
  by_cases hc : c.toNat < 128
  · simp [hc, oneAt?, bit]
  · simp [hc]

theorem foldlM_shiftErase? (s : AsciiSet) (cs : List Char) :
    cs.foldlM shiftErase? s = some (s.eraseAll cs) := by
  induction cs generalizing s with
  | nil => rfl
  | cons c cs ih =>
    rw [List.foldlM_cons, shiftErase?_eq, eraseAll_cons]
    exact ih (s.erase c)

theorem shiftAll?_eq (h : ∀ c ∈ cs, c.toNat < 128) : shiftAll? cs = some (ofList cs) := by
  rw [shiftAll?, ofList]
  generalize empty = s
  induction cs generalizing s with
  | nil => rfl
  | cons c cs ih =>
    have hc : c.toNat < 128 := h c List.mem_cons_self
    have hinsert : (oneAt? c.toNat).map (fun b => (⟨s.mask ||| b⟩ : AsciiSet)) =
        some (s.insert c) := by
      simp [oneAt?, insert, index?, bit, hc]
    rw [List.foldlM_cons, hinsert]
    exact ih (fun d hd => h d (List.mem_cons_of_mem c hd)) (s.insert c)

/-- The alphabets are words of bits that are all within the width. -/
theorem shiftAll?_alphabet :
    shiftAll? "abcdefghijklmnopqrstuvwxyzABCDEFGHIJKLMNOPQRSTUVWXYZ".toList =
      some Alphabet.letters ∧
    shiftAll? "0123456789".toList = some Alphabet.digits ∧
    shiftAll? "~!@#$%^&*_+=-|\\]['\":/?.>,<".toList = some Alphabet.punctuation :=
  ⟨shiftAll?_eq (by simp), shiftAll?_eq (by simp), shiftAll?_eq (by simp)⟩

/-! ## Sets and their words -/

/-- After any removals from a set, a character is in it if and only if it was and is none of those taken
out. Neither their order nor their number matters, and characters outside ASCII are never members, nor
does taking them out change anything. Two words are equal if and only if the sets have the same
characters. No shift goes beyond the width, neither in removals and tests nor in the alphabets. -/
theorem eraseAll_faithful (s t : AsciiSet) (cs : List Char) :
    (∀ c, (s.eraseAll cs).contains c = true ↔ s.contains c = true ∧ c ∉ cs) ∧
    (∀ ds, (∀ c, c ∈ cs ↔ c ∈ ds) → s.eraseAll cs = s.eraseAll ds) ∧
    (∀ c, 128 ≤ c.toNat →
      (s.eraseAll cs).contains c = false ∧ (s.eraseAll cs).erase c = s.eraseAll cs) ∧
    ((s.eraseAll cs).mask = t.mask ↔ ∀ c, (s.eraseAll cs).contains c = t.contains c) ∧
    (cs.foldlM shiftErase? s = some (s.eraseAll cs) ∧
      ∀ c, shiftContains? (s.eraseAll cs) c = some ((s.eraseAll cs).contains c)) ∧
    (shiftAll? "abcdefghijklmnopqrstuvwxyzABCDEFGHIJKLMNOPQRSTUVWXYZ".toList =
        some Alphabet.letters ∧
      shiftAll? "0123456789".toList = some Alphabet.digits ∧
      shiftAll? "~!@#$%^&*_+=-|\\]['\":/?.>,<".toList = some Alphabet.punctuation) := by
  refine ⟨fun c => ?_, fun ds h => eraseAll_congr s h, fun c hc => ?_, mask_eq_iff,
    ⟨foldlM_shiftErase? s cs, fun c => shiftContains?_eq _ c⟩, shiftAll?_alphabet⟩
  · rw [contains_eraseAll, Bool.and_eq_true, decide_eq_true_eq]
  · exact ⟨contains_of_not_ascii _ hc, erase_of_not_ascii _ hc⟩

/-- A comma is taken out twice, and a letter that is 128 places behind an ASCII one not at all. -/
theorem eraseAll_faithful_of_repeated :
    (∀ c, c ∈ [',', 'á', ','] ↔ c ∈ ['á', ',']) ∧
      Alphabet.partChars.eraseAll [',', 'á', ','] = Alphabet.partChars.eraseAll ['á', ','] ∧
    (128 ≤ 'á'.toNat ∧
      (Alphabet.partChars.eraseAll [',']).erase 'á' = Alphabet.partChars.eraseAll [',']) := by
  have hmem : ∀ c, c ∈ [',', 'á', ','] ↔ c ∈ ['á', ','] := by
    intro c
    simp only [List.mem_cons, List.not_mem_nil, or_false]
    grind
  have hcode : 128 ≤ 'á'.toNat := by decide
  exact ⟨hmem, (eraseAll_faithful Alphabet.partChars Alphabet.partChars _).2.1 _ hmem, hcode,
    ((eraseAll_faithful Alphabet.partChars Alphabet.partChars [',']).2.2.1 'á' hcode).2⟩

end BuildTool.AsciiSet
