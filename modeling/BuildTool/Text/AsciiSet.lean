/-!
# Sets of ASCII characters

A set of ASCII characters is a word of 128 bits, one for each code. Union, insertion and removal act
on the bits and are what they are on sets (`contains_union`, `contains_insert`, `contains_erase`), and
two sets with the same members are the same word (`ext_contains`).
-/

namespace BuildTool

structure AsciiSet where
  mask : BitVec 128
deriving DecidableEq

namespace AsciiSet

/-- The bit of a character; a character outside ASCII has none. -/
def index? (c : Char) : Option (Fin 128) :=
  if h : c.toNat < 128 then some ⟨c.toNat, h⟩ else none

def bit (i : Fin 128) : BitVec 128 :=
  1#128 <<< i.val

def empty : AsciiSet := ⟨0#128⟩

def contains (s : AsciiSet) (c : Char) : Bool :=
  match index? c with
  | some i => s.mask &&& bit i != 0#128
  | none => false

def insert (s : AsciiSet) (c : Char) : AsciiSet :=
  match index? c with
  | some i => ⟨s.mask ||| bit i⟩
  | none => s

def erase (s : AsciiSet) (c : Char) : AsciiSet :=
  match index? c with
  | some i => ⟨s.mask &&& ~~~bit i⟩
  | none => s

def union (s t : AsciiSet) : AsciiSet :=
  ⟨s.mask ||| t.mask⟩

def ofList (cs : List Char) : AsciiSet :=
  cs.foldl insert empty

def eraseAll (s : AsciiSet) (cs : List Char) : AsciiSet :=
  cs.foldl erase s

theorem getLsbD_bit (i : Fin 128) (j : Nat) :
    (bit i).getLsbD j = decide (i.val = j) := by
  have hi := i.isLt
  simp only [bit, ← BitVec.twoPow_eq, BitVec.getLsbD_twoPow]
  by_cases h : i.val = j <;> simp [h, hi]
  omega

theorem and_bit_ne_zero (m : BitVec 128) (i : Fin 128) :
    (m &&& bit i != 0#128) = m.getLsbD i.val := by
  rw [Bool.eq_iff_iff, bne_iff_ne]
  constructor
  · intro h
    by_cases hm : m.getLsbD i.val = true
    · exact hm
    · refine absurd (BitVec.eq_of_getLsbD_eq fun j hj => ?_) h
      rw [BitVec.getLsbD_and, getLsbD_bit, BitVec.getLsbD_zero]
      by_cases hij : i.val = j
      · subst hij; simpa using hm
      · simp [hij]
  · intro h hz
    have hb := congrArg (fun w => BitVec.getLsbD w i.val) hz
    rw [BitVec.getLsbD_and, getLsbD_bit, h, BitVec.getLsbD_zero] at hb
    simp at hb

theorem contains_eq_getLsbD (s : AsciiSet) (c : Char) :
    s.contains c = s.mask.getLsbD c.toNat := by
  unfold contains index?
  by_cases h : c.toNat < 128
  · simp only [h, ↓reduceDIte, and_bit_ne_zero]
  · simp only [h, ↓reduceDIte]
    exact (BitVec.getLsbD_of_ge _ _ (by omega)).symm

theorem toNat_lt_of_contains {s : AsciiSet} {c : Char} (h : s.contains c = true) :
    c.toNat < 128 := by
  rw [contains_eq_getLsbD] at h
  exact BitVec.lt_of_getLsbD h

theorem toNat_inj {c d : Char} : c.toNat = d.toNat ↔ c = d :=
  ⟨fun h => Char.ext (UInt32.toNat_inj.1 h), fun h => h ▸ rfl⟩

@[simp] theorem contains_empty (c : Char) : empty.contains c = false := by
  simp [contains_eq_getLsbD, empty]

theorem contains_union (s t : AsciiSet) (c : Char) :
    (s.union t).contains c = (s.contains c || t.contains c) := by
  simp [contains_eq_getLsbD, union]

theorem contains_insert (s : AsciiSet) (d c : Char) :
    (s.insert d).contains c = (s.contains c || (decide (d.toNat < 128) && decide (d = c))) := by
  unfold insert index?
  by_cases h : d.toNat < 128
  · simp [contains_eq_getLsbD, h, getLsbD_bit, toNat_inj]
  · simp [h]

theorem contains_erase (s : AsciiSet) (d c : Char) :
    (s.erase d).contains c = (s.contains c && decide (d ≠ c)) := by
  unfold erase index?
  by_cases h : d.toNat < 128
  · simp only [h, ↓reduceDIte]
    rw [contains_eq_getLsbD, contains_eq_getLsbD, BitVec.getLsbD_and, BitVec.getLsbD_not,
      getLsbD_bit]
    by_cases hc : c.toNat < 128
    · simp only [hc, toNat_inj, decide_true, Bool.true_and, decide_not]
    · simp [BitVec.getLsbD_of_ge s.mask c.toNat (by omega)]
  · have hne : s.contains c = true → d ≠ c := fun hs hd =>
      h (hd ▸ toNat_lt_of_contains hs)
    by_cases hs : s.contains c = true
    · simp [h, hs, hne hs]
    · simp [h, hs]

theorem ext_contains {s t : AsciiSet} (h : ∀ c, s.contains c = t.contains c) : s = t := by
  obtain ⟨m⟩ := s
  obtain ⟨n⟩ := t
  congr 1
  refine BitVec.eq_of_getLsbD_eq fun i hi => ?_
  have hc : (Char.ofNat i).toNat = i := by
    have hv : i.isValidChar := Or.inl (by omega)
    rw [Char.ofNat, dif_pos hv]
    exact UInt32.toNat_ofNatLT
  have := h (Char.ofNat i)
  rwa [contains_eq_getLsbD, contains_eq_getLsbD, hc] at this

end AsciiSet

end BuildTool
