import BuildTool.Text.Alphabet
/-!
# What the alphabets hold

The sets of the alphabet are words of bits. Here they are compared with plain tests of characters:
names hold the ASCII letters (`contains_letters`); a part of a command holds all printable ASCII but
parentheses, braces, the semicolon and the backquote (`contains_partChars`), and the name of a
dependency no comma either (`contains_dependencyChars`).
-/

namespace BuildTool.Alphabet

/-- White space of a build file: the blanks and the line feed. -/
def isSpace (c : Char) : Bool :=
  isBlank c || c = '\n'

/-- A character of a part. -/
def isPart (c : Char) : Bool :=
  '!' ≤ c && c ≤ '~' && !"();\x60\x7b\x7d".toList.contains c

/-! ## Sets of ASCII characters, code by code -/

theorem forall_ascii {p : Char → Prop} (h : ∀ n < 128, p (Char.ofNat n)) (c : Char)
    (hc : c.toNat < 128) : p c := by
  have hn := h c.toNat hc
  rwa [Char.ofNat_toNat] at hn

/-- A set is what a test says if it is so on ASCII and the test fails elsewhere. -/
theorem contains_eq_of_ascii {s : AsciiSet} {test : Char → Bool}
    (hascii : ∀ n < 128, s.contains (Char.ofNat n) = test (Char.ofNat n))
    (htest : ∀ c, test c = true → c.toNat < 128) (c : Char) : s.contains c = test c := by
  by_cases hc : c.toNat < 128
  · exact forall_ascii (p := fun d => s.contains d = test d) hascii c hc
  · have hs : s.contains c ≠ true := fun h => hc (AsciiSet.toNat_lt_of_contains h)
    have ht : test c ≠ true := fun h => hc (htest c h)
    rw [Bool.eq_false_iff.2 hs, Bool.eq_false_iff.2 ht]

theorem toNat_lt_of_isAlpha {c : Char} (h : c.isAlpha = true) : c.toNat < 128 := by
  have hupper : 'Z'.val.toNat = 90 := rfl
  have hlower : 'z'.val.toNat = 122 := rfl
  have hcase : c.isUpper = true ∨ c.isLower = true := Bool.or_eq_true_iff.1 h
  change c.val.toNat < 128
  rcases hcase with hcase | hcase
  · have hle : c.val ≤ 'Z'.val := (of_decide_eq_true hcase).2
    rw [UInt32.le_iff_toNat_le] at hle
    omega
  · have hle : c.val ≤ 'z'.val := of_decide_eq_true (Bool.and_eq_true_iff.1 hcase).2
    rw [UInt32.le_iff_toNat_le] at hle
    omega

theorem toNat_lt_of_isPart {c : Char} (h : isPart c = true) : c.toNat < 128 := by
  simp only [isPart, Bool.and_eq_true, decide_eq_true_eq, Char.le_def,
    UInt32.le_iff_toNat_le] at h
  have hlast : '~'.val.toNat = 126 := rfl
  change c.val.toNat < 128
  omega

theorem contains_letters (c : Char) : letters.contains c = c.isAlpha :=
  contains_eq_of_ascii (by decide +kernel) (fun _ => toNat_lt_of_isAlpha) c

theorem contains_partChars (c : Char) : partChars.contains c = isPart c :=
  contains_eq_of_ascii (by decide +kernel) (fun _ => toNat_lt_of_isPart) c

theorem contains_dependencyChars (c : Char) :
    dependencyChars.contains c = (isPart c && decide (c ≠ ',')) := by
  rw [dependencyChars, AsciiSet.contains_erase, contains_partChars]
  simp only [ne_eq, eq_comm]

/-! ## The classes apart -/

theorem isSpace_of_isAlpha {c : Char} (h : c.isAlpha = true) : isSpace c = false := by
  rw [Bool.eq_false_iff]
  intro hspace
  simp only [isSpace, isBlank, Bool.or_eq_true, decide_eq_true_eq] at hspace
  rcases hspace with ((rfl | rfl) | rfl) | rfl <;> cases h

theorem isSpace_of_isPart {c : Char} (h : isPart c = true) : isSpace c = false := by
  rw [Bool.eq_false_iff]
  intro hspace
  simp only [isSpace, isBlank, Bool.or_eq_true, decide_eq_true_eq] at hspace
  rcases hspace with ((rfl | rfl) | rfl) | rfl <;> cases h

theorem isPart_of_isAlpha {c : Char} (h : c.isAlpha = true) : isPart c = true :=
  forall_ascii (p := fun d => d.isAlpha = true → isPart d = true) (by decide +kernel) c
    (toNat_lt_of_isAlpha h) h

theorem ne_lineFeed {c : Char} (h : isSpace c = false) : c ≠ '\n' := by
  intro hc
  subst hc
  cases h

end BuildTool.Alphabet
