import Mathlib.Tactic

/-!
# Masks over Bit Vectors

A word `v` extends a word `o` when every bit of `o` is set in `v`; the code under
verification tests this as `(v & o) == o`. What a mask sees in `o` it sees in every
extension of `o`.
-/

namespace LinuxMaxxing.Lib

variable {w : Nat} {v o m : BitVec w}

/-- A bit of `m` that is set in `o` is set in every extension of `o`. -/
theorem and_ne_zero_of_extends (h : v &&& o = o) (hm : o &&& m ≠ 0) : v &&& m ≠ 0 := by
  intro hzero
  apply hm
  rw [← h, BitVec.and_assoc, BitVec.and_comm o, ← BitVec.and_assoc, hzero]
  exact BitVec.zero_and

/-- A mask that is full in `o` is full in every extension of `o`. -/
theorem and_eq_of_extends (h : v &&& o = o) (hm : o &&& m = m) : v &&& m = m := by
  rw [← hm, ← BitVec.and_assoc, h]

/-- Clearing bits that are not set changes nothing. -/
theorem and_not_of_and_eq_zero (h : o &&& m = 0) : o &&& ~~~m = o := by
  apply BitVec.eq_of_getLsbD_eq
  intro i hi
  have hbit : (o &&& m).getLsbD i = (0 : BitVec w).getLsbD i := by rw [h]
  simp only [BitVec.getLsbD_and, BitVec.ofNat_eq_ofNat, BitVec.getLsbD_zero] at hbit
  simp only [BitVec.getLsbD_and, BitVec.getLsbD_not, hi, decide_true, Bool.true_and]
  cases ho : o.getLsbD i with
  | false => rfl
  | true => simpa [ho] using hbit

/-- An extension stays one when bits outside the smaller word are cleared. -/
theorem extends_and_not (h : v &&& o = o) (hm : o &&& m = 0) : v &&& ~~~m &&& o = o := by
  rw [BitVec.and_assoc, BitVec.and_comm _ o, and_not_of_and_eq_zero hm, h]

/-- A word that extends `m` and has no bit outside `m` is `m`. -/
theorem eq_of_extends_of_within (hwithin : v &&& ~~~m = 0) (hext : v &&& m = m) : v = m := by
  rw [← hext, ← and_not_of_and_eq_zero hwithin, BitVec.not_not, BitVec.and_assoc, BitVec.and_self]

end LinuxMaxxing.Lib
