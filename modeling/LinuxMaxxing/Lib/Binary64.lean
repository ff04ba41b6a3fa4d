import Mathlib.Tactic
import LinuxMaxxing.Lib.Json

/-!
# Number Literals as Binary64

The double nearest to a decimal literal, ties to even. Every finite double is an
integer multiple of `2 ^ (-1074)`, so a double is this integer or an infinity; the two
zeros are one value here, as they are for the comparisons of the languages that use it.

- `nearest`: the double nearest to a fraction;
- `isFinite`: the finite numbers that are doubles, `nearestIn_of_eq`;
- `Json.Number.double`: the double of a literal.
-/

namespace LinuxMaxxing.Lib

/-- A double: a multiple of `2 ^ (-1074)` or an infinity. -/
inductive Double where
  | finite (k : Int)
  | infinite (neg : Bool)
  deriving DecidableEq, Repr

namespace Double

/-- The integer nearest to `n / d`, the even one in the middle. -/
def roundHalfEven (n d : Nat) : Nat :=
  if 2 * (n % d) < d then n / d
  else if d < 2 * (n % d) then n / d + 1
  else if n / d % 2 = 0 then n / d
  else n / d + 1

/-- The number `± n / d` with 53 significant bits, in units of `2 ^ (-scale)`;
    infinite from `2 ^ 1024` on. -/
def nearestIn (scale : Nat) (neg : Bool) (n d : Nat) : Double :=
  let scaled := n * 2 ^ scale
  let shift := Nat.log2 (scaled / d) - 52
  let k := roundHalfEven scaled (d * 2 ^ shift) * 2 ^ shift
  if k < 2 ^ (1024 + scale) then .finite (if neg then -(k : Int) else k) else .infinite neg

/-- The integer `z` in units of `2 ^ (-scale)`. -/
def exactIn (scale : Nat) (z : Int) : Double := .finite (z * 2 ^ scale)

/-- The double nearest to `± n / d`. -/
def nearest (neg : Bool) (n d : Nat) : Double := nearestIn 1074 neg n d

/-- The exact integer `z`, whether or not it is a double. -/
def exact (z : Int) : Double := exactIn 1074 z

/-- The double nearest to an integer. -/
def ofInt (z : Int) : Double := nearest (z < 0) z.natAbs 1

/-- A finite number with no more than the 53 significant bits of a double, below its largest. -/
def isFinite : Double → Bool
  | .finite k => k.natAbs < 2 ^ (1024 + 1074) && k.natAbs % 2 ^ (Nat.log2 k.natAbs - 52) = 0
  | .infinite _ => false

/-! ## Exact numbers -/

theorem roundHalfEven_of_dvd {n d : Nat} (hd : 0 < d) (h : d ∣ n) : roundHalfEven n d = n / d := by
  unfold roundHalfEven
  rw [Nat.mod_eq_zero_of_dvd h, if_pos (by omega)]

/-- A fraction that has no more than 53 significant bits is its own nearest number. -/
theorem nearestIn_of_eq {scale n d m : Nat} (neg : Bool) (hd : 0 < d)
    (hscaled : n * 2 ^ scale = m * d) (hbits : 2 ^ (Nat.log2 m - 52) ∣ m)
    (hlt : m < 2 ^ (1024 + scale)) :
    nearestIn scale neg n d = .finite (if neg then -(m : Int) else m) := by
  unfold nearestIn
  simp only [hscaled, Nat.mul_div_cancel m hd]
  obtain ⟨q, hq⟩ := hbits
  generalize Nat.log2 m - 52 = shift at hq
  have hpos : 0 < d * 2 ^ shift := Nat.mul_pos hd (Nat.two_pow_pos _)
  have hmul : m * d = d * 2 ^ shift * q := by
    rw [hq]
    ring
  rw [hmul, roundHalfEven_of_dvd hpos ⟨q, rfl⟩, Nat.mul_div_cancel_left q hpos, Nat.mul_comm q, ← hq,
    if_pos hlt]

/-- An integer of 53 bits is exact in every scale. -/
theorem nearestIn_of_lt (scale : Nat) (neg : Bool) {n : Nat} (h : n < 2 ^ 53) :
    nearestIn scale neg n 1 = exactIn scale (if neg then -(n : Int) else n) := by
  have hlt : n * 2 ^ scale < 2 ^ (53 + scale) := by
    rw [Nat.pow_add]
    exact Nat.mul_lt_mul_of_pos_right h (Nat.two_pow_pos _)
  -- the last bit of a 53 bit integer is not below the units
  have hle : Nat.log2 (n * 2 ^ scale) - 52 ≤ scale := by
    by_cases hzero : n = 0
    · rw [hzero, Nat.zero_mul, Nat.log2_zero]
      omega
    · have hne : n * 2 ^ scale ≠ 0 := Nat.mul_ne_zero hzero (Nat.two_pow_pos _).ne'
      have hlog := (Nat.log2_lt hne).mpr hlt
      omega
  rw [nearestIn_of_eq neg Nat.one_pos (Nat.mul_one _).symm
    (Dvd.dvd.mul_left (Nat.pow_dvd_pow 2 hle) _)]
  · unfold exactIn
    cases neg with
    | false => simp
    | true => simp
  · exact lt_of_lt_of_le hlt (Nat.pow_le_pow_right (by decide) (by omega))

theorem ite_neg_natAbs (k : Int) :
    (if decide (k < 0) = true then -(k.natAbs : Int) else k.natAbs) = k := by
  by_cases hneg : k < 0
  · rw [decide_eq_true hneg, if_pos rfl]
    omega
  · rw [decide_eq_false hneg, if_neg Bool.false_ne_true]
    omega

/-- A number is read from its decimal digits in units of `10 ^ (-scale)`. -/
theorem nearestIn_decimal {scale : Nat} {k : Int} (hlt : k.natAbs < 2 ^ (1024 + scale))
    (hbits : 2 ^ (Nat.log2 k.natAbs - 52) ∣ k.natAbs) :
    nearestIn scale (k < 0) (k.natAbs * 5 ^ scale) (10 ^ scale) = .finite k := by
  have hscaled : k.natAbs * 5 ^ scale * 2 ^ scale = k.natAbs * 10 ^ scale := by
    rw [Nat.mul_assoc, ← Nat.mul_pow]
  rw [nearestIn_of_eq _ (Nat.pow_pos (by decide)) hscaled hbits hlt, ite_neg_natAbs]

theorem nearest_of_isFinite {k : Int} (h : isFinite (.finite k) = true) :
    nearest (k < 0) (k.natAbs * 5 ^ 1074) (10 ^ 1074) = .finite k := by
  rw [isFinite, Bool.and_eq_true, decide_eq_true_eq, decide_eq_true_eq] at h
  exact nearestIn_decimal h.1 (Nat.dvd_of_mod_eq_zero h.2)

end Double

/-! ## Literals -/

namespace Json.Number

/-- A literal without fraction and exponent. -/
def isInt (n : Number) : Bool := n.frac.isNone && n.exp.isNone

/-- The integer of such a literal. -/
def toInt (n : Number) : Int := if n.neg then -(n.int : Int) else n.int

/-- The literal's digits without the point. -/
def digits (n : Number) : Nat :=
  (n.frac.getD []).foldl (fun m c => 10 * m + (c - 0x30)) n.int

/-- The power of ten that its digits are multiplied with. -/
def exponent (n : Number) : Int := n.exp.getD 0 - (n.frac.getD []).length

/-- The double of a literal. -/
def double (n : Number) : Double :=
  if 0 ≤ n.exponent then .nearest n.neg (n.digits * 10 ^ n.exponent.toNat) 1
  else .nearest n.neg n.digits (10 ^ (-n.exponent).toNat)

/-- The double of an integer literal is the one nearest to the integer. -/
theorem double_of_isInt {n : Number} (h : n.isInt = true) : n.double = .ofInt n.toInt := by
  obtain ⟨neg, int, frac, exp⟩ := n
  simp only [isInt, Bool.and_eq_true, Option.isNone_iff_eq_none] at h
  obtain ⟨rfl, rfl⟩ := h
  have hdigits : (Number.mk neg int none none).digits = int := rfl
  have hexp : (Number.mk neg int none none).exponent = 0 := rfl
  unfold double toInt Double.ofInt
  rw [hexp, hdigits, if_pos le_rfl, Int.toNat_zero, Nat.pow_zero, Nat.mul_one]
  cases neg with
  | false =>
    have hpos : ¬ (int : Int) < 0 := by omega
    simp only [Bool.false_eq_true, if_false, hpos, decide_false, Int.natAbs_natCast]
  | true =>
    simp only [if_true, Int.natAbs_neg, Int.natAbs_natCast]
    by_cases hzero : int = 0
    · -- the sign of zero makes no difference
      subst hzero
      unfold Double.nearest
      rw [Double.nearestIn_of_lt 1074 _ (by decide), Double.nearestIn_of_lt 1074 _ (by decide)]
      simp
    · have hneg : -(int : Int) < 0 := by omega
      simp only [hneg, decide_true]

end Json.Number

end LinuxMaxxing.Lib
