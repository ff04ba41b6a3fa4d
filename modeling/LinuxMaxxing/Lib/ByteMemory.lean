import Mathlib.Tactic

/-!
# Byte Memory with an Access Log

A memory is a function from addresses to bytes, read and written little-endian.
Each access is recorded as a range of addresses with its direction, so that a
statement about every access of a program is a statement about its log.

- `loadLe`, `storeLe`, `storeBytes`: the operations;
- `Access.Within`: the range of an access lies in a window;
- `storeBytes_frame`: a store changes only the bytes of its range;
- `loadLe_storeLe`: a load of what was stored gives the value back.
-/

namespace LinuxMaxxing.Lib

/-- Memory as a function from byte addresses to bytes. -/
def Memory : Type := Nat → UInt8

namespace Memory

/-! ## Loads and stores -/

/-- Little-endian value of the `n` bytes at `addr`. -/
def loadLe (m : Memory) (addr : Nat) : Nat → Nat
  | 0 => 0
  | n + 1 => (m addr).toNat + 256 * loadLe m (addr + 1) n

/-- The `n` low bytes of a value, least significant first. -/
def leBytes (v : Nat) : Nat → List UInt8
  | 0 => []
  | n + 1 => UInt8.ofNat (v % 256) :: leBytes (v / 256) n

/-- Write the bytes at `addr` and above. -/
def storeBytes (m : Memory) (addr : Nat) (bytes : List UInt8) : Memory := fun i =>
  if addr ≤ i then (bytes[i - addr]?).getD (m i) else m i

/-- Write the `n` low bytes of a value, little-endian. -/
def storeLe (m : Memory) (addr n v : Nat) : Memory :=
  m.storeBytes addr (leBytes v n)

@[simp] theorem length_leBytes (v n : Nat) : (leBytes v n).length = n := by
  induction n generalizing v with
  | zero => rfl
  | succ n ih => simp [leBytes, ih]

/-- **Frame**: a store leaves every byte outside its range as it was. -/
theorem storeBytes_frame (m : Memory) {addr : Nat} {bytes : List UInt8} {i : Nat}
    (h : i < addr ∨ addr + bytes.length ≤ i) : m.storeBytes addr bytes i = m i := by
  unfold storeBytes
  rcases h with h | h
  · rw [if_neg (by omega)]
  · split
    · rw [List.getElem?_eq_none (by omega)]
      rfl
    · rfl

/-- A block of zeroes. -/
theorem storeBytes_zero (m : Memory) {addr len i : Nat} (hlo : addr ≤ i) (hhi : i < addr + len) :
    m.storeBytes addr (List.replicate len 0) i = 0 := by
  unfold storeBytes
  rw [if_pos hlo, List.getElem?_replicate, if_pos (by omega)]
  rfl

/-- A load depends only on the bytes of its range. -/
theorem loadLe_congr {m m' : Memory} {addr n : Nat}
    (h : ∀ i, addr ≤ i → i < addr + n → m i = m' i) : m.loadLe addr n = m'.loadLe addr n := by
  induction n generalizing addr with
  | zero => rfl
  | succ n ih =>
    have htail : m.loadLe (addr + 1) n = m'.loadLe (addr + 1) n :=
      ih fun i hlo hhi => h i (by omega) (by omega)
    rw [loadLe, loadLe, htail, h addr le_rfl (by omega)]

theorem loadLe_lt (m : Memory) (addr n : Nat) : m.loadLe addr n < 256 ^ n := by
  induction n generalizing addr with
  | zero =>
    show 0 < 1
    omega
  | succ n ih =>
    have hhead := (m addr).toNat_lt
    have htail := ih (addr + 1)
    rw [loadLe, Nat.pow_succ]
    omega

/-- A load in two parts. -/
theorem loadLe_add (m : Memory) (addr n k : Nat) :
    m.loadLe addr (n + k) = m.loadLe addr n + 256 ^ n * m.loadLe (addr + n) k := by
  induction n generalizing addr with
  | zero => simp [loadLe]
  | succ n ih =>
    rw [Nat.succ_add, loadLe, loadLe, ih, Nat.add_right_comm addr 1 n, Nat.pow_succ]
    ring_nf

/-- A load of zeroes. -/
theorem loadLe_zeroed {m : Memory} {addr n : Nat}
    (h : ∀ i, addr ≤ i → i < addr + n → m i = 0) : m.loadLe addr n = 0 := by
  induction n generalizing addr with
  | zero => rfl
  | succ n ih =>
    rw [loadLe, h addr le_rfl (by omega), ih fun i hlo hhi => h i (by omega) (by omega)]
    rfl

/-- A load determines the bytes of its range. -/
theorem loadLe_inj {m m' : Memory} {addr n : Nat} (h : m.loadLe addr n = m'.loadLe addr n)
    {i : Nat} (hlo : addr ≤ i) (hhi : i < addr + n) : m i = m' i := by
  induction n generalizing addr with
  | zero => omega
  | succ n ih =>
    have hhead := (m addr).toNat_lt
    have hhead' := (m' addr).toNat_lt
    rw [loadLe, loadLe] at h
    rcases Nat.eq_or_lt_of_le hlo with rfl | hlt
    · exact UInt8.toNat_inj.mp (by omega)
    · have htail : m.loadLe (addr + 1) n = m'.loadLe (addr + 1) n := by omega
      exact ih htail hlt (by omega)

/-- **Round trip**: a load gives back the value that was stored in its range. -/
theorem loadLe_storeLe (m : Memory) (addr : Nat) {n v : Nat} (hv : v < 256 ^ n) :
    (m.storeLe addr n v).loadLe addr n = v := by
  induction n generalizing m addr v with
  | zero =>
    show 0 = v
    omega
  | succ n ih =>
    have hhead : m.storeLe addr (n + 1) v addr = UInt8.ofNat (v % 256) := by
      simp [storeLe, storeBytes, leBytes]
    have htail : (m.storeLe addr (n + 1) v).loadLe (addr + 1) n = v / 256 := by
      rw [← ih m (addr + 1) (Nat.div_lt_of_lt_mul (by rw [Nat.pow_succ] at hv; omega))]
      apply loadLe_congr
      intro i hlo _
      obtain ⟨j, rfl⟩ : ∃ j, i = addr + 1 + j := ⟨i - (addr + 1), by omega⟩
      have hj : addr + 1 + j - addr = j + 1 := by omega
      simp [storeLe, storeBytes, leBytes, hj, show addr ≤ addr + 1 + j by omega]
    rw [loadLe, hhead, htail, UInt8.toNat_ofNat_of_lt' (Nat.mod_lt _ (by decide))]
    exact Nat.mod_add_div v 256

/-- A load beside the range of a store sees the memory before it. -/
theorem loadLe_storeLe_of_disjoint (m : Memory) {addr n addr' n' v : Nat}
    (h : addr + n ≤ addr' ∨ addr' + n' ≤ addr) :
    (m.storeLe addr' n' v).loadLe addr n = m.loadLe addr n := by
  apply loadLe_congr
  intro i hlo hhi
  apply storeBytes_frame
  rw [length_leBytes]
  omega

end Memory

/-! ## Accesses -/

/-- Direction of an access. -/
inductive Direction where
  | read
  | write
  deriving DecidableEq, Repr

/-- A range of addresses that was read or written. -/
structure Access where
  dir : Direction
  addr : Nat
  len : Nat
  deriving DecidableEq, Repr

/-- The whole range of the access lies in `[lo, lo + size)`. -/
def Access.Within (a : Access) (lo size : Nat) : Prop :=
  lo ≤ a.addr ∧ a.addr + a.len ≤ lo + size

/-- The access touches the byte at address `i`. -/
def Access.Touches (a : Access) (i : Nat) : Prop :=
  a.addr ≤ i ∧ i < a.addr + a.len

instance (a : Access) (lo size : Nat) : Decidable (a.Within lo size) :=
  inferInstanceAs (Decidable (_ ∧ _))

end LinuxMaxxing.Lib
