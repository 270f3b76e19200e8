import Mathlib.Tactic.Ring
import Mathlib.Data.Nat.ModEq

/-!
# Numbers as bytes

A number of a fixed width as bytes, the most significant first or the least
significant first, and back. A byte string is determined by its length and
its number, so each of the two directions undoes the other on numbers that
fit the width.
-/

namespace BigEndian

/-- The number that bytes spell. -/
def ofBytes : List UInt8 → ℕ
  | [] => 0
  | b :: bs => b.toNat * 256 ^ bs.length + ofBytes bs

/-- The low bytes of a number, so many of them. -/
def toBytes : ℕ → ℕ → List UInt8
  | 0, _ => []
  | width + 1, n => UInt8.ofNat (n / 256 ^ width) :: toBytes width n

@[simp] theorem length_toBytes (width n : ℕ) : (toBytes width n).length = width := by
  induction width with
  | zero => rfl
  | succ width ih => rw [toBytes, List.length_cons, ih]

theorem ofBytes_lt (bs : List UInt8) : ofBytes bs < 256 ^ bs.length := by
  induction bs with
  | nil => decide
  | cons b bs ih =>
    have hb : b.toNat + 1 ≤ 256 := b.toNat_lt
    have hscaled := Nat.mul_le_mul_right (256 ^ bs.length) hb
    rw [Nat.succ_mul] at hscaled
    rw [ofBytes, List.length_cons, Nat.pow_succ, Nat.mul_comm (256 ^ bs.length)]
    omega

/-- Written and read back, a number is cut to its width. -/
theorem ofBytes_toBytes (width n : ℕ) : ofBytes (toBytes width n) = n % 256 ^ width := by
  induction width with
  | zero => simp [toBytes, ofBytes, Nat.mod_one]
  | succ width ih =>
    have hdigit : (UInt8.ofNat (n / 256 ^ width)).toNat = n / 256 ^ width % 256 :=
      UInt8.toNat_ofNat'
    rw [toBytes, ofBytes, length_toBytes, ih, hdigit, Nat.mod_pow_succ]
    ring

theorem ofBytes_toBytes_of_lt {width n : ℕ} (h : n < 256 ^ width) :
    ofBytes (toBytes width n) = n := by
  rw [ofBytes_toBytes, Nat.mod_eq_of_lt h]

/-- Bytes of one length are determined by their number. -/
theorem eq_of_ofBytes_eq {as bs : List UInt8} (hlen : as.length = bs.length)
    (h : ofBytes as = ofBytes bs) : as = bs := by
  induction as generalizing bs with
  | nil => exact (List.length_eq_zero_iff.1 hlen.symm).symm
  | cons a as ih =>
    cases bs with
    | nil => cases hlen
    | cons b bs =>
      have htail : as.length = bs.length := Nat.succ.inj hlen
      have has := ofBytes_lt as
      have hbs := ofBytes_lt bs
      rw [ofBytes, ofBytes, htail] at h
      rw [htail] at has
      -- the first byte is the quotient by the weight, the rest the remainder
      have hquot := congrArg (· / 256 ^ bs.length) h
      have hrem := congrArg (· % 256 ^ bs.length) h
      have hpos : 0 < 256 ^ bs.length := Nat.pow_pos (by decide)
      simp only [Nat.mul_comm _ (256 ^ bs.length), Nat.mul_add_div hpos, Nat.div_eq_of_lt has,
        Nat.div_eq_of_lt hbs, Nat.add_zero, Nat.mul_add_mod, Nat.mod_eq_of_lt has,
        Nat.mod_eq_of_lt hbs] at hquot hrem
      rw [UInt8.toNat_inj.1 hquot, ih htail hrem]

/-- Read and written back, bytes are unchanged. -/
theorem toBytes_ofBytes (bs : List UInt8) : toBytes bs.length (ofBytes bs) = bs :=
  eq_of_ofBytes_eq (length_toBytes _ _) (ofBytes_toBytes_of_lt (ofBytes_lt bs))

end BigEndian

namespace LittleEndian

/-- The number that bytes spell. -/
def ofBytes : List UInt8 → ℕ
  | [] => 0
  | b :: bs => b.toNat + 256 * ofBytes bs

/-- The low bytes of a number, so many of them. -/
def toBytes : ℕ → ℕ → List UInt8
  | 0, _ => []
  | width + 1, n => UInt8.ofNat n :: toBytes width (n / 256)

@[simp] theorem length_toBytes (width n : ℕ) : (toBytes width n).length = width := by
  induction width generalizing n with
  | zero => rfl
  | succ width ih => rw [toBytes, List.length_cons, ih]

/-- Written and read back, a number that fits the width is unchanged. -/
theorem ofBytes_toBytes {width n : ℕ} (h : n < 256 ^ width) : ofBytes (toBytes width n) = n := by
  induction width generalizing n with
  | zero =>
    have hzero : n = 0 := by
      rw [Nat.pow_zero] at h
      omega
    rw [hzero]
    rfl
  | succ width ih =>
    have hdigit : (UInt8.ofNat n).toNat = n % 256 := UInt8.toNat_ofNat'
    have hrest : n / 256 < 256 ^ width := by
      rw [Nat.pow_succ] at h
      omega
    rw [toBytes, ofBytes, ih hrest, hdigit]
    omega

end LittleEndian
