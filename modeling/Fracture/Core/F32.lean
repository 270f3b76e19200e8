import Mathlib.Algebra.Order.Floor.Ring
import Mathlib.Data.Rat.Floor

/-!
# 32-bit floating point numbers

The operations on `f32` that the coordinator calls, on a carrier that is
left open. What they compute is a parameter; `Lawful` says what IEEE 754
promises about comparisons and about the reciprocal of a positive number.
-/

namespace Fracture

/-- The operations of `f32`. -/
structure F32 (F : Type) where
  /-- `n as f32`. -/
  ofNat : ℕ → F
  isNan : F → Bool
  lt : F → F → Bool
  le : F → F → Bool
  add : F → F → F
  mul : F → F → F
  div : F → F → F
  max : F → F → F
  min : F → F → F
  /-- `f32::MIN`. -/
  least : F
  /-- `f32::MAX`. -/
  greatest : F
  /-- `x.round() as usize`. -/
  roundNat : F → ℕ
  /-- The text of a number, in full, with no decimals and with one. -/
  display : F → String
  display0 : F → String
  display1 : F → String
  /-- A number of bytes as gigabytes with one decimal, through `f64`. -/
  gigabytes : ℕ → String

namespace F32

variable {F : Type}

/-- Comparisons order the numbers that are not NaN, and a positive number
has a reciprocal among them. -/
structure Lawful (f : F32 F) : Prop where
  lt_irrefl : ∀ a, f.lt a a = false
  lt_trans : ∀ {a b c}, f.lt a b = true → f.lt b c = true → f.lt a c = true
  lt_or_lt : ∀ {a c} b, f.isNan b = false → f.lt a c = true → f.lt a b = true ∨ f.lt b c = true
  recip : ∀ {x}, f.isNan x = false → f.le x (f.ofNat 0) = false →
    f.isNan (f.div (f.ofNat 1) x) = false ∧ f.lt f.least (f.div (f.ofNat 1) x) = true

/-- Rational arithmetic, which rounds and overflows nowhere. -/
def exact : F32 ℚ where
  ofNat n := n
  isNan _ := false
  lt a b := a < b
  le a b := a ≤ b
  add a b := a + b
  mul a b := a * b
  div a b := a / b
  max a b := Max.max a b
  min a b := Min.min a b
  least := -(2 ^ 128 - 2 ^ 104)
  greatest := 2 ^ 128 - 2 ^ 104
  roundNat x := (x + 1 / 2).floor.toNat
  display := toString
  display0 := toString
  display1 := toString
  gigabytes n := toString (n / 10 ^ 9)

theorem exact_lawful : exact.Lawful where
  lt_irrefl a := by simp [exact]
  lt_trans hab hbc := by
    simp only [exact, decide_eq_true_eq] at hab hbc ⊢
    exact lt_trans hab hbc
  lt_or_lt b _ hac := by
    simp only [exact, decide_eq_true_eq] at hac ⊢
    rcases lt_or_ge _ b with hlt | hge
    · exact .inl hlt
    · exact .inr (lt_of_le_of_lt hge hac)
  recip _ hpos := by
    simp only [exact, decide_eq_false_iff_not, not_le, Nat.cast_zero, Nat.cast_one, one_div,
      decide_eq_true_eq, true_and] at hpos ⊢
    have hinv := inv_pos.mpr hpos
    linarith

end F32

end Fracture
