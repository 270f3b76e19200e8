import Fracture.Core.Error
import Fracture.Common.Effect

/-!
# Arithmetic on `usize`

A sum or a product of two `usize` that does not fit panics in a debug
build and wraps around in a release build.
-/

namespace Fracture

open Effect

/-- How the program was built. -/
inductive Build where
  | debug
  | release
deriving DecidableEq, Repr

namespace Build

def add (build : Build) (x y : ℕ) : Except Fault ℕ :=
  if x + y < 2 ^ 64 then .ok (x + y)
  else match build with
    | .debug => .error (.panicked .addOverflow)
    | .release => .ok ((x + y) % 2 ^ 64)

def mul (build : Build) (x y : ℕ) : Except Fault ℕ :=
  if x * y < 2 ^ 64 then .ok (x * y)
  else match build with
    | .debug => .error (.panicked .multiplyOverflow)
    | .release => .ok (x * y % 2 ^ 64)

/-- The product of an iterator. -/
def product (build : Build) (xs : List ℕ) : Except Fault ℕ := xs.foldlM build.mul 1

variable {build : Build} {x y z : ℕ}

theorem add_of_lt (h : x + y < 2 ^ 64) : build.add x y = .ok (x + y) := if_pos h

theorem mul_of_lt (h : x * y < 2 ^ 64) : build.mul x y = .ok (x * y) := if_pos h

/-- In a debug build what is returned is the sum. -/
theorem debug_add_eq_ok : debug.add x y = .ok z ↔ x + y < 2 ^ 64 ∧ z = x + y := by
  unfold add
  split
  case isTrue h => exact ⟨fun hz => ⟨h, (Except.ok.inj hz).symm⟩, fun hz => by rw [hz.2]⟩
  case isFalse h => exact ⟨fun hz => by simp at hz, fun hz => absurd hz.1 h⟩

theorem debug_mul_eq_ok : debug.mul x y = .ok z ↔ x * y < 2 ^ 64 ∧ z = x * y := by
  unfold mul
  split
  case isTrue h => exact ⟨fun hz => ⟨h, (Except.ok.inj hz).symm⟩, fun hz => by rw [hz.2]⟩
  case isFalse h => exact ⟨fun hz => by simp at hz, fun hz => absurd hz.1 h⟩

theorem onlyPanics_add (build : Build) (x y : ℕ) : OnlyPanics (build.add x y) := by
  unfold add
  split
  · exact .ok _
  · cases build
    · exact .panicked _
    · exact .ok _

theorem onlyPanics_mul (build : Build) (x y : ℕ) : OnlyPanics (build.mul x y) := by
  unfold mul
  split
  · exact .ok _
  · cases build
    · exact .panicked _
    · exact .ok _

/-- Every product on the way fits. -/
def ProductFits (xs : List ℕ) : Prop := ∀ n ≤ xs.length, (xs.take n).prod < 2 ^ 64

variable {xs : List ℕ}

theorem foldlM_mul_of_fits (hx : ∀ n ≤ xs.length, x * (xs.take n).prod < 2 ^ 64) :
    xs.foldlM build.mul x = .ok (x * xs.prod) := by
  induction xs generalizing x with
  | nil => simp [pure, Except.pure]
  | cons y xs ih =>
    have hfirst : x * y < 2 ^ 64 := by simpa using hx 1 (by simp)
    have hrest : ∀ n ≤ xs.length, x * y * (xs.take n).prod < 2 ^ 64 := by
      intro n hn
      have := hx (n + 1) (by simpa using hn)
      rwa [List.take_succ_cons, List.prod_cons, ← Nat.mul_assoc] at this
    rw [List.foldlM_cons, mul_of_lt hfirst, except_ok_bind, ih hrest, List.prod_cons,
      Nat.mul_assoc]

theorem product_of_fits (h : ProductFits xs) : build.product xs = .ok xs.prod := by
  have hone : ∀ n ≤ xs.length, 1 * (xs.take n).prod < 2 ^ 64 := by
    intro n hn
    rw [Nat.one_mul]
    exact h n hn
  rw [product, foldlM_mul_of_fits hone, Nat.one_mul]

theorem fits_of_debug_foldlM (hx : x < 2 ^ 64) (h : xs.foldlM debug.mul x = .ok z) :
    ∀ n ≤ xs.length, x * (xs.take n).prod < 2 ^ 64 := by
  induction xs generalizing x with
  | nil =>
    intro n _
    simpa using hx
  | cons y xs ih =>
    rw [List.foldlM_cons] at h
    obtain ⟨m, hm, hrest⟩ := except_bind_eq_ok.1 h
    obtain ⟨hlt, rfl⟩ := debug_mul_eq_ok.1 hm
    intro n hn
    cases n with
    | zero => simpa using hx
    | succ n =>
      have := ih hlt hrest n (by simpa using hn)
      rwa [List.take_succ_cons, List.prod_cons, ← Nat.mul_assoc]

/-- In a debug build a product that is returned never left the range. -/
theorem fits_of_debug_product (h : debug.product xs = .ok z) : ProductFits xs := by
  intro n hn
  have hall := fits_of_debug_foldlM (by decide) h n hn
  rwa [Nat.one_mul] at hall

theorem onlyPanics_product (build : Build) (xs : List ℕ) : OnlyPanics (build.product xs) :=
  OnlyPanics.foldlM (onlyPanics_mul build) xs 1

end Build

end Fracture
