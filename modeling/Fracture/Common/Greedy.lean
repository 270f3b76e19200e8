import Mathlib.Algebra.BigOperators.Group.Finset.Basic
import Mathlib.Algebra.BigOperators.Group.List.Basic
import Mathlib.Algebra.BigOperators.Intervals
import Mathlib.Algebra.Order.BigOperators.Group.Finset
import Mathlib.Algebra.Order.Group.Nat
import Mathlib.Data.List.GetD

/-!
# Greedy filling

Places with room for some units each are filled one unit at a time, and
each unit goes to the most preferred place that has room left. Which
places get a unit, and which are full, follows from the total alone.
-/

namespace Greedy

open Finset

variable {ι : Type*} {s : Finset ι} {prefers : ι → ι → Prop} {room x : ι → ℕ}

/-- Filled in the order of preference: a place has units only when every
place preferred to it is full. -/
structure Filled (s : Finset ι) (prefers : ι → ι → Prop) (room x : ι → ℕ) : Prop where
  le : ∀ i ∈ s, x i ≤ room i
  full : ∀ i ∈ s, 0 < x i → ∀ j ∈ s, prefers j i → x j = room j

theorem filled_zero : Filled s prefers room fun _ => 0 where
  le _ _ := Nat.zero_le _
  full _ _ h := absurd h (Nat.lt_irrefl 0)

/-- **One more unit**, to the most preferred place with room. -/
theorem Filled.add [DecidableEq ι] (h : Filled s prefers room x) {i : ι} (hroom : x i < room i)
    (hbest : ∀ j ∈ s, prefers j i → x j = room j) :
    Filled s prefers room (Function.update x i (x i + 1)) where
  le j hj := by
    by_cases hji : j = i
    · subst hji
      rw [Function.update_self]
      exact hroom
    · rw [Function.update_of_ne hji]
      exact h.le j hj
  full := by
    intro k hk hpos j hj hjk
    by_cases hki : k = i
    · subst hki
      have hfull := hbest j hj hjk
      have hjk' : j ≠ k := by
        rintro rfl
        omega
      rwa [Function.update_of_ne hjk']
    · rw [Function.update_of_ne hki] at hpos
      have hfull := h.full k hk hpos j hj hjk
      -- a place with room is preferred to no place that has units
      have hji : j ≠ i := by
        rintro rfl
        omega
      rwa [Function.update_of_ne hji]

section

variable [DecidableRel prefers]

/-- The room of the places preferred to one. -/
def ahead (s : Finset ι) (prefers : ι → ι → Prop) [DecidableRel prefers] (room : ι → ℕ) (i : ι) :
    ℕ := ∑ j ∈ s with prefers j i, room j

variable {i : ι}

theorem Filled.ahead_le (h : Filled s prefers room x) :
    ahead s prefers x i ≤ ahead s prefers room i :=
  sum_le_sum fun j hj => h.le j (mem_filter.mp hj).1

theorem Filled.ahead_eq (h : Filled s prefers room x) (hi : i ∈ s) (hpos : 0 < x i) :
    ahead s prefers x i = ahead s prefers room i :=
  sum_congr rfl fun j hj => h.full i hi hpos j (mem_filter.mp hj).1 (mem_filter.mp hj).2

/-- Behind a place with room nothing is filled. -/
theorem Filled.behind_eq_zero (h : Filled s prefers room x) (hi : i ∈ s) (hlt : x i < room i) :
    ∑ j ∈ s with prefers i j, x j = 0 := by
  refine sum_eq_zero fun j hj => ?_
  obtain ⟨hj, hij⟩ := mem_filter.mp hj
  by_contra hne
  have hfull := h.full j hj (Nat.pos_of_ne_zero hne) i hi hij
  omega

variable [DecidableEq ι]

/-- What is filled, cut at a place: the places preferred to it, the place
itself and the places it is preferred to. -/
theorem sum_eq_ahead_add (x : ι → ℕ) (hi : i ∈ s)
    (htotal : ∀ j ∈ s, j ≠ i → prefers j i ∨ prefers i j)
    (hasymm : ∀ j ∈ s, prefers j i → ¬ prefers i j) :
    ∑ j ∈ s, x j = ahead s prefers x i + x i + ∑ j ∈ s with prefers i j, x j := by
  have hirrefl : ¬ prefers i i := fun hii => hasymm i hi hii hii
  have hsplit := sum_filter_add_sum_filter_not s (fun j => prefers j i) x
  have hrest : (s.filter fun j => ¬ prefers j i) = insert i (s.filter fun j => prefers i j) := by
    ext j
    simp only [mem_filter, mem_insert]
    constructor
    · rintro ⟨hj, hnot⟩
      by_cases hji : j = i
      · exact .inl hji
      · exact .inr ⟨hj, (htotal j hj hji).resolve_left hnot⟩
    · rintro (rfl | ⟨hj, hij⟩)
      · exact ⟨hi, hirrefl⟩
      · exact ⟨hj, fun hji => hasymm j hj hji hij⟩
  have hnotin : i ∉ s.filter fun j => prefers i j := fun hmem => hirrefl (mem_filter.mp hmem).2
  rw [hrest, sum_insert hnotin] at hsplit
  unfold ahead
  omega

variable (htotal : ∀ i ∈ s, ∀ j ∈ s, j ≠ i → prefers j i ∨ prefers i j)
  (hasymm : ∀ i ∈ s, ∀ j ∈ s, prefers j i → ¬ prefers i j)

include htotal hasymm

variable (h : Filled s prefers room x) (hi : i ∈ s) (hroom : 0 < room i)
include h hi hroom

/-- **A place has units** when the places preferred to it do not take them
all. -/
theorem Filled.pos_iff : 0 < x i ↔ ahead s prefers room i < ∑ j ∈ s, x j := by
  have hsum := sum_eq_ahead_add x hi (htotal i hi) (hasymm i hi)
  constructor
  · intro hpos
    have hahead := h.ahead_eq hi hpos
    omega
  · intro hlt
    by_contra hzero
    have hbehind := h.behind_eq_zero hi (by omega)
    have hahead : ahead s prefers x i ≤ ahead s prefers room i := h.ahead_le
    omega

/-- **A place has room left** when the units end before it is full. -/
theorem Filled.lt_iff : x i < room i ↔ ∑ j ∈ s, x j < ahead s prefers room i + room i := by
  have hsum := sum_eq_ahead_add x hi (htotal i hi) (hasymm i hi)
  constructor
  · intro hlt
    have hbehind := h.behind_eq_zero hi hlt
    have hahead : ahead s prefers x i ≤ ahead s prefers room i := h.ahead_le
    omega
  · intro hlt
    by_contra hfull
    have hahead := h.ahead_eq hi (by omega)
    omega

end

end Greedy

/-!
## Tallies

A list of numbers is read as a count for each place, with 0 past its end.
One place is counted up or down at a time.
-/

namespace Tally

variable {counts : List ℕ} {i j : ℕ}

theorem getD_modify (f : ℕ → ℕ) (hi : i < counts.length) (j : ℕ) :
    (counts.modify i f).getD j 0 = if j = i then f (counts.getD i 0) else counts.getD j 0 := by
  simp only [List.getD_eq_getElem?_getD, List.getElem?_modify]
  by_cases hij : j = i
  · subst hij
    simp [hi]
  · have hne : i ≠ j := fun h => hij h.symm
    cases counts[j]? <;> simp [hij, hne]

theorem getD_le_modify_succ (counts : List ℕ) (i j : ℕ) :
    counts.getD j 0 ≤ (counts.modify i (· + 1)).getD j 0 := by
  by_cases hi : i < counts.length
  · rw [getD_modify _ hi]
    split
    · rename_i hji
      subst hji
      exact Nat.le_succ _
    · exact le_rfl
  · rw [List.modify_eq_self (Nat.not_lt.mp hi)]

/-- The total is the sum over the places. -/
theorem sum_eq_sum_range (counts : List ℕ) :
    counts.sum = ∑ j ∈ Finset.range counts.length, counts.getD j 0 := by
  induction counts with
  | nil => rfl
  | cons c counts ih =>
    rw [List.length_cons, Finset.sum_range_succ', List.sum_cons, ih]
    simp only [List.getD_cons_succ, List.getD_cons_zero]
    omega

theorem lt_length_of_pos (h : 0 < counts.getD i 0) : i < counts.length := by
  by_contra hlen
  rw [List.getD_eq_default _ _ (Nat.not_lt.mp hlen)] at h
  exact Nat.lt_irrefl 0 h

/-- One more. -/
theorem sum_modify_succ (hi : i < counts.length) :
    (counts.modify i (· + 1)).sum = counts.sum + 1 := by
  induction counts generalizing i with
  | nil => exact absurd hi (Nat.not_lt_zero _)
  | cons c counts ih =>
    cases i with
    | zero =>
      rw [List.modify_zero_cons, List.sum_cons, List.sum_cons]
      omega
    | succ i =>
      have hi' : i < counts.length := Nat.lt_of_succ_lt_succ hi
      rw [List.modify_succ_cons, List.sum_cons, List.sum_cons, ih hi']
      omega

/-- One less. -/
theorem sum_modify_pred (h : 0 < counts.getD i 0) :
    (counts.modify i (· - 1)).sum + 1 = counts.sum := by
  induction counts generalizing i with
  | nil => exact absurd h (by simp)
  | cons c counts ih =>
    cases i with
    | zero =>
      rw [List.modify_zero_cons, List.sum_cons, List.sum_cons]
      rw [List.getD_cons_zero] at h
      omega
    | succ i =>
      rw [List.getD_cons_succ] at h
      have hsum := ih h
      rw [List.modify_succ_cons, List.sum_cons, List.sum_cons]
      omega

end Tally
