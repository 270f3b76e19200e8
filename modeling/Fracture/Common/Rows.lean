import Mathlib.Data.List.Forall2

/-!
# Windows of a list of rows

A tensor whose leading dimension counts rows is a list of rows, and the
one way a row range is moved between two such tensors is to read a
window of the source and lay it over a window of the destination. This
file has the two operations and what a reader of the result sees: inside
the window the new rows, outside it the old ones.
-/

namespace Rows

variable {α : Type*}

/-- The `n` rows of `xs` from row `off` on. -/
def window (xs : List α) (off n : ℕ) : List α :=
  (xs.drop off).take n

/-- `xs` with the rows from `off` on replaced by `ys`. -/
def overwrite (xs : List α) (off : ℕ) (ys : List α) : List α :=
  xs.take off ++ ys ++ xs.drop (off + ys.length)

/-- The rows of `w` elements that a flat list has one behind the other. -/
def rowsOf (w n : ℕ) (xs : List α) : List (List α) :=
  (List.range n).map fun r => window xs (r * w) w

/-! ## Windows -/

variable {xs : List α} {n off : ℕ}

/-- A window inside the list has exactly the rows asked for. -/
theorem length_window (h : off + n ≤ xs.length) : (window xs off n).length = n := by
  simp only [window, List.length_take, List.length_drop]
  omega

@[simp] theorem window_zero_length (xs : List α) : window xs 0 xs.length = xs := by
  simp [window]

/-- A window splits at any row inside it. -/
theorem window_add (xs : List α) (off m n : ℕ) :
    window xs off (m + n) = window xs off m ++ window xs (off + m) n := by
  simp only [window]
  rw [List.take_add, List.drop_drop]

/-- A window inside the first part of a concatenation. -/
theorem window_append_left (h : off + n ≤ xs.length) (ys : List α) :
    window (xs ++ ys) off n = window xs off n := by
  rw [window, window, List.drop_append_of_le_length (by omega),
    List.take_append_of_le_length (by rw [List.length_drop]; omega)]

/-- A window inside the second part of a concatenation. -/
theorem window_append_right (xs ys : List α) (off n : ℕ) :
    window (xs ++ ys) (off + xs.length) n = window ys off n := by
  rw [window, window, Nat.add_comm, ← List.drop_drop, List.drop_left]

/-- The second of three parts. -/
theorem window_middle (xs ys zs : List α) :
    window (xs ++ (ys ++ zs)) xs.length ys.length = ys := by
  have hright := window_append_right xs (ys ++ zs) 0 ys.length
  rw [Nat.zero_add] at hright
  rw [hright, window_append_left (by omega), window_zero_length]

/-! ## Equal pieces laid one behind the other -/

variable {pieces : List (List α)}

theorem length_flatten_of_length_eq (h : ∀ piece ∈ pieces, piece.length = n) :
    pieces.flatten.length = pieces.length * n := by
  induction pieces with
  | nil => simp
  | cons piece pieces ih =>
    rw [List.flatten_cons, List.length_append, h piece List.mem_cons_self,
      ih (List.forall_mem_cons.1 h).2, List.length_cons,
      Nat.succ_mul, Nat.add_comm]

/-- A piece is found by its number. -/
theorem window_flatten (h : ∀ piece ∈ pieces, piece.length = n) {i : ℕ} {piece : List α}
    (hi : pieces[i]? = some piece) : window pieces.flatten (i * n) n = piece := by
  induction pieces generalizing i with
  | nil => cases hi
  | cons first pieces ih =>
    have hlen := h first List.mem_cons_self
    rw [List.flatten_cons]
    cases i with
    | zero =>
      cases hi
      rw [Nat.zero_mul, window_append_left (by omega), ← hlen, window_zero_length]
    | succ i =>
      rw [Nat.succ_mul, ← hlen, window_append_right, hlen]
      exact ih (List.forall_mem_cons.1 h).2 hi

/-! ## Overwriting -/

variable {ys : List α}

/-- Laying rows over a window inside the list keeps the list's length. -/
theorem length_overwrite (h : off + ys.length ≤ xs.length) :
    (overwrite xs off ys).length = xs.length := by
  simp only [overwrite, List.length_append, List.length_take, List.length_drop]
  omega

@[simp] theorem overwrite_nil (xs : List α) (off : ℕ) : overwrite xs off [] = xs := by
  simp [overwrite]

/-- Replacing every row leaves only the new rows. -/
theorem overwrite_zero_of_length_eq (h : ys.length = xs.length) : overwrite xs 0 ys = ys := by
  simp [overwrite, h]

/-- Rows laid behind the rows a list starts with. -/
theorem prefix_overwrite {zs : List α} (h : xs <+: zs) :
    xs ++ ys <+: overwrite zs xs.length ys := by
  rw [overwrite, ← List.prefix_iff_eq_take.1 h]
  exact List.prefix_append _ _

/-- Overwriting row by row: the first row by `set`, the rest after it. -/
theorem overwrite_set_succ (h : off < xs.length) (y : α) (ys : List α) :
    overwrite (xs.set off y) (off + 1) ys = overwrite xs off (y :: ys) := by
  have htake : (xs.set off y).take (off + 1) = xs.take off ++ [y] := by
    rw [List.take_succ_eq_append_getElem (by simpa using h), List.take_set_of_le (by omega)]
    simp
  have hdrop : (xs.set off y).drop (off + 1 + ys.length) = xs.drop (off + (ys.length + 1)) := by
    rw [List.drop_set_of_lt (by omega)]
    congr 1
    omega
  simp [overwrite, htake, hdrop]

/-- Read back, the window holds the rows that were laid over it. -/
theorem window_overwrite_self (h : off ≤ xs.length) :
    window (overwrite xs off ys) off ys.length = ys := by
  have hfront : (xs.take off).length = off := List.length_take_of_le h
  rw [window, overwrite, List.append_assoc]
  nth_rewrite 1 [← hfront]
  rw [List.drop_left, List.take_left]

/-- A window in front of the rows laid is unchanged. -/
theorem window_overwrite_of_le {off' : ℕ} (hoff : off ≤ xs.length) (h : off' + n ≤ off) :
    window (overwrite xs off ys) off' n = window xs off' n := by
  have hfront : (xs.take off).length = off := List.length_take_of_le hoff
  rw [overwrite, List.append_assoc, window_append_left (by omega), window, window, List.drop_take,
    List.take_take, Nat.min_eq_left (by omega)]

/-- A window behind the rows laid is unchanged. -/
theorem window_overwrite_of_ge {off' : ℕ} (hoff : off ≤ xs.length) (h : off + ys.length ≤ off') :
    window (overwrite xs off ys) off' n = window xs off' n := by
  have hfront : (xs.take off ++ ys).length = off + ys.length := by
    rw [List.length_append, List.length_take_of_le hoff]
  obtain ⟨gap, rfl⟩ := Nat.exists_eq_add_of_le h
  rw [overwrite, Nat.add_comm _ gap, ← hfront, window_append_right, hfront, window, window,
    List.drop_drop, Nat.add_comm gap]

/-- Reading one row of the result. -/
theorem getElem?_overwrite (h : off + ys.length ≤ xs.length) (r : ℕ) :
    (overwrite xs off ys)[r]? =
      if off ≤ r ∧ r < off + ys.length then ys[r - off]? else xs[r]? := by
  have hfront : (xs.take off).length = off := List.length_take_of_le (by omega)
  rw [overwrite, List.append_assoc]
  rcases Nat.lt_or_ge r off with hlt | hge
  · rw [List.getElem?_append_left (by omega), List.getElem?_take_of_lt hlt, if_neg (by omega)]
  · rw [List.getElem?_append_right (by omega), hfront]
    rcases Nat.lt_or_ge r (off + ys.length) with hin | hout
    · rw [List.getElem?_append_left (by omega), if_pos ⟨hge, hin⟩]
    · rw [List.getElem?_append_right (by omega), List.getElem?_drop, if_neg (by omega)]
      congr 1
      omega

/-- A window inside the rows laid reads them. -/
theorem window_overwrite_add {k : ℕ} (hoff : off ≤ xs.length) (h : k + n ≤ ys.length) :
    window (overwrite xs off ys) (off + k) n = window ys k n := by
  have hfront : (xs.take off).length = off := List.length_take_of_le hoff
  have hright := window_append_right (xs.take off) (ys ++ xs.drop (off + ys.length)) k n
  rw [hfront] at hright
  rw [overwrite, List.append_assoc, Nat.add_comm off k, hright, window_append_left h]

/-! ## Rows of a flat list -/

@[simp] theorem length_rowsOf (w n : ℕ) (xs : List α) : (rowsOf w n xs).length = n := by
  rw [rowsOf, List.length_map, List.length_range]

variable {w : ℕ}

theorem getElem?_rowsOf {r : ℕ} (h : r < n) (xs : List α) :
    (rowsOf w n xs)[r]? = some (window xs (r * w) w) := by
  rw [rowsOf, List.getElem?_map, List.getElem?_range h, Option.map_some]

theorem rowsOf_append_left (h : n * w ≤ xs.length) (ys : List α) :
    rowsOf w n (xs ++ ys) = rowsOf w n xs := by
  refine List.map_congr_left fun r hr => window_append_left ?_ ys
  rw [← Nat.succ_mul]
  exact Nat.le_trans (Nat.mul_le_mul_right w (List.mem_range.1 hr)) h

theorem getElem?_window {i : ℕ} (h : i < n) : (window xs off n)[i]? = xs[off + i]? := by
  rw [window, List.getElem?_take_of_lt h, List.getElem?_drop]

theorem window_window {k m : ℕ} (h : k + m ≤ n) :
    window (window xs off n) k m = window xs (off + k) m := by
  rw [window, window, window, List.drop_take, List.drop_drop, List.take_take,
    Nat.min_eq_left (by omega)]

/-- The rows of a window of whole rows. -/
theorem rowsOf_window {s count : ℕ} (h : s + count ≤ n) (xs : List α) :
    rowsOf w count (window xs (s * w) (count * w)) = window (rowsOf w n xs) s count := by
  apply List.ext_getElem?
  intro i
  rcases Nat.lt_or_ge i count with hlt | hge
  · have hin : i * w + w ≤ count * w := by
      rw [← Nat.succ_mul]
      exact Nat.mul_le_mul_right w hlt
    rw [getElem?_rowsOf hlt, getElem?_window hlt, getElem?_rowsOf (by omega), window_window hin,
      ← Nat.add_mul]
  · rw [List.getElem?_eq_none (by simpa using hge), List.getElem?_eq_none]
    rw [length_window (by simpa using h)]
    exact hge

/-- **Laying whole rows over a flat list** lays them over its rows. -/
theorem rowsOf_overwrite {d count : ℕ} (hxs : xs.length = n * w) (hys : ys.length = count * w)
    (h : d + count ≤ n) :
    rowsOf w n (overwrite xs (d * w) ys) = overwrite (rowsOf w n xs) d (rowsOf w count ys) := by
  have hoff : d * w ≤ xs.length := by
    rw [hxs]
    exact Nat.mul_le_mul_right w (by omega)
  have hrows : d + (rowsOf w count ys).length ≤ (rowsOf w n xs).length := by simpa using h
  apply List.ext_getElem?
  intro r
  rcases Nat.lt_or_ge r n with hlt | hge
  · rw [getElem?_rowsOf hlt, getElem?_overwrite hrows, length_rowsOf]
    rcases Nat.lt_or_ge r d with hbefore | hfrom
    · have hle : r * w + w ≤ d * w := by
        rw [← Nat.succ_mul]
        exact Nat.mul_le_mul_right w hbefore
      rw [if_neg (by omega), getElem?_rowsOf hlt, window_overwrite_of_le hoff hle]
    · rcases Nat.lt_or_ge r (d + count) with hin | hbehind
      · -- the row is the one at `r - d` of those laid
        obtain ⟨i, rfl⟩ := Nat.exists_eq_add_of_le hfrom
        have hle : i * w + w ≤ ys.length := by
          rw [hys, ← Nat.succ_mul]
          exact Nat.mul_le_mul_right w (by omega)
        rw [if_pos ⟨hfrom, hin⟩, Nat.add_sub_cancel_left, getElem?_rowsOf (by omega), Nat.add_mul,
          window_overwrite_add hoff hle]
      · have hle : d * w + ys.length ≤ r * w := by
          rw [hys, ← Nat.add_mul]
          exact Nat.mul_le_mul_right w hbehind
        rw [if_neg (by omega), getElem?_rowsOf hlt, window_overwrite_of_ge hoff hle]
  · rw [List.getElem?_eq_none (by simpa using hge), List.getElem?_eq_none]
    rw [length_overwrite hrows, length_rowsOf]
    exact hge

/-- Pieces of one length laid one behind the other are the rows. -/
theorem rowsOf_flatten (h : ∀ piece ∈ pieces, piece.length = w) :
    rowsOf w pieces.length pieces.flatten = pieces := by
  apply List.ext_getElem?
  intro i
  rcases Nat.lt_or_ge i pieces.length with hlt | hge
  · have hi : pieces[i]? = some pieces[i] := List.getElem?_eq_getElem hlt
    rw [getElem?_rowsOf hlt, hi, window_flatten h hi]
  · rw [List.getElem?_eq_none (by simpa using hge), List.getElem?_eq_none hge]

/-! ## Lists side by side -/

variable {β : Type*} {r : α → β → Prop} {ys : List β} (h : List.Forall₂ r xs ys)
include h

theorem getElem?_right {i : ℕ} {x : α} (hx : xs[i]? = some x) : ∃ y, ys[i]? = some y ∧ r x y := by
  obtain ⟨hi, rfl⟩ := List.getElem?_eq_some_iff.1 hx
  have hi' : i < ys.length := h.length_eq ▸ hi
  exact ⟨ys[i], List.getElem?_eq_getElem hi', h.get hi hi'⟩

theorem getElem?_left {i : ℕ} {y : β} (hy : ys[i]? = some y) : ∃ x, xs[i]? = some x ∧ r x y :=
  getElem?_right h.flip hy

theorem exists_right {x : α} (hx : x ∈ xs) : ∃ y ∈ ys, r x y := by
  obtain ⟨i, hi⟩ := List.mem_iff_getElem?.1 hx
  obtain ⟨y, hy, hr⟩ := getElem?_right h hi
  exact ⟨y, List.mem_of_getElem? hy, hr⟩

theorem exists_left {y : β} (hy : y ∈ ys) : ∃ x ∈ xs, r x y :=
  exists_right h.flip hy

/-- Two lists agree where their elements do. -/
theorem map_eq_map {γ : Type*} {f : α → γ} {g : β → γ} (hfg : ∀ x y, r x y → f x = g y) :
    xs.map f = ys.map g := by
  rw [← List.forall₂_eq_eq_eq, List.forall₂_map_left_iff, List.forall₂_map_right_iff]
  exact h.imp hfg

end Rows
