import Fracture.Common.Rows
import Mathlib.Data.List.Nodup
import Mathlib.Logic.Function.Basic

/-!
# Page tables

A logical list of rows kept in fixed-size pages: a table names the pages
in logical order, and index `t` is found in page `table[t / P]` at
offset `t % P`. The store maps page names to their rows; two lists kept
through disjoint tables share a store without seeing each other.

`read` is the address map, `write` lays rows down one index after
another, and `Holds` says that reading the first indices gives a certain
list of rows. What turns every later argument is `Holds.append`: writing
right behind the rows a table holds gives a table that holds both, as
long as the table names no page twice and is long enough.
-/

namespace Paging

open Rows

variable {α : Type*} {ι : Type*}

section

variable (P : ℕ) (table : List ι) (store : ι → List α) (rows : List α)

/-- The row at logical index `t`: offset `t % P` of page `table[t / P]`. -/
def read (t : ℕ) : Option α :=
  (table[t / P]?).bind fun b => (store b)[t % P]?

/-- The first `n` indices read `rows`, in order. -/
def Holds : Prop :=
  ∀ t < rows.length, read P table store t = rows[t]?

/-- The rows a reader of the first `n` indices gets. -/
def gather (n : ℕ) : List (Option α) :=
  (List.range n).map (read P table store)

/-- Page `p` of a list cut into pages of `P` rows. -/
def chunk (p : ℕ) : List α := window rows (P * p) P

end

section Write

variable [DecidableEq ι]

/-- Overwrite the row at logical index `t`. -/
def put (P : ℕ) (table : List ι) (store : ι → List α) (t : ℕ) (x : α) : ι → List α :=
  match table[t / P]? with
  | some b => Function.update store b ((store b).set (t % P) x)
  | none => store

/-- Overwrite the rows from logical index `t` on. -/
def write (P : ℕ) (table : List ι) : (ι → List α) → ℕ → List α → (ι → List α)
  | store, _, [] => store
  | store, t, x :: xs => write P table (put P table store t x) (t + 1) xs

end Write

/-- A table that can be written: it names no page twice, and each page
it names has `P` rows. -/
structure Writable (P : ℕ) (table : List ι) (store : ι → List α) : Prop where
  /-- Pages have room. -/
  pos : 0 < P
  /-- No page is named twice. -/
  nodup : table.Nodup
  /-- Every named page has `P` rows. -/
  page_length : ∀ b ∈ table, (store b).length = P

/-! ## Reading -/

variable {P : ℕ} {table : List ι} {store : ι → List α}

/-- Reading looks at the pages of the table only. -/
theorem read_congr {store' : ι → List α} (h : ∀ b ∈ table, store' b = store b) (t : ℕ) :
    read P table store' t = read P table store t := by
  unfold read
  cases hb : table[t / P]? with
  | none => rfl
  | some b => simp only [Option.bind_some, h b (List.mem_of_getElem? hb)]

variable {t : ℕ}

/-- Pages added at the end of the table do not move an index that was readable. -/
theorem read_append_left {more : List ι} {x : α} (h : read P table store t = some x) :
    read P (table ++ more) store t = some x := by
  unfold read at h ⊢
  obtain ⟨b, hb, hx⟩ := Option.bind_eq_some_iff.1 h
  have hlt : t / P < table.length := (List.getElem?_eq_some_iff.1 hb).1
  rw [List.getElem?_append_left hlt, hb]
  exact hx

/-- An index below the table's room is readable. -/
theorem exists_page (h : t < P * table.length) : ∃ b, table[t / P]? = some b ∧ b ∈ table := by
  have hlt : t / P < table.length := Nat.div_lt_of_lt_mul h
  exact ⟨table[t / P], List.getElem?_eq_getElem hlt, List.getElem_mem hlt⟩

theorem exists_read (hP : 0 < P) (hpage : ∀ b ∈ table, (store b).length = P)
    (h : t < P * table.length) : ∃ x, read P table store t = some x := by
  obtain ⟨b, hb, hmem⟩ := exists_page h
  have hlt : t % P < (store b).length := by
    rw [hpage b hmem]
    exact Nat.mod_lt t hP
  exact ⟨(store b)[t % P], by simp [read, hb, hlt]⟩

/-! ## One row -/

section Write

variable [DecidableEq ι]

@[simp] theorem length_put (P : ℕ) (table : List ι) (store : ι → List α) (t : ℕ) (x : α) (b : ι) :
    (put P table store t x b).length = (store b).length := by
  unfold put
  cases table[t / P]? with
  | none => rfl
  | some c =>
    by_cases hbc : b = c
    · subst hbc
      simp
    · simp [hbc]

variable {P t : ℕ} {table : List ι} {store : ι → List α}

/-- The written index reads the row written. -/
theorem read_put_self (hw : Writable P table store) (ht : t < P * table.length) (x : α) :
    read P table (put P table store t x) t = some x := by
  obtain ⟨b, hb, hmem⟩ := exists_page ht
  have hlt : t % P < (store b).length := by
    rw [hw.page_length b hmem]
    exact Nat.mod_lt _ hw.pos
  simp [read, put, hb, hlt]

/-- Every other index reads what it read: two indices that share a page
differ in their offset, since no page is named twice. -/
theorem read_put_ne (hnd : table.Nodup) {u : ℕ} (hne : u ≠ t) (x : α) :
    read P table (put P table store t x) u = read P table store u := by
  unfold read put
  cases ht : table[t / P]? with
  | none => rfl
  | some b =>
    cases hu : table[u / P]? with
    | none => rfl
    | some c =>
      by_cases hcb : c = b
      · subst hcb
        have hdiv : u / P = t / P := by
          obtain ⟨hu', hue⟩ := List.getElem?_eq_some_iff.1 hu
          obtain ⟨ht', hte⟩ := List.getElem?_eq_some_iff.1 ht
          exact (hnd.getElem_inj_iff).1 (hue.trans hte.symm)
        have hmod : t % P ≠ u % P := by
          intro hmod
          apply hne
          rw [← Nat.div_add_mod u P, ← Nat.div_add_mod t P, hdiv, hmod]
        simp [List.getElem?_set_ne hmod]
      · simp [hcb]

/-! ## Many rows -/

section

variable (P) (table : List ι) (store : ι → List α) (t : ℕ) (xs : List α)

@[simp] theorem length_write (b : ι) : (write P table store t xs b).length = (store b).length := by
  induction xs generalizing store t with
  | nil => rfl
  | cons x xs ih => rw [write, ih, length_put]

theorem write_append (ys : List α) :
    write P table store t (xs ++ ys) =
      write P table (write P table store t xs) (t + xs.length) ys := by
  induction xs generalizing store t with
  | nil => rfl
  | cons x xs ih =>
    rw [List.cons_append, write, ih, write, List.length_cons]
    congr 1
    omega

end

namespace Writable

/-- Writing keeps a table writable, since no page changes its length. -/
theorem put (hw : Writable P table store) (t : ℕ) (x : α) :
    Writable P table (Paging.put P table store t x) :=
  ⟨hw.pos, hw.nodup, fun b hb => by rw [length_put, hw.page_length b hb]⟩

end Writable

variable {xs : List α}

/-- Reading after a write: the new rows on the written indices, the old ones elsewhere. -/
theorem read_write (hw : Writable P table store) (hroom : t + xs.length ≤ P * table.length) (u : ℕ) :
    read P table (write P table store t xs) u =
      if t ≤ u ∧ u < t + xs.length then xs[u - t]? else read P table store u := by
  induction xs generalizing store t with
  | nil =>
    rw [if_neg (by simp only [List.length_nil]; omega)]
    rfl
  | cons x xs ih =>
    rw [List.length_cons] at hroom
    rw [write, ih (hw.put t x) (by omega), List.length_cons]
    by_cases hut : u = t
    · subst hut
      rw [if_neg (by omega), if_pos (by omega), read_put_self hw (by omega)]
      simp
    · rw [read_put_ne hw.nodup hut]
      by_cases hin : t + 1 ≤ u ∧ u < t + 1 + xs.length
      · rw [if_pos hin, if_pos (by omega)]
        have hsub : u - t = u - (t + 1) + 1 := by omega
        rw [hsub, List.getElem?_cons_succ]
      · rw [if_neg hin, if_neg (by omega)]

/-- A write that stays inside one page is an overwrite of that page. -/
theorem write_eq_update {b : ι} (hP : 0 < P) (hb : table[t / P]? = some b)
    (hfit : t % P + xs.length ≤ P) (hlen : (store b).length = P) :
    write P table store t xs = Function.update store b (overwrite (store b) (t % P) xs) := by
  induction xs generalizing store t with
  | nil => simp [write]
  | cons x xs ih =>
    rw [List.length_cons] at hfit
    have hput : put P table store t x = Function.update store b ((store b).set (t % P) x) := by
      simp [put, hb]
    have hset := overwrite_set_succ (show t % P < (store b).length by omega) x xs
    rw [write, hput]
    cases xs with
    | nil =>
      rw [overwrite_nil] at hset
      rw [write, hset]
    | cons y ys =>
      -- more rows follow, so the next index is still in this page
      rw [List.length_cons] at hfit
      have hlt : t % P + 1 < P := by omega
      have hmod : (t + 1) % P = t % P + 1 := by
        rw [Nat.add_mod, Nat.mod_eq_of_lt (a := 1) (by omega), Nat.mod_eq_of_lt hlt]
      have hdiv : (t + 1) / P = t / P := by
        rw [Nat.add_div hP, Nat.mod_eq_of_lt (a := 1) (by omega), Nat.div_eq_of_lt (a := 1) (by omega),
          if_neg (by omega)]
        rfl
      rw [ih (by rw [hdiv, hb]) (by rw [hmod, List.length_cons]; omega) (by simp [hlen]), hmod]
      simp only [Function.update_self, Function.update_idem]
      rw [hset]

end Write

/-! ## Holding a list of rows -/

namespace Holds

variable {P : ℕ} {table : List ι} {store : ι → List α} {rows : List α}

theorem nil : Holds P table store [] := fun _ ht => absurd ht (Nat.not_lt_zero _)

/-- Whatever is readable is held. -/
theorem of_read {n : ℕ} (h : ∀ t < n, ∃ x, Paging.read P table store t = some x) :
    ((List.range n).filterMap (Paging.read P table store)).length = n ∧
      Holds P table store ((List.range n).filterMap (Paging.read P table store)) := by
  induction n with
  | zero => exact ⟨rfl, nil⟩
  | succ n ih =>
    obtain ⟨hlen, hholds⟩ := ih fun t ht => h t (by omega)
    obtain ⟨x, hx⟩ := h n (Nat.lt_succ_self n)
    rw [List.range_succ, List.filterMap_append, List.filterMap_cons_some hx, List.filterMap_nil]
    refine ⟨by rw [List.length_append, hlen, List.length_singleton], fun t ht => ?_⟩
    rw [List.length_append, hlen, List.length_singleton] at ht
    by_cases htn : t < n
    · rw [hholds t (by omega), List.getElem?_append_left (by omega)]
    · obtain rfl : t = n := by omega
      rw [hx, List.getElem?_append_right (by omega), hlen, Nat.sub_self]
      rfl

/-- A list cut into pages is held by the pages in order. -/
theorem chunk (hP : 0 < P) (rows : List α) :
    Holds P (List.range rows.length) (Paging.chunk P rows) rows := by
  intro t ht
  have hpage : t / P < rows.length := Nat.lt_of_le_of_lt (Nat.div_le_self t P) ht
  have hrow : P * (t / P) + t % P = t := Nat.div_add_mod t P
  rw [Paging.read, List.getElem?_range hpage, Option.bind_some, Paging.chunk, window,
    List.getElem?_take_of_lt (Nat.mod_lt t hP), List.getElem?_drop, hrow]

variable (h : Holds P table store rows)
include h

theorem read (ht : t < rows.length) :
    Paging.read P table store t = some rows[t] := by
  rw [h t ht, List.getElem?_eq_getElem ht]

/-- Only the pages of the table matter. -/
theorem congr {store' : ι → List α} (heq : ∀ b ∈ table, store' b = store b) :
    Holds P table store' rows := by
  intro t ht
  rw [read_congr heq, h t ht]

/-- Pages added at the end do not move rows already held. -/
theorem append_table (more : List ι) : Holds P (table ++ more) store rows := by
  intro t ht
  rw [List.getElem?_eq_getElem ht]
  exact read_append_left (h.read ht)

/-- **Writing behind the rows held extends them.** -/
theorem append [DecidableEq ι] (hw : Writable P table store) {new : List α}
    (hroom : rows.length + new.length ≤ P * table.length) :
    Holds P table (write P table store rows.length new) (rows ++ new) := by
  intro t ht
  rw [List.length_append] at ht
  rw [read_write hw hroom]
  by_cases hold : t < rows.length
  · rw [if_neg (by omega), h t hold, List.getElem?_append_left hold]
  · rw [if_pos (by omega), List.getElem?_append_right (by omega)]

/-- A reader of the indices held gathers exactly the rows. -/
theorem gather_eq : gather P table store rows.length = rows.map some := by
  apply List.ext_getElem
  · simp [gather]
  · intro t ht _
    have ht' : t < rows.length := by simpa [gather] using ht
    simp [gather, h.read ht']

end Holds

end Paging
