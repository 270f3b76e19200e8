import Fracture.Core.Usize
import Mathlib.Data.List.Induction

/-!
# The request log

The dashboard keeps the last thousand completed requests, newest first, and
shows them in pages. Where a page starts is a product of two numbers, and the
page number is the client's.
-/

namespace Fracture

open Effect

def maxRecords : ℕ := 1000

structure RequestsResponse (R : Type) where
  requests : List R
  total : ℕ
  page : ℕ
  perPage : ℕ
deriving DecidableEq

/-- The records, newest first. -/
structure RequestLog (R : Type) where
  inner : List R

namespace RequestLog

variable {R : Type}

def new : RequestLog R := ⟨[]⟩

def push (log : RequestLog R) (record : R) : RequestLog R :=
  ⟨record :: if maxRecords ≤ log.inner.length then log.inner.dropLast else log.inner⟩

/-- `per_page.clamp(1, 100)`. -/
def clampPerPage (perPage : ℕ) : ℕ := min (max perPage 1) 100

/-- A page of records, counted from 1, and the number of all. -/
def page (log : RequestLog R) (build : Build) (page perPage : ℕ) :
    Except Fault (RequestsResponse R) := do
  let total := log.inner.length
  let page := max page 1
  let perPage := clampPerPage perPage
  let start ← build.mul (page - 1) perPage
  .ok { requests := (log.inner.drop start).take perPage, total, page, perPage }

/-! ## Pages of what was pushed -/

/-- The records a log should have: the last of those pushed, newest first. -/
def recent (records : List R) : List R := records.reverse.take maxRecords

theorem inner_foldl_push (records : List R) : (records.foldl push new).inner = recent records := by
  induction records using List.reverseRecOn with
  | nil => rfl
  | append_singleton records record ih =>
    rw [List.foldl_append, List.foldl_cons, List.foldl_nil, push, ih, recent, recent,
      List.reverse_append, List.reverse_singleton, List.singleton_append, maxRecords,
      List.take_succ_cons]
    split
    case isTrue hfull =>
      rw [List.length_take] at hfull
      have hone : min (min 1000 records.reverse.length - 1) 1000 = 999 := by omega
      rw [List.dropLast_eq_take, List.take_take, List.length_take, hone]
    case isFalse hroom =>
      rw [List.length_take] at hroom
      rw [List.take_of_length_le (by omega), List.take_of_length_le (by omega)]

theorem flatMap_pages (records : List R) (w n : ℕ) :
    ((List.range' 1 n).flatMap fun p => (records.drop ((p - 1) * w)).take w)
      = records.take (n * w) := by
  induction n with
  | zero => simp
  | succ n ih =>
    rw [List.range'_1_concat, List.flatMap_append, ih, List.flatMap_singleton, Nat.add_sub_cancel_left,
      Nat.succ_mul, List.take_add]

variable {log : RequestLog R} {build : Build} {n perPage : ℕ}

/-- The answer for a page whose start is not wrapped around. -/
def shown (log : RequestLog R) (perPage n : ℕ) : RequestsResponse R where
  requests := (log.inner.drop ((n - 1) * clampPerPage perPage)).take (clampPerPage perPage)
  total := log.inner.length
  page := max n 1
  perPage := clampPerPage perPage

theorem page_of_fits (h : (n - 1) * clampPerPage perPage < 2 ^ 64) :
    log.page build n perPage = .ok (log.shown perPage n) := by
  have hstart : max n 1 - 1 = n - 1 := by omega
  rw [page, hstart, Build.mul_of_lt h, except_ok_bind, shown]

/-- **Paging through the log.** After any pushes, the pages up to a number
return and are together the records the log should have, so far as they
reach, each with their number, exactly if the start of the last one fits
into a word. -/
theorem pages_iff_fits (records : List R) (n perPage : ℕ) :
    (∀ build, ∃ before last,
      (List.range' 1 (n - 1)).mapM ((records.foldl push new).page build · perPage) = .ok before ∧
      (records.foldl push new).page build n perPage = .ok last ∧
      (before ++ [last]).flatMap (·.requests)
        = (recent records).take (max n 1 * clampPerPage perPage) ∧
      ∀ r ∈ before ++ [last], r.total = (recent records).length)
    ↔ (n - 1) * clampPerPage perPage < 2 ^ 64 := by
  constructor
  · intro h
    obtain ⟨-, last, -, hlast, -⟩ := h .debug
    obtain ⟨start, hstart, -⟩ := except_bind_eq_ok.1 hlast
    have hfits := (Build.debug_mul_eq_ok.1 hstart).1
    rwa [show max n 1 - 1 = n - 1 by omega] at hfits
  · intro hfits build
    have hbefore : ∀ p ∈ List.range' 1 (n - 1), (records.foldl push new).page build p perPage
        = .ok ((records.foldl push new).shown perPage p) := by
      intro p hp
      have hle : p - 1 ≤ n - 1 := by
        have := List.mem_range'_1.1 hp
        omega
      exact page_of_fits (Nat.lt_of_le_of_lt (Nat.mul_le_mul_right _ hle) hfits)
    refine ⟨_, _, except_mapM_ok hbefore, page_of_fits hfits, ?_, ?_⟩
    · have hcount : n - 1 + 1 = max n 1 := by omega
      rw [List.flatMap_append, List.flatMap_map, List.flatMap_singleton]
      simp only [shown, inner_foldl_push]
      rw [flatMap_pages, ← List.take_add, ← Nat.succ_mul, Nat.succ_eq_add_one, hcount]
    · rw [← inner_foldl_push]
      simp only [List.mem_append, List.mem_map, List.mem_singleton]
      rintro r (⟨p, -, rfl⟩ | rfl) <;> rfl

/-- Page numbers of the client's that do not fit: an error in a debug build,
the first page once more in a release build. -/
theorem page_wraps :
    (new.push 7).page .debug (2 ^ 62 + 1) 100 = .error (.panicked .multiplyOverflow) ∧
      (new.push 7).page .release (2 ^ 62 + 1) 100 = .ok ⟨[7], 1, 2 ^ 62 + 1, 100⟩ := by
  decide +kernel

end RequestLog

end Fracture
