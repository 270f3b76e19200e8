import Mathlib.Algebra.Group.Nat.Defs
import Mathlib.Data.List.ProdSigma
import Mathlib.Data.List.Nodup

/-!
# Thread blocks

A kernel runs as a grid of blocks of threads. Between two barriers the
threads of a block each take every `threads`-th turn of a loop, in an order
the device chooses; the blocks of the grid run in an order the device
chooses too. Turns that write no common cell may be taken in any order, and
a tree of shuffles reduces the threads' values to one.
-/

namespace ThreadBlock

variable {ι C α : Type}

/-! ## Writes that do not meet -/

/-- What the turns of a loop write: a turn sets the cells it touches to a
value that depends on what the cell held, and no two turns touch one cell.
`Valid` are the turns the loop takes. -/
structure Writes (Valid : ι → Prop) (step : ι → (C → α) → C → α) (Touches : ι → C → Prop)
    (value : ι → C → α → α) : Prop where
  hit : ∀ t, Valid t → ∀ mem c, Touches t c → step t mem c = value t c (mem c)
  miss : ∀ t, Valid t → ∀ mem c, ¬ Touches t c → step t mem c = mem c
  apart : ∀ t, Valid t → ∀ t', Valid t' → ∀ c, Touches t c → Touches t' c → t = t'

section Writes

variable {Valid : ι → Prop} {step : ι → (C → α) → C → α} {Touches : ι → C → Prop}
  {value : ι → C → α → α} (h : Writes Valid step Touches value) {turns : List ι} {c : C}
include h

/-- A cell no turn touches keeps what it held. -/
theorem Writes.foldl_of_untouched (hvalid : ∀ t ∈ turns, Valid t) (hc : ∀ t ∈ turns, ¬ Touches t c)
    (mem : C → α) : turns.foldl (fun mem t => step t mem) mem c = mem c := by
  induction turns generalizing mem with
  | nil => rfl
  | cons t turns ih =>
    obtain ⟨htValid, hrestValid⟩ := List.forall_mem_cons.1 hvalid
    obtain ⟨htc, hrest⟩ := List.forall_mem_cons.1 hc
    rw [List.foldl_cons, ih hrestValid hrest, h.miss t htValid mem c htc]

/-- **Each touched cell is written once**, whatever the order of the turns. -/
theorem Writes.foldl_of_touched (hvalid : ∀ t ∈ turns, Valid t) (hturns : turns.Nodup) {t : ι}
    (ht : t ∈ turns) (hc : Touches t c) (mem : C → α) :
    turns.foldl (fun mem t => step t mem) mem c = value t c (mem c) := by
  induction turns generalizing mem with
  | nil => cases ht
  | cons head turns ih =>
    obtain ⟨hhead, hrest⟩ := List.nodup_cons.1 hturns
    obtain ⟨hheadValid, hrestValid⟩ := List.forall_mem_cons.1 hvalid
    rw [List.foldl_cons]
    rcases List.mem_cons.1 ht with rfl | htail
    · -- later turns are other turns, and so touch other cells
      have hlater : ∀ t' ∈ turns, ¬ Touches t' c := by
        intro t' ht' hc'
        have hsame := h.apart t hheadValid t' (hrestValid t' ht') c hc hc'
        exact hhead (hsame ▸ ht')
      rw [h.foldl_of_untouched hrestValid hlater, h.hit t hheadValid mem c hc]
    · have hmiss : ¬ Touches head c := by
        intro hc'
        have hsame := h.apart head hheadValid t (hrestValid t htail) c hc' hc
        exact hhead (hsame ▸ htail)
      rw [ih hrestValid hrest htail, h.miss head hheadValid mem c hmiss]

end Writes

/-- Each turn sets its own cell. -/
theorem writes_update [DecidableEq C] (Valid : ι → Prop) {addr : ι → C}
    (haddr : Function.Injective addr) (f : ι → α → α) :
    Writes Valid (fun t (mem : C → α) => Function.update mem (addr t) (f t (mem (addr t))))
      (fun t c => c = addr t) (fun t _ old => f t old) where
  hit := by
    rintro t - mem c rfl
    exact Function.update_self ..
  miss t _ mem c hc := Function.update_of_ne hc ..
  apart := by
    rintro t - t' - c rfl hc
    exact haddr hc

/-- Code that writes a vector: `vec` to the cells from `base`, and nothing
else. -/
structure WritesVector (code : (ℕ → α) → ℕ → α) (base width : ℕ) (vec : ℕ → α) : Prop where
  inside : ∀ mem, ∀ d < width, code mem (base + d) = vec d
  outside : ∀ mem c, (∀ d < width, c ≠ base + d) → code mem c = mem c

theorem WritesVector.congr {code : (ℕ → α) → ℕ → α} {base width : ℕ} {vec vec' : ℕ → α}
    (h : WritesVector code base width vec) (hvec : ∀ d < width, vec d = vec' d) :
    WritesVector code base width vec' where
  inside mem d hd := by rw [h.inside mem d hd, hvec d hd]
  outside := h.outside

/-! ## Phases -/

/-- The turns thread `tid` takes: `for (i = tid; i < n; i += threads)`. -/
def strided (threads n tid : ℕ) : List ℕ :=
  (List.range ((n - tid + threads - 1) / threads)).map fun k => tid + k * threads

variable {threads : ℕ}

/-- The loop ends at the first turn not below `n`. -/
theorem lt_ceilDiv_iff {m k : ℕ} (hthreads : 0 < threads) :
    k < (m + threads - 1) / threads ↔ k * threads < m := by
  rw [← Nat.succ_le_iff, Nat.le_div_iff_mul_le hthreads, Nat.succ_mul]
  omega

theorem mem_strided {n tid i : ℕ} (htid : tid < threads) :
    i ∈ strided threads n tid ↔ i < n ∧ i % threads = tid := by
  have hthreads : 0 < threads := Nat.zero_lt_of_lt htid
  simp only [strided, List.mem_map, List.mem_range, lt_ceilDiv_iff hthreads]
  constructor
  · rintro ⟨k, hk, rfl⟩
    refine ⟨by omega, ?_⟩
    rw [Nat.add_mul_mod_self_right, Nat.mod_eq_of_lt htid]
  · rintro ⟨hi, rfl⟩
    have hsplit := Nat.mod_add_div' i threads
    exact ⟨i / threads, by omega, hsplit⟩

/-- A thread's own loop sees the turns below `n` only. -/
theorem foldl_strided_congr {n tid : ℕ} (hthreads : 0 < threads) {f g : α → ℕ → α}
    (h : ∀ acc, ∀ i < n, f acc i = g acc i) (acc : α) :
    (strided threads n tid).foldl f acc = (strided threads n tid).foldl g acc := by
  refine List.foldl_ext _ _ _ fun acc i hi => h acc i ?_
  simp only [strided, List.mem_map, List.mem_range, lt_ceilDiv_iff hthreads] at hi
  obtain ⟨k, hk, rfl⟩ := hi
  omega

theorem nodup_strided {n tid : ℕ} (hthreads : 0 < threads) : (strided threads n tid).Nodup := by
  refine List.Nodup.map ?_ List.nodup_range
  intro k k' hk
  have hmul : k * threads = k' * threads := by
    have hk : tid + k * threads = tid + k' * threads := hk
    omega
  exact Nat.eq_of_mul_eq_mul_right hthreads hmul

/-- An order in which the threads of a block run what stands between two
barriers. -/
structure Schedule (threads : ℕ) where
  order : List ℕ
  perm : order.Perm (List.range threads)

namespace Schedule

variable {threads : ℕ}

section

variable (s : Schedule threads) (n : ℕ) (step : ℕ → (C → α) → C → α) (mem : C → α)

/-- All turns of the loop, in the order they are taken. -/
def turns : List ℕ := s.order.flatMap (strided threads n)

/-- A loop whose turns the threads share out. -/
def phase : C → α :=
  s.order.foldl (fun mem tid => (strided threads n tid).foldl (fun mem i => step i mem) mem) mem

theorem phase_eq :
    s.phase n step mem = (s.turns n).foldl (fun mem i => step i mem) mem := by
  rw [turns, List.foldl_flatMap, phase]

theorem lt_of_mem {tid : ℕ} (h : tid ∈ s.order) : tid < threads :=
  List.mem_range.1 ((s.perm.mem_iff).1 h)

theorem mem_turns (hthreads : 0 < threads) {n i : ℕ} :
    i ∈ s.turns n ↔ i < n := by
  rw [turns, List.mem_flatMap]
  constructor
  · rintro ⟨tid, htid, hi⟩
    exact ((mem_strided (s.lt_of_mem htid)).1 hi).1
  · intro hi
    have hlt : i % threads < threads := Nat.mod_lt i hthreads
    exact ⟨i % threads, s.perm.mem_iff.2 (List.mem_range.2 hlt), (mem_strided hlt).2 ⟨hi, rfl⟩⟩

theorem nodup_turns (hthreads : 0 < threads) (n : ℕ) :
    (s.turns n).Nodup := by
  refine List.nodup_flatMap.2 ⟨fun tid _ => nodup_strided hthreads, ?_⟩
  have horder : s.order.Nodup := s.perm.nodup_iff.2 List.nodup_range
  refine horder.imp_of_mem ?_
  intro tid tid' htid htid' hne i hi hi'
  -- a turn belongs to the thread of its remainder
  have h := ((mem_strided (s.lt_of_mem htid)).1 hi).2
  have h' := ((mem_strided (s.lt_of_mem htid')).1 hi').2
  exact hne (h ▸ h')

end

section Phase

variable {step : ℕ → (C → α) → C → α} {Touches : ℕ → C → Prop} {value : ℕ → C → α → α} {n i : ℕ}
  (s : Schedule threads) (hthreads : 0 < threads)
include hthreads

theorem phase_of_touched (h : Writes (· < n) step Touches value) (hi : i < n) {c : C}
    (hc : Touches i c) (mem : C → α) :
    s.phase n step mem c = value i c (mem c) := by
  rw [phase_eq]
  exact h.foldl_of_touched (fun i hi => (s.mem_turns hthreads).1 hi) (s.nodup_turns hthreads n)
    ((s.mem_turns hthreads).2 hi) hc mem

theorem phase_of_untouched (h : Writes (· < n) step Touches value) {c : C}
    (hc : ∀ i < n, ¬ Touches i c) (mem : C → α) :
    s.phase n step mem c = mem c := by
  rw [phase_eq]
  exact h.foldl_of_untouched (fun i hi => (s.mem_turns hthreads).1 hi)
    (fun i hi => hc i ((s.mem_turns hthreads).1 hi)) mem

/-- A phase whose turns each rewrite their own cell. -/
theorem phase_update (hi : i < n) (f : ℕ → α → α) (mem : ℕ → α) :
    s.phase n (fun i mem => Function.update mem i (f i (mem i))) mem i = f i (mem i) :=
  s.phase_of_touched hthreads (writes_update (· < n) Function.injective_id f) hi rfl mem

/-- A phase whose turns each set their own cell. -/
theorem phase_set (hi : i < n) (vals : ℕ → α) (mem : ℕ → α) : s.phase n
    (fun i mem => Function.update mem i (vals i)) mem i = vals i :=
  s.phase_update hthreads hi (fun i _ => vals i) mem

theorem phase_writesVector (base width : ℕ) (vec : ℕ → α) :
    WritesVector (s.phase width fun d mem => Function.update mem (base + d) (vec d)) base width
      vec where
  inside mem _ hd := s.phase_of_touched hthreads
    (writes_update (· < width) (add_right_injective base) fun d _ => vec d) hd rfl mem
  outside mem _ hc := s.phase_of_untouched hthreads
    (writes_update (· < width) (add_right_injective base) fun d _ => vec d) hc mem

end Phase

end Schedule

/-! ## Grids -/

/-- What the device decides of a launch: the order of the grid's blocks, the
order of each block's threads, and what a block's shared memory holds when
the block starts. -/
structure Execution (α : Type) (threads x y : ℕ) where
  blocks : List (ℕ × ℕ)
  perm : blocks.Perm (List.range x ×ˢ List.range y)
  schedule : ℕ → ℕ → Schedule threads
  shared : ℕ → ℕ → ℕ → α

namespace Execution

variable {threads x y : ℕ}

/-- Blocks and threads in the order of their indices, and shared memory that
holds `shared` in every cell. -/
def inOrder (threads x y : ℕ) (shared : α) : Execution α threads x y where
  blocks := List.range x ×ˢ List.range y
  perm := List.Perm.refl _
  schedule _ _ := ⟨List.range threads, List.Perm.refl _⟩
  shared _ _ _ := shared

/-- The blocks write to one memory. -/
def grid (e : Execution α threads x y) (block : ℕ → ℕ → (C → α) → C → α) (mem : C → α) : C → α :=
  e.blocks.foldl (fun mem b => block b.1 b.2 mem) mem

theorem mem_blocks (e : Execution α threads x y) {b : ℕ × ℕ} :
    b ∈ e.blocks ↔ b.1 < x ∧ b.2 < y := by
  rw [e.perm.mem_iff, List.mem_product, List.mem_range, List.mem_range]

theorem nodup_blocks (e : Execution α threads x y) : e.blocks.Nodup :=
  e.perm.nodup_iff.2 (List.nodup_range.product List.nodup_range)

section Grid

variable {block : ℕ → ℕ → (ℕ → α) → ℕ → α} {vec : ℕ → ℕ → ℕ → α} {width : ℕ}

theorem eq_of_mul_add_eq {w a a' d d' : ℕ} (hd : d < w) (hd' : d' < w)
    (h : a * w + d = a' * w + d') : a = a' ∧ d = d' := by
  have hw : 0 < w := Nat.zero_lt_of_lt hd
  have hquot : a = a' := by
    have hleft : (a * w + d) / w = a := by
      rw [Nat.mul_comm, Nat.mul_add_div hw, Nat.div_eq_of_lt hd, Nat.add_zero]
    have hright : (a' * w + d') / w = a' := by
      rw [Nat.mul_comm, Nat.mul_add_div hw, Nat.div_eq_of_lt hd', Nat.add_zero]
    rw [← hleft, h, hright]
  subst hquot
  exact ⟨rfl, by omega⟩

/-- Blocks that write vectors one behind the other write apart. -/
theorem writes_vectors
    (h : ∀ i < x, ∀ j < y, WritesVector (block i j) ((i * y + j) * width) width (vec i j)) :
    Writes (fun b : ℕ × ℕ => b.1 < x ∧ b.2 < y) (fun b => block b.1 b.2)
      (fun b c => ∃ d < width, c = (b.1 * y + b.2) * width + d)
      (fun b c _ => vec b.1 b.2 (c - (b.1 * y + b.2) * width)) where
  hit := by
    rintro b ⟨hi, hj⟩ mem c ⟨d, hd, rfl⟩
    rw [(h b.1 hi b.2 hj).inside mem d hd, Nat.add_sub_cancel_left]
  miss := by
    rintro b ⟨hi, hj⟩ mem c hc
    exact (h b.1 hi b.2 hj).outside mem c fun d hd hcd => hc ⟨d, hd, hcd⟩
  apart := by
    rintro ⟨i, j⟩ ⟨-, hj⟩ ⟨i', j'⟩ ⟨-, hj'⟩ c ⟨d, hd, rfl⟩ ⟨d', hd', hc⟩
    obtain ⟨hrow, -⟩ := eq_of_mul_add_eq hd hd' hc
    obtain ⟨rfl, rfl⟩ := eq_of_mul_add_eq hj hj' hrow
    rfl

section

variable (e : Execution α threads x y)
  (h : ∀ i < x, ∀ j < y, WritesVector (block i j) ((i * y + j) * width) width (vec i j))
include e h

/-- **What a grid of vectors writes.** -/
theorem grid_inside {i j d : ℕ} (hi : i < x) (hj : j < y) (hd : d < width) (mem : ℕ → α) :
    e.grid block mem ((i * y + j) * width + d) = vec i j d := by
  have hwritten := (writes_vectors h).foldl_of_touched (fun b hb => e.mem_blocks.1 hb)
    e.nodup_blocks (e.mem_blocks.2 (⟨hi, hj⟩ : (i, j).1 < x ∧ (i, j).2 < y)) ⟨d, hd, rfl⟩ mem
  rw [Nat.add_sub_cancel_left] at hwritten
  exact hwritten

theorem grid_outside {c : ℕ} (hc : ∀ i < x, ∀ j < y, ∀ d < width, c ≠ (i * y + j) * width + d)
    (mem : ℕ → α) :
    e.grid block mem c = mem c := by
  refine (writes_vectors h).foldl_of_untouched (fun b hb => e.mem_blocks.1 hb) ?_ mem
  rintro b hb ⟨d, hd, hcd⟩
  obtain ⟨hi, hj⟩ := e.mem_blocks.1 hb
  exact hc b.1 hi b.2 hj d hd hcd

end

/-- **Grids that write the same vectors** leave the same memory, whatever
the device decided of either. -/
theorem grid_eq_grid {block' : ℕ → ℕ → (ℕ → α) → ℕ → α} (e e' : Execution α threads x y)
    (vec : ℕ → ℕ → ℕ → α) (width : ℕ)
    (h : ∀ i < x, ∀ j < y, WritesVector (block i j) ((i * y + j) * width) width (vec i j))
    (h' : ∀ i < x, ∀ j < y, WritesVector (block' i j) ((i * y + j) * width) width (vec i j))
    (mem : ℕ → α) : e.grid block mem = e'.grid block' mem := by
  funext c
  by_cases hc : ∃ i < x, ∃ j < y, ∃ d < width, c = (i * y + j) * width + d
  · obtain ⟨i, hi, j, hj, d, hd, rfl⟩ := hc
    rw [e.grid_inside h hi hj hd, e'.grid_inside h' hi hj hd]
  · have hmiss : ∀ i < x, ∀ j < y, ∀ d < width, c ≠ (i * y + j) * width + d :=
      fun i hi j hj d hd hcd => hc ⟨i, hi, j, hj, d, hd, hcd⟩
    rw [e.grid_outside h hmiss, e'.grid_outside h' hmiss]

end Grid

end Execution

/-! ## Reductions -/

/-- A lane reads the register of the lane `offset` above it, and its own
where there is none. -/
def shflDown (lanes : ℕ) (reg : ℕ → α) (offset lane : ℕ) : α :=
  if lane + offset < lanes then reg (lane + offset) else reg lane

/-- The offsets of a warp of `2 ^ k` lanes: half its lanes, then half of
that, down to one. -/
def offsets : ℕ → List ℕ
  | 0 => []
  | k + 1 => 2 ^ k :: offsets k

/-- Every lane combines its register with the one `offset` above, offset
after offset. -/
def warpReduce (op : α → α → α) (lanes k : ℕ) (reg : ℕ → α) : ℕ → α :=
  (offsets k).foldl (fun reg offset lane => op (reg lane) (shflDown lanes reg offset lane)) reg

/-- Each warp reduces its threads' registers and its first lane stores the
result; the first warp then reduces what the warps stored, with `start` in
the lanes that have no warp. -/
def blockReduce (op : α → α → α) (start : α) (k warps : ℕ) (reg : ℕ → α) : α :=
  let stored := fun warp => warpReduce op (2 ^ k) k (fun lane => reg (warp * 2 ^ k + lane)) 0
  warpReduce op (2 ^ k) k (fun lane => if lane < warps then stored lane else start) 0

end ThreadBlock
