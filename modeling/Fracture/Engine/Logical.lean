import Fracture.Engine.Batched
import Fracture.PagedCache.Views

/-!
# The forward pass on logical caches

What a forward pass is for, without blocks and tables: a logical cache
maps a sequence and a layer to the key and value rows cached so far, a
layer extends them by the rows of the batch, and attention looks at the
extended rows. `runModel` is a pure function of the tokens, the
positions and the rows each sequence had before; every forward pass of
the engine, whichever cache it runs on, is compared with it.
-/

namespace Fracture

open Effect Rows

variable {R W F : Type}

/-- Attention of queries over the rows cached for their sequence, the
last of which belong to the queries. -/
def attendRows (b : Backend R W F) (numKvHeads : ℕ) (q : List R) (rows : Kv → List R) :
    Except Fault (List R) :=
  let kvLen := (rows .k).length
  b.attentionPaged q (List.range kvLen) (Paging.chunk blockSize (rows .k))
    (Paging.chunk blockSize (rows .v)) numKvHeads kvLen (kvLen - q.length)

/-- Paged attention over any table that holds the rows is attention over
the rows. -/
theorem attentionPaged_eq_attendRows {b : Backend R W F} (hb : b.Sound) {table : List ℕ}
    {blocks : Kv → ℕ → List R} {rows : Kv → List R}
    (hholds : ∀ kv, Paging.Holds blockSize table (blocks kv) (rows kv))
    (hlen : (rows .v).length = (rows .k).length) {q : List R} {pos : ℕ}
    (hpos : pos + q.length = (rows .k).length) (numKvHeads : ℕ) :
    b.attentionPaged q table (blocks .k) (blocks .v) numKvHeads (pos + q.length) pos =
      attendRows b numKvHeads q rows := by
  have hchunk : ∀ kv, Paging.Holds blockSize (List.range (rows kv).length)
      (Paging.chunk blockSize (rows kv)) (rows kv) := fun kv => Paging.Holds.chunk (by decide) _
  have hstart : (rows .k).length - q.length = pos := by omega
  unfold attendRows
  simp only [hpos, hstart]
  refine hb.attentionPaged_congr (fun t ht => ?_) (fun t ht => ?_)
  · rw [hholds .k t ht, hchunk .k t ht]
  · rw [← hlen] at ht ⊢
    rw [hholds .v t ht, hchunk .v t ht]

/-! ## Packed batches -/

namespace Placed

/-- The number of rows a sequence has in the batch. -/
def count (p : Placed) : ℕ := p.stop - p.start

/-- The sequence's rows of a packed tensor. -/
def rows (p : Placed) (x : List R) : List R := window x p.start p.count

/-- The blocks a sequence needs beyond those it has. -/
def newBlocks (p : Placed) : ℕ :=
  blocksFor (p.startPos + p.count) - blocksFor p.startPos

end Placed

/-- The sequences cover the rows from `offset` to `total`, one behind the
other. -/
def Tiles : ℕ → List Placed → ℕ → Prop
  | offset, [], total => offset = total
  | offset, p :: rest, total => p.start = offset ∧ p.start ≤ p.stop ∧ Tiles p.stop rest total

namespace Tiles

variable {offset total : ℕ} {placed : List Placed} {p : Placed}

theorem le (h : Tiles offset placed total) : offset ≤ total := by
  induction placed generalizing offset with
  | nil => exact Nat.le_of_eq h
  | cons p rest ih =>
    obtain ⟨hstart, hle, hrest⟩ := h
    have := ih hrest
    omega

theorem bounds (h : Tiles offset placed total) (hp : p ∈ placed) :
    offset ≤ p.start ∧ p.start ≤ p.stop ∧ p.stop ≤ total := by
  induction placed generalizing offset with
  | nil => cases hp
  | cons p' rest ih =>
    obtain ⟨hstart, hle, hrest⟩ := h
    rcases List.mem_cons.1 hp with rfl | hp
    · exact ⟨Nat.le_of_eq hstart.symm, hle, hrest.le⟩
    · have := ih hrest hp
      omega

/-- Each sequence has its own rows of a packed tensor. -/
theorem length_rows (h : Tiles offset placed total) (hp : p ∈ placed) {x : List R}
    (hx : x.length = total) : (p.rows x).length = p.count := by
  obtain ⟨-, hle, hstop⟩ := h.bounds hp
  exact length_window (by rw [Placed.count]; omega)

/-- Placing sequences one behind the other tiles their rows. -/
theorem of_place (offset : ℕ) (parts : List (CacheHandle × ℕ)) {starts : List ℕ}
    (hlen : starts.length = parts.length) :
    Tiles offset (place offset parts starts) (offset + (parts.map (·.2)).sum) := by
  induction parts generalizing offset starts with
  | nil =>
    rw [List.length_eq_zero_iff.1 hlen]
    rfl
  | cons part rest ih =>
    obtain _ | ⟨startPos, more⟩ := starts
    · cases hlen
    · refine ⟨rfl, Nat.le_add_right _ _, ?_⟩
      have := ih (offset + part.2) (Nat.succ_injective hlen)
      rwa [Nat.add_assoc] at this

end Tiles

/-! ## Logical caches under a batch -/

variable {placed : List Placed} {h : CacheHandle}

theorem find_eq_none (hh : h ∉ placed.map (·.handle)) :
    (placed.find? fun p => p.handle = h) = none := by
  refine List.find?_eq_none.2 fun p hp => ?_
  simp only [decide_eq_true_eq]
  rintro rfl
  exact hh (List.mem_map_of_mem hp)

variable {p : Placed}

theorem find_eq_some (hnodup : (placed.map (·.handle)).Nodup) (hp : p ∈ placed) :
    (placed.find? fun p' => p'.handle = p.handle) = some p := by
  induction placed with
  | nil => cases hp
  | cons p' rest ih =>
    rw [List.map_cons, List.nodup_cons] at hnodup
    rcases List.mem_cons.1 hp with rfl | hp
    · simp
    · have hne : p'.handle ≠ p.handle := fun heq => hnodup.1 (heq ▸ List.mem_map_of_mem hp)
      rw [List.find?_cons_of_neg (by simpa using hne)]
      exact ih hnodup.2 hp

/-- The rows of a packed tensor that belong to a sequence. -/
def freshRows (placed : List Placed) (packed : Kv → List R) (h : CacheHandle) (kv : Kv) : List R :=
  match placed.find? fun p => p.handle = h with
  | some p => p.rows (packed kv)
  | none => []

theorem freshRows_of_notMem (hh : h ∉ placed.map (·.handle)) (packed : Kv → List R) (kv : Kv) :
    freshRows placed packed h kv = [] := by
  rw [freshRows, find_eq_none hh]

theorem freshRows_of_mem (hnodup : (placed.map (·.handle)).Nodup) (hp : p ∈ placed)
    (packed : Kv → List R) (kv : Kv) :
    freshRows placed packed p.handle kv = p.rows (packed kv) := by
  rw [freshRows, find_eq_some hnodup hp]

namespace Logical

/-- One layer of the packed keys and values appended to every sequence of
the batch. -/
def appendLayer (L : Logical R) (l : ℕ) (placed : List Placed) (packed : Kv → List R) : Logical R :=
  fun h l' kv => if l' = l then L h l' kv ++ freshRows placed packed h kv else L h l' kv

/-- All layers of the packed keys and values appended, from layer 0 on. -/
def commit (L : Logical R) (placed : List Placed) (packed : List (Kv → List R)) : Logical R :=
  fun h l kv => match packed[l]? with
    | some rows => L h l kv ++ freshRows placed rows h kv
    | none => L h l kv

theorem appendLayer_nil (L : Logical R) (l : ℕ) (packed : Kv → List R) :
    L.appendLayer l [] packed = L := by
  funext h l' kv
  simp [appendLayer, freshRows]

variable {p : Placed}

/-- A layer is appended sequence by sequence. -/
theorem appendLayer_cons (L : Logical R) (l : ℕ) {rest : List Placed}
    (hp : p.handle ∉ rest.map (·.handle)) (packed : Kv → List R) :
    (L.append p.handle l fun kv => p.rows (packed kv)).appendLayer l rest packed =
      L.appendLayer l (p :: rest) packed := by
  funext h l' kv
  unfold appendLayer
  by_cases hl : l' = l
  · subst hl
    rw [if_pos rfl, if_pos rfl]
    by_cases hh : h = p.handle
    · subst hh
      rw [append_self, freshRows_of_notMem hp, List.append_nil, freshRows,
        List.find?_cons_of_pos (by simp)]
    · rw [append_of_ne L _ (Or.inl hh), freshRows, freshRows,
        List.find?_cons_of_neg (by simpa using Ne.symm hh)]
  · rw [if_neg hl, if_neg hl, append_of_ne L _ (Or.inr hl)]

@[simp] theorem commit_nil (L : Logical R) (placed : List Placed) : L.commit placed [] = L := by
  funext h l kv
  simp [commit]

/-- Committing one more layer. -/
theorem commit_append (L : Logical R) (placed : List Placed) (packed : List (Kv → List R))
    (rows : Kv → List R) :
    L.commit placed (packed ++ [rows]) =
      (L.commit placed packed).appendLayer packed.length placed rows := by
  funext h l kv
  unfold appendLayer commit
  rcases Nat.lt_trichotomy l packed.length with hl | rfl | hl
  · rw [if_neg (by omega), List.getElem?_append_left hl]
  · simp
  · rw [if_neg (by omega), List.getElem?_eq_none (by simp; omega),
      List.getElem?_eq_none (by omega)]

variable {packed : List (Kv → List R)} {l : ℕ}

/-- A sequence of the batch gets its rows of a committed layer. -/
theorem commit_of_mem (L : Logical R) (hnodup : (placed.map (·.handle)).Nodup) (hp : p ∈ placed)
    {rows : Kv → List R} (hrow : packed[l]? = some rows) (kv : Kv) :
    L.commit placed packed p.handle l kv = L p.handle l kv ++ p.rows (rows kv) := by
  unfold commit
  rw [hrow, ← freshRows_of_mem hnodup hp]

/-- A sequence that is not in the batch keeps its rows. -/
theorem commit_of_notMem (L : Logical R) {h : CacheHandle} (hh : h ∉ placed.map (·.handle))
    (packed : List (Kv → List R)) : L.commit placed packed h = L h := by
  funext l kv
  unfold commit
  split
  · rw [freshRows_of_notMem hh, List.append_nil]
  · rfl

/-- A layer that was not committed yet. -/
theorem commit_of_le (L : Logical R) (placed : List Placed) (hl : packed.length ≤ l)
    (h : CacheHandle) : L.commit placed packed h l = L h l := by
  funext kv
  unfold commit
  rw [List.getElem?_eq_none hl]

end Logical

/-! ## The forward pass -/

section

variable (b : Backend R W F) (weights : WeightStore W) (L : Logical R) (placed : List Placed)

/-- Attention of every sequence of a batch over its cached rows and its
rows of the batch. -/
def attendPlaced (numKvHeads : ℕ) (L : Logical R) (l : ℕ) (placed : List Placed) (q : List R)
    (packed : Kv → List R) : Except Fault (List R) := do
  let parts ← placed.mapM fun p =>
    attendRows b numKvHeads (p.rows q) fun kv => L p.handle l kv ++ p.rows (packed kv)
  return parts.flatten

/-- One layer: the hidden state after it, and its keys and values. -/
def runLayer (cfg : ModelConfig) (L : Logical R) (placed : List Placed) (positions : List ℕ)
    (w : LayerWeights W) (l : ℕ) (x : List R) :
    Except Fault (List R × (Kv → List R)) := do
  let (q, k, v) ← qkv b cfg w positions x
  let attnOut ← attendPlaced b cfg.numKvHeads L l placed q (Kv.pick k v)
  let x ← finishLayer b cfg w x attnOut
  return (x, Kv.pick k v)

/-- The layers from `l` on: the hidden state they end with, and the keys
and values of each. -/
def runLayers (b : Backend R W F) (cfg : ModelConfig) (L : Logical R) (placed : List Placed)
    (positions : List ℕ) :
    List (LayerWeights W) → ℕ → List R → Except Fault (List R × List (Kv → List R))
  | [], _, x => .ok (x, [])
  | w :: ws, l, x => do
    let (x, rows) ← runLayer b cfg L placed positions w l x
    let (x, packed) ← runLayers b cfg L placed positions ws (l + 1) x
    return (x, rows :: packed)

/-- The logits of each sequence's last row. -/
def projectEnds (normed : List R) : Except Fault (List (List F)) :=
  placed.mapM fun p => do
    let lastIdx ← checkedSub p.stop 1
    projectRow b weights (window normed lastIdx 1)

/-- The final norm and the projection of each sequence's last row. -/
def runOutput (x : List R) :
    Except Fault (List (List F)) := do
  let normed ← b.rmsnorm x weights.outputNorm weights.config.rmsNormEps
  projectEnds b weights placed normed

/-- A batch through the whole model: the logits of each sequence and the
keys and values of each layer. -/
def runModel (tokenIds positions : List ℕ) : Except Fault (List (List F) × List (Kv → List R)) := do
  let x ← b.embedding tokenIds weights.tokenEmbedding
  let (x, packed) ← runLayers b weights.config L placed positions weights.layers 0 x
  let logits ← runOutput b weights placed x
  return (logits, packed)

/-- A batch through the layers of one node, from its hidden state on. -/
def runNode (positions : List ℕ) (nodeConfig : NodeConfig) (hiddenState : Activations R) :
    Except Fault (NodeOutput R F × List (Kv → List R)) := do
  let (x, packed) ← runLayers b weights.config L placed positions weights.layers 0
    hiddenState.rows
  if nodeConfig.isTail then
    let logits ← runOutput b weights placed x
    return (.logits logits.flatten, packed)
  else
    return (.activations { rows := x, width := hiddenState.width }, packed)

end

/-! ## What a pass reads -/

section Congr

variable {L L' : Logical R} {placed : List Placed}
  (hrows : ∀ p ∈ placed, L p.handle = L' p.handle) (b : Backend R W F) (positions : List ℕ)
include hrows

theorem runLayers_congr (cfg : ModelConfig) (ws : List (LayerWeights W)) (l : ℕ) (x : List R) :
    runLayers b cfg L placed positions ws l x = runLayers b cfg L' placed positions ws l x := by
  have hattend : ∀ l q (packed : Kv → List R), attendPlaced b cfg.numKvHeads L l placed q packed =
      attendPlaced b cfg.numKvHeads L' l placed q packed := by
    intro l q packed
    unfold attendPlaced
    rw [except_mapM_congr fun p hp => by rw [hrows p hp]]
  induction ws generalizing l x with
  | nil => rfl
  | cons w ws ih => simp only [runLayers, runLayer, hattend, ih]

/-- **A pass reads the rows of its own sequences only.** -/
theorem runModel_congr (weights : WeightStore W) (tokenIds : List ℕ) :
    runModel b weights L placed tokenIds positions =
      runModel b weights L' placed tokenIds positions := by
  simp only [runModel, runLayers_congr hrows]

end Congr

end Fracture
