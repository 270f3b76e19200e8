import Fracture.Engine.Lockstep

/-!
# The roles of a pipeline in one process

A pipeline hands activations from node to node. Whether a node takes token
ids is read from the start of its range, and whether it gives logits from
its end and the number of layers it takes the model to have. The
coordinator compares neighbouring ranges, but not those numbers.
-/

namespace Fracture

open Effect

variable {R W F : Type}

/-- A node of a pipeline: an engine and its part of the model
(`ComputeNodeImpl`). -/
structure ComputeNode (R W F : Type) where
  engine : Engine R W F
  config : NodeConfig

def ComputeNode.forward (node : ComputeNode R W F) (input : NodeInput R) (handle : CacheHandle) :
    EStateM Fault (KvCacheManager R) (NodeOutput R F) :=
  node.engine.forwardNode input node.config handle

structure PipelineCoordinator (R W F : Type) where
  nodes : List (ComputeNode R W F)

namespace PipelineCoordinator

/-- Each range starts where the one before ends; `i` is the place of the
next node. -/
def checkContiguous (i prevEnd : ℕ) : List (ComputeNode R W F) → Except Fault Unit
  | [] => .ok ()
  | node :: nodes =>
    let currStart := node.config.layerRange.start
    let prev := i - 1
    if prevEnd ≠ currStart then
      err (.pipeline s!"gap or overlap between node {prev} (ends at {prevEnd}) and node {i} (starts at {currStart})")
    else checkContiguous (i + 1) node.config.layerRange.stop nodes

/-- A pipeline of nodes in the order of their layers. -/
def new : List (ComputeNode R W F) → Except Fault (PipelineCoordinator R W F)
  | [] => err (.pipeline "pipeline must have at least one node")
  | first :: nodes =>
    if ¬ first.config.isHead then
      err (.pipeline "first node must be head (layer_range must start at 0)")
    else if ¬ ((first :: nodes).getLast (List.cons_ne_nil first nodes)).config.isTail then
      err (.pipeline "last node must be tail (layer_range must end at total_layers)")
    else do
      checkContiguous 1 first.config.layerRange.stop nodes
      return { nodes := first :: nodes }

/-- The pass from the node at `i` on, of `count` nodes, each on its own
cache. -/
def forwardFrom (count : ℕ) (positions : List ℕ) : ℕ → List (ComputeNode R W F) →
    List CacheHandle → NodeInput R → EStateM Fault (List (KvCacheManager R)) (List F)
  | i, node :: nodes, handle :: handles, input, cache :: caches =>
    match node.forward input handle cache with
    | .error e cache => .error e (cache :: caches)
    | .ok (.logits logits) cache =>
      if i = count - 1 then .ok logits (cache :: caches)
      else
        .error (.error (.pipeline s!"node {i} returned Logits but is not the last node"))
          (cache :: caches)
    | .ok (.activations tensor) cache =>
      if i = count - 1 then
        .error (.error (.pipeline "last node returned Activations instead of Logits"))
          (cache :: caches)
      else
        match forwardFrom count positions (i + 1) nodes handles (.activations tensor positions)
          caches with
        | .error e caches => .error e (cache :: caches)
        | .ok logits caches => .ok logits (cache :: caches)
  | _, _, _, _, caches => .error (.error (.pipeline "no nodes in pipeline")) caches

/-- Token ids to logits through all nodes. -/
def forward (p : PipelineCoordinator R W F) (tokenIds positions : List ℕ)
    (cacheHandles : List CacheHandle) : EStateM Fault (List (KvCacheManager R)) (List F) :=
  fun caches =>
    let count := p.nodes.length
    let gotCaches := caches.length
    let gotHandles := cacheHandles.length
    if gotCaches ≠ count ∨ gotHandles ≠ count then
      .error (.error (.pipeline
        s!"expected {count} caches and handles, got {gotCaches} and {gotHandles}")) caches
    else forwardFrom count positions 0 p.nodes cacheHandles (.tokenIds tokenIds positions) caches

/-! ## Role mismatches -/

/-- The input is of the kind a node takes. -/
def Suits (n : NodeConfig) : NodeInput R → Prop
  | .tokenIds .. => n.isHead = true
  | .activations .. => n.isHead = false

/-- A pass from the node at `i` on comes to an input or an output of the
wrong kind. -/
def Mismatched (count : ℕ) (positions : List ℕ) : ℕ → List (ComputeNode R W F) →
    List CacheHandle → NodeInput R → List (KvCacheManager R) → Prop
  | i, node :: nodes, handle :: handles, input, cache :: caches =>
    ¬ Suits node.config input ∨ match node.forward input handle cache with
      | .error _ _ => False
      | .ok (.logits _) _ => i ≠ count - 1
      | .ok (.activations tensor) _ => i = count - 1 ∨
        Mismatched count positions (i + 1) nodes handles (.activations tensor positions) caches
  | _, _, _, _, _ => False

variable {node : ComputeNode R W F} {input : NodeInput R} {handle : CacheHandle}
  {cache cache' : KvCacheManager R} {count i : ℕ} {positions : List ℕ}
  {nodes : List (ComputeNode R W F)} {handles : List CacheHandle}
  {caches : List (KvCacheManager R)}

/-- A node gives logits exactly if it is a tail. -/
theorem isTail_of_forward {out : NodeOutput R F}
    (h : node.forward input handle cache = .ok out cache') :
    node.config.isTail = true ↔ ∃ values, out = .logits values := by
  obtain ⟨⟨hidden, ps, seqLen⟩, -, h⟩ := lift_bind_eq_ok.1 h
  obtain ⟨-, -, h⟩ := lift_bind_eq_ok.1 h
  rw [get_bind] at h
  obtain ⟨startPos, -, h⟩ := lift_bind_eq_ok.1 h
  obtain ⟨x, s, -, h⟩ := bind_eq_ok.1 h
  obtain ⟨h, -⟩ := lift_eq_ok.1 h
  unfold Engine.nodeOutput at h
  split at h
  · next htail =>
    obtain ⟨normed, -, h⟩ := except_bind_eq_ok.1 h
    obtain ⟨lastHidden, -, h⟩ := except_bind_eq_ok.1 h
    obtain ⟨values, -, h⟩ := except_bind_eq_ok.1 h
    cases h
    exact ⟨fun _ => ⟨values, rfl⟩, fun _ => htail⟩
  · next htail =>
    cases h
    exact ⟨fun h => absurd h htail, nofun⟩

/-- The nodes from place `i` on have the roles of their places. -/
def InRole (count i : ℕ) (nodes : List (ComputeNode R W F)) : Prop :=
  ∀ j node, nodes[j]? = some node →
    (node.config.isHead = true ↔ i + j = 0) ∧ (node.config.isTail = true ↔ i + j + 1 = count)

/-- Nodes in their roles come to no mismatch. -/
theorem InRole.not_mismatched (h : InRole count i nodes) (hcount : 0 < count)
    (hinput : ∀ n : NodeConfig, (n.isHead = true ↔ i = 0) → Suits n input) :
    ¬ Mismatched count positions i nodes handles input caches := by
  fun_induction Mismatched count positions i nodes handles input caches with
  | case1 i node nodes handle handles input cache caches ih =>
    obtain ⟨hhead, htail⟩ := h 0 node rfl
    rintro (hnot | hmis)
    · exact hnot (hinput _ hhead)
    split at hmis
    · exact hmis
    · next hrun =>
      have hlast := htail.1 ((isTail_of_forward hrun).2 ⟨_, rfl⟩)
      omega
    · next hrun =>
      rcases hmis with hlast | hrest
      · obtain ⟨values, hout⟩ := (isTail_of_forward hrun).1 (htail.2 (by omega))
        cases hout
      · refine ih _ (fun j next hnext => ?_) (fun n hn => ?_) hrest
        · rw [Nat.add_right_comm]
          exact h (j + 1) next hnext
        · exact Bool.eq_false_iff.2 fun hfirst => by cases hn.1 hfirst
  | case2 => exact id

/-! ## What the coordinator accepts -/

theorem isChain_of_checkContiguous
    (h : checkContiguous i node.config.layerRange.stop nodes = .ok ()) : (node :: nodes).IsChain
      fun a b => a.config.layerRange.stop = b.config.layerRange.start := by
  induction nodes generalizing i node with
  | nil => exact .singleton node
  | cons next nodes ih =>
    obtain ⟨hstart, h⟩ := except_guard_eq_ok.1 h
    exact List.isChain_cons_cons.2 ⟨not_not.1 hstart, ih h⟩

/-- **An accepted pipeline keeps the roles** exactly if its nodes agree on
the number of layers: then the first node alone is the head, the last
alone is the tail, and no pass comes to a mismatch. -/
theorem roles_iff {p : PipelineCoordinator R W F} (h : new nodes = .ok p) :
    (InRole p.nodes.length 0 p.nodes ∧
      (∀ a ∈ p.nodes, ∀ b ∈ p.nodes, a.config.totalLayers = b.config.totalLayers) ∧
      ∀ tokenIds positions handles caches, ¬ Mismatched p.nodes.length positions 0 p.nodes handles
        (.tokenIds tokenIds positions) caches) ↔
      ∀ a ∈ nodes, ∀ b ∈ nodes, a.config.totalLayers = b.config.totalLayers := by
  cases nodes with
  | nil => cases h
  | cons first nodes =>
    obtain ⟨hhead, h⟩ := except_guard_eq_ok.1 h
    obtain ⟨htail, h⟩ := except_guard_eq_ok.1 h
    obtain ⟨_, hcheck, h⟩ := except_bind_eq_ok.1 h
    cases h
    have hchain := List.isChain_iff_getElem.1 (isChain_of_checkContiguous hcheck)
    refine ⟨fun hroles => hroles.2.1, fun hagree => ?_⟩
    have hroles : InRole (first :: nodes).length 0 (first :: nodes) := by
      intro j node hj
      obtain ⟨hlt, rfl⟩ := List.getElem?_eq_some_iff.1 hj
      rw [Nat.zero_add]
      constructor
      · cases j with
        | zero => exact iff_of_true (not_not.1 hhead) rfl
        | succ j =>
          -- the range before is not empty
          have hstart := hchain j hlt
          have hbefore := (first :: nodes)[j].config.nonempty
          refine iff_of_false (fun hzero => ?_) (Nat.succ_ne_zero j)
          have := eq_of_beq hzero
          omega
      · by_cases hlast : j + 1 = (first :: nodes).length
        · obtain rfl : j = (first :: nodes).length - 1 := Nat.eq_sub_of_add_eq hlast
          rw [List.getLast_eq_getElem] at htail
          exact iff_of_true (not_not.1 htail) hlast
        · -- the range after is not empty and ends inside the same model
          have hstop := hchain j (by omega)
          have hafter := (first :: nodes)[j + 1].config.nonempty
          have hbound := (first :: nodes)[j + 1].config.bounded
          have hsame := hagree _ (List.getElem_mem hlt) (first :: nodes)[j + 1]
            (List.getElem_mem (by omega))
          refine iff_of_false (fun hend => ?_) hlast
          have := eq_of_beq hend
          omega
    exact ⟨hroles, hagree, fun tokenIds positions handles caches =>
      hroles.not_mismatched (Nat.succ_pos _) fun n hn => hn.2 rfl⟩

/-- Two nodes of two layers each; the first takes the model to have so many
in all. -/
def halves (totalLayers : ℕ) (h : 2 ≤ totalLayers) : List (ComputeNode ℕ ℕ ℕ) :=
  [⟨⟨referenceBackend, referenceWeights 4 ⟨0, 2⟩, ⟨0, 2⟩⟩, ⟨⟨0, 2⟩, totalLayers, Nat.two_pos, h⟩⟩,
    ⟨⟨referenceBackend, referenceWeights 4 ⟨2, 4⟩, ⟨2, 4⟩⟩,
      ⟨⟨2, 4⟩, 4, Nat.succ_lt_succ (Nat.succ_lt_succ Nat.two_pos), le_rfl⟩⟩]

/-- A first node that takes its two layers for the whole model is accepted,
and then gives logits. -/
theorem halves_mismatched :
    new (halves 2 (by decide)) = .ok ⟨halves 2 (by decide)⟩ ∧
      error? (forward ⟨halves 2 (by decide)⟩ [5, 6] [0, 1] [0, 0] [oneContiguous, oneContiguous]) =
        some (.error (.pipeline "node 0 returned Logits but is not the last node")) :=
  ⟨rfl, by decide +kernel⟩

theorem roles_iff_halves :
    InRole 2 0 (halves 4 (by decide)) ∧ ∀ tokenIds positions handles caches,
      ¬ Mismatched 2 positions 0 (halves 4 (by decide)) handles (.tokenIds tokenIds positions)
        caches := by
  have haccepted : new (halves 4 (by decide)) = .ok ⟨halves 4 (by decide)⟩ := rfl
  obtain ⟨hroles, -, hnever⟩ := (roles_iff haccepted).2 (by decide)
  exact ⟨hroles, hnever⟩

end PipelineCoordinator

end Fracture
