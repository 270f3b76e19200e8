import Fracture.Election.Terms

/-!
# The term a worker knows

A worker keeps the newest cluster manifest and a term of its own beside
the one in its election agent. A `Victory` reaches both terms, a manifest
only the worker's own. Manifests are ordered by version, whichever
coordinator numbered them.
-/

namespace Fracture

open Runs

/-- The nodes a manifest lists are left out: nothing here reads them. -/
structure ClusterManifest where
  version : ℕ
  term : ℕ
deriving DecidableEq, Repr

/-- The part of a worker that follows elections. Only a worker that can
become the coordinator has an agent. -/
structure ElectionWorker where
  clusterManifest : Option ClusterManifest
  currentTerm : ℕ
  electionAgent : Option ElectionAgent
deriving DecidableEq, Repr

namespace ElectionWorker

def new (coordinatorCapable : Option ElectionConfig) : ElectionWorker :=
  ⟨none, 0, coordinatorCapable.map (.new · 0)⟩

def onVictory (w : ElectionWorker) (leaderId : String) (term : ℕ) (coordinatorAddr : String) :
    ElectionWorker :=
  if w.currentTerm < term then
    { w with
      currentTerm := term
      electionAgent := w.electionAgent.map fun a => (a.onVictory leaderId term coordinatorAddr).2 }
  else w

/-- The manifest is not newer than the one held. -/
def dominated (w : ElectionWorker) (m : ClusterManifest) : Bool :=
  w.clusterManifest.any (m.version ≤ ·.version)

def onClusterManifest (w : ElectionWorker) (m : ClusterManifest) : ElectionWorker :=
  if w.dominated m then w
  else { w with
    currentTerm := if w.currentTerm < m.term then m.term else w.currentTerm
    clusterManifest := some m }

/-- The agent that stands once the coordinator has been gone for the
election timeout. -/
def candidate (w : ElectionWorker) : Option ElectionAgent :=
  if w.clusterManifest.isSome then w.electionAgent else none

/-- No peer is asked: the window expires at once. -/
def onDisconnected (w : ElectionWorker) : ElectionWorker :=
  match w.candidate with
  | some a => { w with electionAgent := some a.startElection.2.onElectionTimeout.2 }
  | none => w

/-! ## Manifests -/

section

variable {w : ElectionWorker} {m old : ClusterManifest}

end

/-- What happens to a worker. -/
inductive Event where
  | victory (leaderId : String) (term : ℕ) (coordinatorAddr : String)
  | manifest (m : ClusterManifest)
  | disconnected
deriving DecidableEq, Repr

/-- A worker and the terms of the messages it has accepted. -/
structure Record where
  worker : ElectionWorker
  accepted : List ℕ

namespace Record

def new (coordinatorCapable : Option ElectionConfig) : Record := ⟨.new coordinatorCapable, []⟩

def step (r : Record) : Event → Record
  | .victory leaderId term coordinatorAddr =>
    ⟨r.worker.onVictory leaderId term coordinatorAddr,
      if r.worker.currentTerm < term then term :: r.accepted else r.accepted⟩
  | .manifest m =>
    ⟨r.worker.onClusterManifest m,
      if r.worker.dominated m then r.accepted else m.term :: r.accepted⟩
  | .disconnected => { r with worker := r.worker.onDisconnected }

/-- The terms of messages are 64-bit. -/
def Wide (_ : Record) : Event → Prop
  | .victory _ term _ => term < 2 ^ 64
  | .manifest _ | .disconnected => True

/-- An election takes a term above all that were accepted. -/
def Supersedes (r : Record) (e : Event) : Prop :=
  e = .disconnected → ∀ a ∈ r.worker.candidate, ∀ t ∈ r.accepted, t < a.startElection.1

/-- The agent that stands has kept up with the worker's term, and has a
next term. -/
def KeptUp (r : Record) (e : Event) : Prop :=
  e = .disconnected → ∀ a ∈ r.worker.candidate,
    r.worker.currentTerm ≤ a.term.current ∧ a.term.current ≠ 2 ^ 64 - 1

/-- The worker's term is the largest one it has accepted. -/
structure Coherent (r : Record) : Prop where
  le : ∀ t ∈ r.accepted, t ≤ r.worker.currentTerm
  attained : r.worker.currentTerm = 0 ∨ r.worker.currentTerm ∈ r.accepted
  nonempty : r.worker.clusterManifest.isSome → r.accepted ≠ []
  wide : ∀ a ∈ r.worker.electionAgent, a.term.current < 2 ^ 64

theorem coherent_new (c : Option ElectionConfig) : (Record.new c).Coherent := by
  refine ⟨nofun, .inl rfl, nofun, fun a ha => ?_⟩
  obtain ⟨config, -, rfl⟩ := Option.map_eq_some_iff.mp ha
  exact Nat.two_pow_pos 64

variable {r : Record}

theorem Coherent.step {e : Event} (h : r.Coherent) (hwide : r.Wide e) : (r.step e).Coherent := by
  cases e with
  | victory id term addr =>
    simp only [Record.step, onVictory]
    split
    · rename_i hlt
      refine ⟨?_, .inr (.head _), fun _ => List.cons_ne_nil _ _, ?_⟩
      · rintro t (_ | ⟨_, ht⟩)
        · exact le_rfl
        · exact ((h.le t ht).trans_lt hlt).le
      · intro a ha
        obtain ⟨b, hb, rfl⟩ := Option.map_eq_some_iff.mp ha
        have hterm : (b.onVictory id term addr).2.term.current = max b.term.current term :=
          b.handle_term (.victory id term addr)
        rw [hterm]
        exact max_lt (h.wide b hb) hwide
    · exact h
  | manifest m =>
    simp only [Record.step, onClusterManifest]
    split
    · exact h
    · have hmax : (if r.worker.currentTerm < m.term then m.term else r.worker.currentTerm) =
          max r.worker.currentTerm m.term := by
        split <;> omega
      simp only [hmax]
      refine ⟨?_, ?_, fun _ => List.cons_ne_nil _ _, h.wide⟩
      · rintro t (_ | ⟨_, ht⟩)
        · exact le_max_right _ _
        · exact (h.le t ht).trans (le_max_left _ _)
      · rcases max_choice r.worker.currentTerm m.term with hc | hc
        · rw [hc]
          exact h.attained.imp_right (.tail _)
        · rw [hc]
          exact .inr (.head _)
  | disconnected =>
    simp only [Record.step, onDisconnected]
    split
    · rename_i a ha
      refine ⟨h.le, h.attained, h.nonempty, ?_⟩
      rintro b ⟨⟩
      rw [ElectionAgent.onElectionTimeout_term]
      exact Nat.mod_lt _ (Nat.two_pow_pos 64)
    · exact h

theorem Coherent.supersedes_iff (h : r.Coherent) (e : Event) : r.Supersedes e ↔ r.KeptUp e := by
  refine imp_congr_right fun _ => forall₂_congr fun a ha => ?_
  obtain ⟨hheld, hagent⟩ : r.worker.clusterManifest.isSome ∧ r.worker.electionAgent = some a := by
    simpa [candidate] using ha
  have hwide := h.wide a hagent
  have hnext : a.startElection.1 = (a.term.current + 1) % 2 ^ 64 := rfl
  -- the largest accepted term decides, and there is one
  have hall : (∀ t ∈ r.accepted, t < a.startElection.1) ↔
      r.worker.currentTerm < a.startElection.1 := by
    refine ⟨fun hlt => ?_, fun hlt t ht => (h.le t ht).trans_lt hlt⟩
    rcases h.attained with hzero | hmem
    · obtain ⟨t, ht⟩ := List.exists_mem_of_ne_nil _ (h.nonempty hheld)
      exact hzero ▸ (Nat.zero_le t).trans_lt (hlt t ht)
    · exact hlt _ hmem
  rw [hall, hnext]
  omega

end Record

/-- **Every election supersedes all a worker has accepted exactly if the
agent has kept up**: at each election its term is at least the worker's
and not the largest one. -/
theorem elections_supersede_iff (coordinatorCapable : Option ElectionConfig) {events : List Event}
    (hwide : Throughout Record.step Record.Wide (.new coordinatorCapable) events) :
    Throughout Record.step Record.Supersedes (.new coordinatorCapable) events ↔
      Throughout Record.step Record.KeptUp (.new coordinatorCapable) events :=
  hwide.iff Record.Coherent (Record.coherent_new _) (fun h ha => h.step ha)
    fun h _ => h.supersedes_iff _

/-- A `Victory` and a manifest of one coordinator, and then an election. -/
theorem elections_supersede_iff_successor :
    Throughout Record.step Record.Supersedes (.new (some ⟨"node", 0⟩))
        [.victory "leader" 3 "", .manifest ⟨1, 3⟩, .disconnected] ↔
      Throughout Record.step Record.KeptUp (.new (some ⟨"node", 0⟩))
        [.victory "leader" 3 "", .manifest ⟨1, 3⟩, .disconnected] :=
  elections_supersede_iff _ ⟨show 3 < 2 ^ 64 by decide, trivial, trivial, trivial⟩

/-- A manifest of term 5 does not reach the agent, which stands at term 1. -/
theorem election_behind_manifest :
    ¬ Throughout Record.step Record.Supersedes (.new (some ⟨"node", 0⟩))
      [.manifest ⟨1, 5⟩, .disconnected] := by
  intro h
  have hlast : 5 < (ElectionAgent.new ⟨"node", 0⟩ 0).startElection.1 :=
    h.2.1 rfl _ (by decide) 5 (by decide)
  revert hlast
  decide

end ElectionWorker

end Fracture
