import Fracture.Election.Model
import Mathlib.Data.Fin.VecNotation
import Mathlib.Data.Fintype.Basic

/-!
# At most one leader

A candidate that a better node outranks is told so by a challenge, which
answers its announcement. Both messages are ignored by a node that has
moved to a later term in the meantime, and then two candidates can win.
Where neither message comes too late, one agent leads at most.
-/

namespace Fracture

namespace Election

open Async

variable {n : ℕ} {configs : Fin n → ElectionConfig} {addr : Fin n → String} {w : Net n}

/-! ## What every step keeps -/

/-- The agents have their configurations, and a candidate announces
itself under its own. -/
structure Genuine (configs : Fin n → ElectionConfig) (w : Net n) : Prop where
  config : ∀ i, (w.nodes i).config = configs i
  start : ∀ e ∈ w.inFlight, ∀ {id p t}, e.message = .electionStart id p t →
    id = (configs e.sender).nodeId ∧ p = (configs e.sender).priority

theorem genuine_initial (configs : Fin n → ElectionConfig) (terms : Fin n → ℕ) :
    Genuine configs (initial configs terms) where
  config _ := rfl
  start _ he := absurd he List.not_mem_nil

variable {e : Letter n} {a : ElectionAgent} {next : ElectionAgent × List (Letter n)}

section

variable (h : Received e a next)
include h

/-- A message never changes the agent's configuration. -/
theorem Received.config : next.1.config = a.config := by
  cases h <;> rfl

/-- The only answer to a message is a challenge to an announcement. -/
theorem Received.answer {e' : Letter n} (he' : e' ∈ next.2) :
    e'.sender = e.dest ∧ e'.dest = e.sender ∧ ∃ id p t, e.message = .electionStart id p t ∧
      a.config.outranks p id ∧
      e'.message = .electionChallenge a.config.nodeId a.config.priority t := by
  cases h with
  | challenge hm h ho =>
    cases List.mem_singleton.mp he'
    exact ⟨rfl, rfl, _, _, _, hm, ho, rfl⟩
  | stale | yield | standDown | accept => exact absurd he' List.not_mem_nil

/-- No message makes a candidate or a leader. -/
theorem Received.state :
    next.1.state = a.state ∨ next.1.state = .follower := by
  cases h with
  | stale | challenge => exact .inl rfl
  | accept => exact .inr rfl
  | yield | standDown =>
    cases hs : a.state <;> simp [ElectionState.standDown]

variable {id : String} {p t : ℕ} (hterm : a.term.current ≤ t)
include hterm

/-- An announcement of an outranked candidate is answered in time. -/
theorem Received.challenged (hm : e.message = .electionStart id p t) (ho : a.config.outranks p id) :
    next.2 = [⟨e.dest, e.sender, .electionChallenge a.config.nodeId a.config.priority t⟩] := by
  cases h with
  | stale hlt =>
    rw [hm] at hlt
    exact absurd hlt (Nat.not_lt.mpr hterm)
  | challenge hm' =>
    cases hm.symm.trans hm'
    rfl
  | yield hm' _ hno =>
    cases hm.symm.trans hm'
    exact absurd ho hno
  | standDown hm' => cases hm.symm.trans hm'
  | accept hm' => cases hm.symm.trans hm'

/-- A challenge in time makes a candidate step back. -/
theorem Received.stoodDown (hm : e.message = .electionChallenge id p t) :
    next.1.state = a.state.standDown := by
  cases h with
  | stale hlt =>
    rw [hm] at hlt
    exact absurd hlt (Nat.not_lt.mpr hterm)
  | challenge hm' => cases hm.symm.trans hm'
  | yield hm' => cases hm.symm.trans hm'
  | standDown hm' => rfl
  | accept hm' => cases hm.symm.trans hm'

end

/-- A delivery leaves a node what it is or makes it a follower. -/
theorem state_deliver (addr : Fin n → String) (w : Net n) (k : ℕ) (j : Fin n) :
    (((protocol addr).step w (.deliver k)).nodes j).state = (w.nodes j).state ∨
      (((protocol addr).step w (.deliver k)).nodes j).state = .follower := by
  rcases (protocol addr).step_deliver w k with ⟨-, heq⟩ | ⟨e, -, -, heq⟩
  · exact .inl (by rw [heq])
  rw [heq]
  exact World.take_forall (fun j (a : ElectionAgent) =>
    a.state = (w.nodes j).state ∨ a.state = .follower) (fun _ => .inl rfl) (received addr e _).state j

theorem candidate_of_deliver {k : ℕ} {j : Fin n}
    (h : (((protocol addr).step w (.deliver k)).nodes j).state = .candidate) :
    (w.nodes j).state = .candidate := by
  rcases state_deliver addr w k j with hst | hst
  · exact hst.symm.trans h
  · cases hst.symm.trans h

theorem Genuine.take (h : Genuine configs w) {i : Fin n} (hconfig : next.1.config = configs i)
    (hstart : ∀ e ∈ next.2, ∀ {id p t}, e.message = .electionStart id p t →
      id = (configs e.sender).nodeId ∧ p = (configs e.sender).priority) :
    Genuine configs (w.take i next) where
  config := World.take_forall (fun i (a : ElectionAgent) => a.config = configs i) h.config hconfig
  start e he := by
    rcases World.mem_take_inFlight.mp he with he | he
    · exact h.start e he
    · exact hstart e he

theorem Genuine.step (h : Genuine configs w) (s : Step n) :
    Genuine configs ((protocol addr).step w s) := by
  cases s with
  | act i event =>
    cases event with
    | start =>
      refine h.take (h.config i) ?_
      intro e he id p t hm
      rw [act_start, mem_broadcast, hm] at he
      obtain ⟨hsender, -, hmsg⟩ := he
      injection hmsg with hid hp
      rw [hsender, ← h.config i]
      exact ⟨hid, hp⟩
    | timeout =>
      by_cases hs : (w.nodes i).state = .candidate
      · -- a timeout sends victories only
        rw [Protocol.step_act, act_timeout_of_candidate addr i hs]
        refine h.take (h.config i) fun e he _ _ _ hm => ?_
        cases hm.symm.trans (mem_broadcast.mp he).2.2
      · rwa [step_timeout_of_ne addr i hs]
  | deliver k =>
    rcases (protocol addr).step_deliver w k with ⟨-, heq⟩ | ⟨e, -, -, heq⟩
    · rwa [heq]
    rw [heq]
    have hrecv := received addr e (w.nodes e.dest)
    have hpick : Genuine configs (w.pick k) :=
      ⟨h.config, fun e he => h.start e (World.mem_of_mem_pick he)⟩
    refine hpick.take (hrecv.config.trans (h.config _)) fun e' he' _ _ _ hm => ?_
    obtain ⟨-, -, _, _, _, -, -, hch⟩ := hrecv.answer he'
    cases hm.symm.trans hch

/-! ## Campaigns -/

/-- Agents stand and messages are delivered; no window expires yet. -/
def Campaigning : Step n → Prop
  | .act _ .timeout => False
  | .act _ .start | .deliver _ => True

instance Campaigning.decidable : ∀ s : Step n, Decidable (Campaigning s)
  | .act _ .timeout => inferInstanceAs (Decidable False)
  | .act _ .start => inferInstanceAs (Decidable True)
  | .deliver _ => inferInstanceAs (Decidable True)

/-- Nobody leads before a window has expired. -/
theorem no_leader_step (h : ∀ i, (w.nodes i).state ≠ .leader) {s : Step n} (hs : Campaigning s) :
    ∀ i, (((protocol addr).step w s).nodes i).state ≠ .leader := by
  cases s with
  | act i event =>
    cases event with
    | start =>
      have hnew : ((protocol addr).act i .start (w.nodes i)).1.state ≠ .leader := by
        rw [act_start]
        simp
      exact World.take_forall (fun _ (a : ElectionAgent) => a.state ≠ .leader) h hnew
    | timeout => exact hs.elim
  | deliver k =>
    intro i hi
    rcases state_deliver addr w k i with hst | hst
    · exact h i (hst.symm.trans hi)
    · cases hst.symm.trans hi

/-- A message that is to make a standing candidate step back: its
announcement to a node that outranks it, or a challenge to it. -/
def Decisive (w : Net n) (e : Letter n) : Prop :=
  match e.message with
  | .electionStart id p _ =>
    (w.nodes e.sender).state = .candidate ∧ (w.nodes e.dest).config.outranks p id
  | .electionChallenge _ _ _ => (w.nodes e.dest).state = .candidate
  | .victory _ _ _ => False

instance Decisive.decidable (w : Net n) (e : Letter n) : Decidable (Decisive w e) :=
  match h : e.message with
  | .electionStart id p _ =>
    decidable_of_iff ((w.nodes e.sender).state = .candidate ∧
      (w.nodes e.dest).config.outranks p id) (by simp only [Decisive, h])
  | .electionChallenge _ _ _ =>
    decidable_of_iff ((w.nodes e.dest).state = .candidate) (by simp only [Decisive, h])
  | .victory _ _ _ => decidable_of_iff False (by simp only [Decisive, h])

/-- No decisive message is delivered to a node at a later term. -/
def Timely (w : Net n) : Step n → Prop
  | .act _ _ => True
  | .deliver k => ∀ e, w.inFlight[k]? = some e → Decisive w e →
      (w.nodes e.dest).term.current ≤ e.message.term

instance Timely.decidable (w : Net n) : ∀ s : Step n, Decidable (Timely w s)
  | .act _ _ => inferInstanceAs (Decidable True)
  | .deliver k =>
    match h : w.inFlight[k]? with
    | none => isTrue fun e he => by rw [h] at he; cases he
    | some e =>
      decidable_of_iff (Decisive w e → (w.nodes e.dest).term.current ≤ e.message.term)
        ⟨fun hd e' he' => by rw [h] at he'; cases he'; exact hd, fun hd => hd e h⟩

/-- Node `j` is still to hear that node `i` outranks it: its own
announcement is on its way to `i`, or a challenge is on its way to it. -/
inductive Pending (w : Net n) (i j : Fin n) : Prop
  | start {id : String} {p t : ℕ} (h : ⟨j, i, .electionStart id p t⟩ ∈ w.inFlight)
  | challenge {k : Fin n} {id : String} {p t : ℕ}
      (h : ⟨k, j, .electionChallenge id p t⟩ ∈ w.inFlight)

variable {i : Fin n}

theorem Pending.mono {w' : Net n} {j : Fin n} (h : Pending w i j)
    (hsub : ∀ e ∈ w.inFlight, e ∈ w'.inFlight) : Pending w' i j := by
  cases h with
  | start h => exact .start (hsub _ h)
  | challenge h => exact .challenge (hsub _ h)

/-- Every outranked candidate is still to hear of it. -/
def Contested (configs : Fin n → ElectionConfig) (w : Net n) : Prop :=
  ∀ i j, (configs i).rank < (configs j).rank → (w.nodes j).state = .candidate → Pending w i j

/-- With nothing on its way nobody outranks a candidate. -/
theorem Contested.not_outranked (h : Contested configs w) (hdone : w.inFlight = []) {i j : Fin n}
    (hj : (w.nodes j).state = .candidate) : ¬ (configs i).rank < (configs j).rank := by
  intro hij
  cases h i j hij hj with
  | start hin | challenge hin => exact absurd (hdone ▸ hin) List.not_mem_nil

theorem Contested.step (h : Contested configs w) (hg : Genuine configs w) {s : Step n}
    (hs : Campaigning s) (ht : Timely w s) : Contested configs ((protocol addr).step w s) := by
  intro i j hij hj
  have hne : i ≠ j := fun hij' => absurd hij (by rw [hij']; exact lt_irrefl _)
  cases s with
  | act k event =>
    cases event with
    | timeout => exact hs.elim
    | start =>
      rw [Protocol.step_act] at hj ⊢
      by_cases hjk : j = k
      · subst hjk
        rw [act_start]
        exact .start (World.mem_take_inFlight.mpr (.inr (mem_broadcast.mpr ⟨rfl, hne, rfl⟩)))
      · rw [World.take_nodes_of_ne hjk] at hj
        exact (h i j hij hj).mono fun e he => World.mem_take_inFlight.mpr (.inl he)
  | deliver k =>
    have hstood := candidate_of_deliver hj
    rcases (protocol addr).step_deliver w k with ⟨-, heq⟩ | ⟨e, hk, -, heq⟩
    · rw [heq]
      exact h i j hij hstood
    rw [heq] at hj ⊢
    have hrecv := received addr e (w.nodes e.dest)
    cases h i j hij hstood with
    | @start id p t hin =>
      rcases World.eq_or_mem_pick hk hin with rfl | hin
      · -- the announcement reaches `i`, which answers it
        obtain ⟨hid, hp⟩ := hg.start _ hin rfl
        have ho : (w.nodes i).config.outranks p id := by
          rw [hg.config i, hid, hp]
          exact ElectionConfig.outranks_iff.mpr hij
        have hanswer := hrecv.challenged (ht _ hk ⟨hstood, ho⟩) rfl ho
        exact .challenge (World.mem_take_inFlight.mpr (.inr (by
          rw [hanswer]
          exact List.mem_singleton.mpr rfl)))
      · exact .start (World.mem_take_inFlight.mpr (.inl hin))
    | @challenge k' id p t hin =>
      rcases World.eq_or_mem_pick hk hin with rfl | hin
      · -- the challenge reaches `j`, which steps back
        have hback := hrecv.stoodDown (ht _ hk hstood) rfl
        rw [World.take_nodes_self, hback, hstood] at hj
        cases hj
      · exact .challenge (World.mem_take_inFlight.mpr (.inl hin))

/-! ## The timeouts -/

/-- An expiring window changes what a candidate is and nobody else. -/
theorem state_timeout (addr : Fin n → String) (w : Net n) (j i : Fin n) :
    (((protocol addr).step w (.act j .timeout)).nodes i).state = (w.nodes i).state ∨
      (w.nodes i).state = .candidate := by
  by_cases hs : (w.nodes j).state = .candidate
  · exact World.take_forall (fun i (a : ElectionAgent) =>
      a.state = (w.nodes i).state ∨ (w.nodes i).state = .candidate) (fun _ => .inl rfl) (.inr hs) i
  · exact .inl (by rw [step_timeout_of_ne addr j hs])

/-- A leader after the timeouts stood for it before them. -/
theorem leader_of_timeouts (order : List (Fin n))
    (h : ((after addr w (order.map (.act · .timeout))).nodes i).state = .leader) :
    (w.nodes i).state = .leader ∨ (w.nodes i).state = .candidate := by
  induction order generalizing w with
  | nil => exact .inl h
  | cons j order ih =>
    rcases state_timeout addr w j i with hsame | hc
    · rw [← hsame]
      exact ih h
    · exact .inr hc

/-- A campaign keeps every outranked candidate on notice, and has no
leader. -/
theorem campaign_contested {terms : Fin n → ℕ} {steps : List (Step n)}
    (hcampaign : ∀ s ∈ steps, Campaigning s)
    (htimely : Runs.Throughout (protocol addr).step Timely (initial configs terms) steps) :
    Contested configs (after addr (initial configs terms) steps) ∧
      ∀ i, ((after addr (initial configs terms) steps).nodes i).state ≠ .leader := by
  have hsteps := (Runs.throughout_of_forall hcampaign).and htimely
  refine (hsteps.invariant (fun w => Genuine configs w ∧ Contested configs w ∧
    ∀ i, (w.nodes i).state ≠ .leader) ⟨genuine_initial configs terms, ?_, ?_⟩ ?_).2
  · intro i j _ hj
    exact absurd hj (by simp [initial, ElectionAgent.new])
  · intro i
    simp [initial, ElectionAgent.new]
  · rintro w s ⟨hg, hc, hl⟩ ⟨hs, ht⟩
    exact ⟨hg.step s, hc.step hg hs ht, no_leader_step hl hs⟩

/-- **At most one agent leads.** Agents of distinct rank stand, from any
terms, and every message is delivered before the windows expire, in any
order; no decisive message reaches a node at a later term. After the
timeouts there is at most one leader. -/
theorem leader_unique (configs : Fin n → ElectionConfig) (terms : Fin n → ℕ)
    (addr : Fin n → String) (hdistinct : Function.Injective fun i => (configs i).rank)
    (steps : List (Step n)) (hcampaign : ∀ s ∈ steps, Campaigning s)
    (htimely : Runs.Throughout (protocol addr).step Timely (initial configs terms) steps)
    (hdone : (after addr (initial configs terms) steps).inFlight = []) (order : List (Fin n)) :
    ∀ i j,
      ((after addr (after addr (initial configs terms) steps)
        (order.map (.act · .timeout))).nodes i).state = .leader →
      ((after addr (after addr (initial configs terms) steps)
        (order.map (.act · .timeout))).nodes j).state = .leader → i = j := by
  obtain ⟨hcontested, hnone⟩ := campaign_contested hcampaign htimely
  intro i j hi hj
  have hci := (leader_of_timeouts order hi).resolve_left (hnone i)
  have hcj := (leader_of_timeouts order hj).resolve_left (hnone j)
  exact hdistinct (le_antisymm (not_lt.mp (hcontested.not_outranked hdone hci))
    (not_lt.mp (hcontested.not_outranked hdone hcj)))

/-! ## A split election -/

/-- Three nodes, the first of the highest priority. -/
def threeNodes : Fin 3 → ElectionConfig :=
  ![⟨"node-a", 0⟩, ⟨"node-b", 1⟩, ⟨"node-c", 2⟩]

/-- All three stand. The third, which is ahead by some terms, reaches the
second first, and the second then ignores the challenge of the first. -/
def crossed : List (Step 3) :=
  [.act 0 .start, .act 1 .start, .act 2 .start,
    .deliver 5, .deliver 2, .deliver 5,
    .deliver 0, .deliver 0, .deliver 0, .deliver 0, .deliver 0, .deliver 0]

/-- The first two nodes both lead. -/
theorem two_leaders :
    Function.Injective (fun i => (threeNodes i).rank) ∧
      (∀ s ∈ crossed, Campaigning s) ∧
      (after (fun _ => "") (initial threeNodes ![4, 4, 9]) crossed).inFlight = [] ∧
      ∀ i, ((after (fun _ => "") (after (fun _ => "") (initial threeNodes ![4, 4, 9]) crossed)
        ([0, 1, 2].map (.act · .timeout))).nodes i).state = .leader ↔ i = 0 ∨ i = 1 := by
  decide +kernel

/-- The same nodes at one term, each message delivered in turn. -/
def orderly : List (Step 3) :=
  [.act 0 .start, .act 1 .start, .act 2 .start] ++ List.replicate 9 (.deliver 0)

theorem leader_unique_orderly :
    (∀ s ∈ orderly, Campaigning s) ∧
      ∀ i j,
        ((after (fun _ => "") (after (fun _ => "") (initial threeNodes ![4, 4, 4]) orderly)
          ([0, 1, 2].map (.act · .timeout))).nodes i).state = .leader →
        ((after (fun _ => "") (after (fun _ => "") (initial threeNodes ![4, 4, 4]) orderly)
          ([0, 1, 2].map (.act · .timeout))).nodes j).state = .leader → i = j := by
  have hcampaign : ∀ s ∈ orderly, Campaigning s := by decide +kernel
  exact ⟨hcampaign, leader_unique threeNodes ![4, 4, 4] (fun _ => "") (by decide +kernel) orderly
    hcampaign (by decide +kernel) (by decide +kernel) [0, 1, 2]⟩

end Election

end Fracture
