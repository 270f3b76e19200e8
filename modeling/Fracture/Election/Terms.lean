import Fracture.Election.Winner

/-!
# How terms grow

A `TermTracker` is shared by threads. `increment` is one atomic access,
but the other two calls load the term and store a newer one, and another
thread may come between. An agent uses its tracker alone: its term grows
with every message it accepts and every election it starts, until it
wraps around.
-/

namespace Fracture

namespace TermTracker

open Runs

/-! ## Threads on one tracker -/

/-- A call that may change the term. -/
inductive Call where
  | increment
  | updateIfNewer (receivedTerm : ℕ)
  | advanceTo (newTerm : ℕ)
deriving DecidableEq, Repr

/-- One atomic access of a thread: the first of a call, or the store that
ends one. -/
inductive Access where
  | call (thread : ℕ) (c : Call)
  | store (thread : ℕ)
deriving DecidableEq, Repr

/-- The tracker and its threads. -/
structure Shared where
  tracker : TermTracker
  /-- The term a thread has found to be newer and stores next. -/
  storing : ℕ → Option ℕ
  /-- What the increments have returned, the last one first. -/
  returned : List ℕ

namespace Shared

def start (T : ℕ) : Shared := ⟨⟨T⟩, fun _ => none, []⟩

/-- `increment` is a `fetch_add`. The others load the term and are done
if theirs is not newer, `advance_to` with a panic. -/
def enter (s : Shared) (thread : ℕ) : Call → Shared
  | .increment =>
    { s with tracker := s.tracker.increment.2, returned := s.tracker.increment.1 :: s.returned }
  | .updateIfNewer term | .advanceTo term =>
    if s.tracker.current < term then
      { s with storing := Function.update s.storing thread (some term) }
    else s

/-- A thread that is about to store makes no other call. -/
def step (s : Shared) : Access → Shared
  | .call thread c => if s.storing thread = none then s.enter thread c else s
  | .store thread =>
    match s.storing thread with
    | some term => { s with tracker := ⟨term⟩, storing := Function.update s.storing thread none }
    | none => s

/-- No increment is at the largest term. -/
def Below (s : Shared) (a : Access) : Prop :=
  ∀ k, a = .call k .increment → s.tracker.current < 2 ^ 64 - 1

/-- The term has not passed the one that is stored. -/
def InTime (s : Shared) (a : Access) : Prop :=
  ∀ k, a = .store k → ∀ term ∈ s.storing k, s.tracker.current ≤ term

/-- The access does not lower the term. -/
def Grows (s : Shared) (a : Access) : Prop := s.tracker.current ≤ (s.step a).tracker.current

instance Grows.decidable (s : Shared) (a : Access) : Decidable (s.Grows a) :=
  inferInstanceAs (Decidable (_ ≤ _))

variable {s : Shared} {a : Access}

/-- Everything an access can do to the term and to what is returned. -/
theorem step_cases (s : Shared) (a : Access) :
    ((s.step a).tracker = s.tracker ∧ (s.step a).returned = s.returned) ∨
    (∃ k, a = .call k .increment ∧ (s.step a).tracker = s.tracker.increment.2 ∧
      (s.step a).returned = s.tracker.increment.1 :: s.returned) ∨
    ∃ k term, a = .store k ∧ s.storing k = some term ∧ (s.step a).tracker = ⟨term⟩ ∧
      (s.step a).returned = s.returned := by
  cases a with
  | call k c =>
    simp only [step]
    split
    · cases c with
      | increment => exact .inr (.inl ⟨k, rfl, rfl, rfl⟩)
      | updateIfNewer term | advanceTo term =>
        simp only [enter]
        split <;> exact .inl ⟨rfl, rfl⟩
    · exact .inl ⟨rfl, rfl⟩
  | store k =>
    cases hk : s.storing k with
    | none => simp [step, hk]
    | some term => exact .inr (.inr ⟨k, term, rfl, hk, by simp [step, hk], by simp [step, hk]⟩)

/-- A store lowers the term exactly if it comes too late. -/
theorem grows_iff_inTime (hbelow : s.Below a) : s.Grows a ↔ s.InTime a := by
  unfold Grows InTime
  rcases s.step_cases a with ⟨ht, -⟩ | ⟨k, rfl, ht, -⟩ | ⟨k, term, rfl, hk, ht, -⟩
  · rw [ht]
    refine ⟨fun _ k ha term hterm => ?_, fun _ => le_rfl⟩
    -- a store that changes nothing stores the term there is
    rw [ha] at ht
    simp only [step, Option.mem_def.mp hterm] at ht
    rw [← ht]
  · have := hbelow k rfl
    rw [ht]
    simp only [increment, reduceCtorEq, false_implies, implies_true, iff_true]
    omega
  · rw [ht]
    constructor
    · rintro hle j hj t hterm
      cases hj
      rw [hk] at hterm
      cases hterm
      exact hle
    · exact fun h => h k rfl term hk

/-- Everything returned is distinct, and no more than the term. -/
structure Fresh (s : Shared) : Prop where
  nodup : s.returned.Nodup
  le : ∀ t ∈ s.returned, t ≤ s.tracker.current

theorem Fresh.step (h : s.Fresh) (hbelow : s.Below a) (hgrows : s.Grows a) : (s.step a).Fresh := by
  rcases s.step_cases a with ⟨ht, hr⟩ | ⟨k, rfl, ht, hr⟩ | ⟨k, term, rfl, -, ht, hr⟩
  · exact ⟨hr ▸ h.nodup, by rw [hr, ht]; exact h.le⟩
  · have hlt := hbelow k rfl
    have hnext : s.tracker.increment.1 = s.tracker.current + 1 :=
      Nat.mod_eq_of_lt (by omega)
    have hnew : ∀ t ∈ s.returned, t < s.tracker.increment.1 := by
      intro t hmem
      rw [hnext]
      exact Nat.lt_succ_of_le (h.le t hmem)
    refine ⟨?_, ?_⟩
    · rw [hr]
      exact List.nodup_cons.mpr ⟨fun hmem => lt_irrefl _ (hnew _ hmem), h.nodup⟩
    · rw [hr, ht]
      rintro t (_ | ⟨_, hmem⟩)
      · exact le_rfl
      · exact (hnew t hmem).le
  · refine ⟨hr ▸ h.nodup, fun t hmem => ?_⟩
    rw [hr] at hmem
    exact (h.le t hmem).trans hgrows

end Shared

open Shared

/-- **The term never decreases and no increment returns a term twice
exactly if every store comes in time**, over any interleaving of the
accesses of any number of threads that never increments the largest
term. -/
theorem terms_grow_iff {T : ℕ} {accesses : List Access}
    (hbelow : Throughout Shared.step Below (.start T) accesses) :
    (Throughout Shared.step Grows (.start T) accesses ∧
      (run Shared.step (.start T) accesses).returned.Nodup) ↔
    Throughout Shared.step InTime (.start T) accesses := by
  have hiff : Throughout Shared.step Grows (.start T) accesses ↔
      Throughout Shared.step InTime (.start T) accesses :=
    hbelow.iff (fun _ => True) trivial (fun _ _ => trivial) fun _ h => grows_iff_inTime h
  refine ⟨fun h => hiff.mp h.1, fun h => ⟨hiff.mpr h, ?_⟩⟩
  have hfresh : (run Shared.step (.start T) accesses).Fresh :=
    (hbelow.and (hiff.mpr h)).invariant Fresh ⟨.nil, nofun⟩ fun hs ha => hs.step ha.1 ha.2
  exact hfresh.nodup

/-- A thread stores the term it has loaded before the others go on. -/
theorem terms_grow_iff_twoThreads :
    (Throughout Shared.step Grows (.start 0)
        [.call 1 .increment, .call 0 (.updateIfNewer 4), .store 0, .call 1 .increment] ∧
      (run Shared.step (.start 0)
        [.call 1 .increment, .call 0 (.updateIfNewer 4), .store 0,
          .call 1 .increment]).returned.Nodup) ↔
    Throughout Shared.step InTime (.start 0)
      [.call 1 .increment, .call 0 (.updateIfNewer 4), .store 0, .call 1 .increment] :=
  terms_grow_iff (by simp [Throughout, Below, Shared.step, enter, start, increment])

/-- Two increments come between the load and the store of `update_if_newer`.
The store takes the term back, and the next increment returns what
another one has returned. -/
theorem store_lowers_term :
    ¬ Throughout Shared.step Grows (.start 0)
        [.call 0 (.updateIfNewer 1), .call 1 .increment, .call 1 .increment, .store 0,
          .call 1 .increment] ∧
      (run Shared.step (.start 0)
        [.call 0 (.updateIfNewer 1), .call 1 .increment, .call 1 .increment, .store 0,
          .call 1 .increment]).returned = [2, 2, 1] := by
  decide +kernel

end TermTracker

/-! ## The life of an agent -/

namespace ElectionAgent

open Runs

/-- What happens to an agent. -/
inductive Input where
  | startElection
  | timeout
  | message (m : ElectionMessage)
deriving DecidableEq, Repr

/-- An agent and the terms it has used or accepted. -/
structure Record where
  agent : ElectionAgent
  terms : List ℕ

namespace Record

def new (a : ElectionAgent) : Record := ⟨a, [a.term.current]⟩

def step (r : Record) : Input → Record
  | .startElection => ⟨r.agent.startElection.2, r.agent.startElection.1 :: r.terms⟩
  | .timeout => { r with agent := r.agent.onElectionTimeout.2 }
  | .message m =>
    ⟨(Election.handle r.agent m).2,
      if r.agent.term.isAcceptable m.term then m.term :: r.terms else r.terms⟩

/-- The term does not decrease, and an election takes one that is greater
than all before. -/
def Advances (r : Record) (i : Input) : Prop :=
  r.agent.term.current ≤ (r.step i).agent.term.current ∧
    (i = .startElection → ∀ t ∈ r.terms, t < r.agent.startElection.1)

instance Advances.decidable (r : Record) (i : Input) : Decidable (r.Advances i) :=
  inferInstanceAs (Decidable (_ ∧ _))

/-- No election starts at the largest term. -/
def Room (r : Record) (i : Input) : Prop :=
  i = .startElection → r.agent.term.current + 1 < 2 ^ 64

end Record

theorem handle_term (a : ElectionAgent) (m : ElectionMessage) :
    (Election.handle a m).2.term.current = max a.term.current m.term := by
  have h : Election.Received (n := 1) ⟨0, 0, m⟩ a _ := Election.received (fun _ => "") ⟨0, 0, m⟩ a
  rcases Nat.lt_or_ge m.term a.term.current with hlt | hle
  · rw [max_eq_left hlt.le]
    generalize hnext : (Election.protocol _).receive _ a = next at h
    have hagent : (Election.handle a m).2 = next.1 := by rw [← hnext]; rfl
    rw [hagent]
    cases h with
    | stale => rfl
    | challenge hm hle | yield hm hle | standDown hm hle | accept hm hle =>
      cases hm
      exact absurd hlt (Nat.not_lt.mpr hle)
  · rw [max_eq_right hle]
    exact h.term hle

theorem onElectionTimeout_term (a : ElectionAgent) : a.onElectionTimeout.2.term = a.term := by
  unfold onElectionTimeout
  split <;> rfl

/-- The agent's term bounds all it has used or accepted. -/
theorem Record.bound_step {r : Record} {i : Input} (h : ∀ t ∈ r.terms, t ≤ r.agent.term.current)
    (ha : r.Room i) :
    (∀ t ∈ (r.step i).terms, t ≤ (r.step i).agent.term.current) ∧ r.Advances i := by
  cases i with
  | startElection =>
    have hnext : r.agent.startElection.1 = r.agent.term.current + 1 := Nat.mod_eq_of_lt (ha rfl)
    have hnew : ∀ t ∈ r.terms, t < r.agent.startElection.1 := by
      intro t hmem
      rw [hnext]
      exact Nat.lt_succ_of_le (h t hmem)
    refine ⟨?_, ?_, fun _ => hnew⟩
    · rintro t (_ | ⟨_, hmem⟩)
      · exact le_rfl
      · exact (hnew t hmem).le
    · have hgrows : r.agent.term.current ≤ r.agent.startElection.1 := by omega
      exact hgrows
  | timeout =>
    have hterm : (r.step .timeout).agent.term = r.agent.term := onElectionTimeout_term _
    exact ⟨hterm ▸ h, hterm ▸ le_rfl, nofun⟩
  | message m =>
    have hterm : (r.step (.message m)).agent.term.current = max r.agent.term.current m.term :=
      handle_term r.agent m
    refine ⟨?_, hterm ▸ le_max_left _ _, nofun⟩
    rw [hterm]
    intro t hmem
    simp only [step] at hmem
    split at hmem
    · rcases List.mem_cons.mp hmem with rfl | hmem
      · exact le_max_right _ _
      · exact (h t hmem).trans (le_max_left _ _)
    · exact (h t hmem).trans (le_max_left _ _)

/-- **An agent's term never decreases and every election takes a new term
exactly if no election starts at the largest one**, whatever messages the
agent receives. -/
theorem start_fresh_iff (a : ElectionAgent) (inputs : List Input) :
    Throughout Record.step Record.Advances (.new a) inputs ↔
      Throughout Record.step Record.Room (.new a) inputs := by
  constructor
  · intro h
    refine h.imp (fun _ => True) trivial (fun _ _ => trivial) ?_
    rintro r i - ⟨hle, -⟩ rfl
    -- past the largest term the sum wraps around to a smaller one
    by_contra hroom
    have hwrap : (r.agent.term.current + 1) % 2 ^ 64 ≤ r.agent.term.current + 1 - 2 ^ 64 := by
      rw [Nat.mod_eq_sub_mod (Nat.not_lt.mp hroom)]
      exact Nat.mod_le _ _
    have hnext : r.agent.term.current ≤ (r.agent.term.current + 1) % 2 ^ 64 := hle
    omega
  · intro h
    refine h.imp (fun r => ∀ t ∈ r.terms, t ≤ r.agent.term.current) ?_
      (fun hr hi => (Record.bound_step hr hi).1) fun hr hi => (Record.bound_step hr hi).2
    intro t hmem
    exact (List.mem_singleton.mp hmem).le

/-- One message takes the agent to the largest term, and its next election
is at term 0. -/
theorem start_wraps :
    ¬ Throughout Record.step Record.Advances (.new (.new ⟨"node", 0⟩ 0))
        [.message (.victory "leader" (2 ^ 64 - 1) ""), .startElection] ∧
      (Election.handle (.new ⟨"node", 0⟩ 0)
        (.victory "leader" (2 ^ 64 - 1) "")).2.startElection.1 = 0 := by
  decide +kernel

end ElectionAgent

end Fracture
