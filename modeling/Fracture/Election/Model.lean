import Fracture.Common.Runs
import Mathlib.Data.Prod.Lex
import Mathlib.Data.String.Basic
import Mathlib.Data.List.FinRange

/-!
# The coordinator election

Each node runs an `ElectionAgent`: a bully election where the lower
priority number wins and node ids break ties. Terms are 64-bit counters,
and a message from an older term is ignored. The agents talk over a
network that delivers every message once, in any order.
-/

namespace Fracture

/-! ## Terms -/

/-- The election term of a node, an atomic 64-bit counter. -/
structure TermTracker where
  current : ℕ
deriving DecidableEq, Repr

namespace TermTracker

/-- `fetch_add(1) + 1`, which wraps around. -/
def increment (t : TermTracker) : ℕ × TermTracker :=
  ((t.current + 1) % 2 ^ 64, ⟨(t.current + 1) % 2 ^ 64⟩)

def isAcceptable (t : TermTracker) (receivedTerm : ℕ) : Bool := t.current ≤ receivedTerm

def updateIfNewer (t : TermTracker) (receivedTerm : ℕ) : Bool × TermTracker :=
  if t.current < receivedTerm then (true, ⟨receivedTerm⟩) else (false, t)

@[simp] theorem isAcceptable_iff {t : TermTracker} {r : ℕ} : t.isAcceptable r ↔ t.current ≤ r :=
  decide_eq_true_iff

/-- An accepted term becomes the node's own. -/
theorem updateIfNewer_of_acceptable {t : TermTracker} {r : ℕ} (h : t.current ≤ r) :
    (t.updateIfNewer r).2 = ⟨r⟩ := by
  unfold updateIfNewer
  split
  · rfl
  · have hr : t.current = r := by omega
    cases t
    exact congrArg TermTracker.mk hr

end TermTracker

/-! ## The agent -/

inductive ElectionState where
  | follower
  | candidate
  | leader
deriving DecidableEq, Repr

/-- A candidate steps back, everybody else stays. -/
def ElectionState.standDown : ElectionState → ElectionState
  | .candidate => .follower
  | s => s

/-- The window before an election times out is left to the run. -/
structure ElectionConfig where
  nodeId : String
  priority : ℕ
deriving DecidableEq, Repr

/-- The order of the election: the lower priority number, then the lower
node id. -/
def ElectionConfig.rank (c : ElectionConfig) : ℕ ×ₗ String := toLex (c.priority, c.nodeId)

/-- This node has the higher priority. -/
def ElectionConfig.outranks (c : ElectionConfig) (priority : ℕ) (nodeId : String) : Prop :=
  c.priority < priority ∨ c.priority = priority ∧ c.nodeId < nodeId

instance ElectionConfig.outranks.decidable (c : ElectionConfig) (priority : ℕ) (nodeId : String) :
    Decidable (c.outranks priority nodeId) :=
  inferInstanceAs (Decidable (c.priority < priority ∨ c.priority = priority ∧ c.nodeId < nodeId))

theorem ElectionConfig.outranks_iff {c d : ElectionConfig} :
    c.outranks d.priority d.nodeId ↔ c.rank < d.rank := by
  rw [rank, rank, Prod.Lex.toLex_lt_toLex]
  rfl

/-- What an agent asks of the node it runs on. -/
inductive ElectionAction where
  | none
  | challenge (candidateId : String)
  | declareVictory
  | standDown (leaderId : String)
  | acceptLeader (leaderId coordinatorAddr : String)
deriving DecidableEq, Repr

structure ElectionAgent where
  config : ElectionConfig
  term : TermTracker
  state : ElectionState
deriving DecidableEq, Repr

namespace ElectionAgent

def new (config : ElectionConfig) (initialTerm : ℕ) : ElectionAgent :=
  ⟨config, ⟨initialTerm⟩, .follower⟩

/-- Takes the next term and stands. Gives the term to announce. -/
def startElection (a : ElectionAgent) : ℕ × ElectionAgent :=
  let (newTerm, term) := a.term.increment
  (newTerm, { a with term, state := .candidate })

def onElectionStart (a : ElectionAgent) (candidateId : String) (candidatePriority candidateTerm : ℕ) :
    ElectionAction × ElectionAgent :=
  if a.term.isAcceptable candidateTerm then
    let a := { a with term := (a.term.updateIfNewer candidateTerm).2 }
    if a.config.outranks candidatePriority candidateId then (.challenge candidateId, a)
    else if a.state = .candidate then (.none, { a with state := .follower })
    else (.none, a)
  else (.none, a)

/-- The challenger's priority is only logged. -/
def onElectionChallenge (a : ElectionAgent) (challengerId : String)
    (_challengerPriority challengerTerm : ℕ) : ElectionAction × ElectionAgent :=
  if a.term.isAcceptable challengerTerm then
    let a := { a with term := (a.term.updateIfNewer challengerTerm).2 }
    if a.state = .candidate then (.standDown challengerId, { a with state := .follower })
    else (.none, a)
  else (.none, a)

def onVictory (a : ElectionAgent) (leaderId : String) (leaderTerm : ℕ) (coordinatorAddr : String) :
    ElectionAction × ElectionAgent :=
  if a.term.isAcceptable leaderTerm then
    (.acceptLeader leaderId coordinatorAddr,
      { a with term := (a.term.updateIfNewer leaderTerm).2, state := .follower })
  else (.none, a)

def onElectionTimeout (a : ElectionAgent) : ElectionAction × ElectionAgent :=
  if a.state = .candidate then (.declareVictory, { a with state := .leader }) else (.none, a)

section

variable {a : ElectionAgent} {id : String} {p t : ℕ}

theorem onElectionStart_of_stale (h : t < a.term.current) :
    a.onElectionStart id p t = (.none, a) := by
  simp [onElectionStart, Nat.not_le.mpr h]

theorem onElectionStart_of_outranks (h : a.term.current ≤ t) (ho : a.config.outranks p id) :
    a.onElectionStart id p t = (.challenge id, { a with term := ⟨t⟩ }) := by
  simp [onElectionStart, h, ho, TermTracker.updateIfNewer_of_acceptable]

theorem onElectionStart_of_not_outranks (h : a.term.current ≤ t) (ho : ¬ a.config.outranks p id) :
    a.onElectionStart id p t = (.none, { a with term := ⟨t⟩, state := a.state.standDown }) := by
  simp only [onElectionStart, TermTracker.isAcceptable_iff, h, ho, if_true, if_false,
    TermTracker.updateIfNewer_of_acceptable]
  cases hs : a.state <;> simp [ElectionState.standDown]

theorem onElectionChallenge_of_stale (h : t < a.term.current) :
    a.onElectionChallenge id p t = (.none, a) := by
  simp [onElectionChallenge, Nat.not_le.mpr h]

/-- A challenge is never answered. -/
theorem onElectionChallenge_of_acceptable (id : String) (p : ℕ) (h : a.term.current ≤ t) :
    ∃ action, (action = .none ∨ action = .standDown id) ∧ a.onElectionChallenge id p t =
      (action, { a with term := ⟨t⟩, state := a.state.standDown }) := by
  simp only [onElectionChallenge, TermTracker.isAcceptable_iff, h, if_true,
    TermTracker.updateIfNewer_of_acceptable]
  cases hs : a.state <;> simp [ElectionState.standDown]

theorem onVictory_of_stale {addr : String} (h : t < a.term.current) :
    a.onVictory id t addr = (.none, a) := by
  simp [onVictory, Nat.not_le.mpr h]

theorem onVictory_of_acceptable {addr : String} (h : a.term.current ≤ t) :
    a.onVictory id t addr =
      (.acceptLeader id addr, { a with term := ⟨t⟩, state := .follower }) := by
  simp [onVictory, h, TermTracker.updateIfNewer_of_acceptable]

theorem onElectionTimeout_of_candidate (h : a.state = .candidate) :
    a.onElectionTimeout = (.declareVictory, { a with state := .leader }) := by
  simp [onElectionTimeout, h]

theorem onElectionTimeout_of_ne (h : a.state ≠ .candidate) : a.onElectionTimeout = (.none, a) := by
  simp [onElectionTimeout, h]

end

end ElectionAgent

/-! ## The network

A node carries out the actions its agent asks for: a challenge goes back
to the candidate that announced itself, and a victory to every other
node. -/

/-- The election messages of the wire protocol. -/
inductive ElectionMessage where
  | electionStart (candidateId : String) (priority term : ℕ)
  | electionChallenge (challengerId : String) (priority term : ℕ)
  | victory (leaderId : String) (term : ℕ) (coordinatorAddr : String)
deriving DecidableEq, Repr

def ElectionMessage.term : ElectionMessage → ℕ
  | .electionStart _ _ term => term
  | .electionChallenge _ _ term => term
  | .victory _ term _ => term

/-- An agent stands, or its window expires. -/
inductive ElectionEvent where
  | start
  | timeout
deriving DecidableEq, Repr

namespace Election

open Async

variable {n : ℕ}

abbrev Letter (n : ℕ) := Envelope (Fin n) ElectionMessage

abbrev Net (n : ℕ) := World (Fin n) ElectionAgent ElectionMessage

abbrev Step (n : ℕ) := Event (Fin n) ElectionEvent

/-- One message to every other node. -/
def broadcast (i : Fin n) (m : ElectionMessage) : List (Letter n) :=
  ((List.finRange n).filter (· ≠ i)).map fun j => ⟨i, j, m⟩

/-- What node `i` sends for an action of its agent `a`. A challenge is
the answer to `candidate`. -/
def perform (addr : Fin n → String) (i candidate : Fin n) (a : ElectionAgent) :
    ElectionAction → List (Letter n)
  | .challenge _ =>
    [⟨i, candidate, .electionChallenge a.config.nodeId a.config.priority a.term.current⟩]
  | .declareVictory => broadcast i (.victory a.config.nodeId a.term.current (addr i))
  | .none | .standDown _ | .acceptLeader _ _ => []

/-- The agent's handler for a message. -/
def handle (a : ElectionAgent) : ElectionMessage → ElectionAction × ElectionAgent
  | .electionStart candidateId priority term => a.onElectionStart candidateId priority term
  | .electionChallenge challengerId priority term =>
    a.onElectionChallenge challengerId priority term
  | .victory leaderId term coordinatorAddr => a.onVictory leaderId term coordinatorAddr

/-- The agents of a cluster, each announced by its node under an address. -/
def protocol (addr : Fin n → String) : Protocol (Fin n) ElectionAgent ElectionMessage ElectionEvent
    where
  act i event a :=
    match event with
    | .start =>
      let (term, a) := a.startElection
      (a, broadcast i (.electionStart a.config.nodeId a.config.priority term))
    | .timeout =>
      let (action, a) := a.onElectionTimeout
      (a, perform addr i i a action)
  receive e a :=
    let (action, a) := handle a e.message
    (a, perform addr e.dest e.sender a action)

/-- Every agent as it is made, with nothing sent. -/
def initial (configs : Fin n → ElectionConfig) (terms : Fin n → ℕ) : Net n :=
  ⟨fun i => .new (configs i) (terms i), []⟩

variable (addr : Fin n → String) (i : Fin n)

/-- The network after some steps. -/
def after (w : Net n) (steps : List (Step n)) : Net n :=
  Runs.run (protocol addr).step w steps

@[simp] theorem mem_broadcast {i : Fin n} {m : ElectionMessage} {e : Letter n} :
    e ∈ broadcast i m ↔ e.sender = i ∧ e.dest ≠ i ∧ e.message = m := by
  simp only [broadcast, List.mem_map, List.mem_filter, List.mem_finRange, true_and,
    decide_eq_true_eq]
  constructor
  · rintro ⟨j, hj, rfl⟩
    exact ⟨rfl, hj, rfl⟩
  · rintro ⟨rfl, hd, rfl⟩
    exact ⟨e.dest, hd, rfl⟩

/-- Everything a node can do with a message: what becomes of its agent
and what it sends back. -/
inductive Received (e : Letter n) (a : ElectionAgent) : ElectionAgent × List (Letter n) → Prop
  | stale (h : e.message.term < a.term.current) : Received e a (a, [])
  | challenge {id : String} {p t : ℕ} (hm : e.message = .electionStart id p t)
      (h : a.term.current ≤ t) (ho : a.config.outranks p id) :
      Received e a ({ a with term := ⟨t⟩ },
        [⟨e.dest, e.sender, .electionChallenge a.config.nodeId a.config.priority t⟩])
  | yield {id : String} {p t : ℕ} (hm : e.message = .electionStart id p t)
      (h : a.term.current ≤ t) (ho : ¬ a.config.outranks p id) :
      Received e a ({ a with term := ⟨t⟩, state := a.state.standDown }, [])
  | standDown {id : String} {p t : ℕ} (hm : e.message = .electionChallenge id p t)
      (h : a.term.current ≤ t) :
      Received e a ({ a with term := ⟨t⟩, state := a.state.standDown }, [])
  | accept {id : String} {t : ℕ} {leader : String} (hm : e.message = .victory id t leader)
      (h : a.term.current ≤ t) : Received e a ({ a with term := ⟨t⟩, state := .follower }, [])

theorem received (e : Letter n) (a : ElectionAgent) :
    Received e a ((protocol addr).receive e a) := by
  simp only [protocol]
  cases hm : e.message with
  | electionStart id p t =>
    have hterm : e.message.term = t := by rw [hm]; rfl
    simp only [handle]
    rcases Nat.lt_or_ge t a.term.current with hlt | hle
    · rw [ElectionAgent.onElectionStart_of_stale hlt]
      exact .stale (hterm ▸ hlt)
    by_cases ho : a.config.outranks p id
    · rw [ElectionAgent.onElectionStart_of_outranks hle ho]
      exact .challenge hm hle ho
    · rw [ElectionAgent.onElectionStart_of_not_outranks hle ho]
      exact .yield hm hle ho
  | electionChallenge id p t =>
    have hterm : e.message.term = t := by rw [hm]; rfl
    simp only [handle]
    rcases Nat.lt_or_ge t a.term.current with hlt | hle
    · rw [ElectionAgent.onElectionChallenge_of_stale hlt]
      exact .stale (hterm ▸ hlt)
    obtain ⟨action, hact, heq⟩ := ElectionAgent.onElectionChallenge_of_acceptable id p hle
    rw [heq]
    rcases hact with rfl | rfl <;> exact .standDown hm hle
  | victory id t leader =>
    have hterm : e.message.term = t := by rw [hm]; rfl
    simp only [handle]
    rcases Nat.lt_or_ge t a.term.current with hlt | hle
    · rw [ElectionAgent.onVictory_of_stale hlt]
      exact .stale (hterm ▸ hlt)
    · rw [ElectionAgent.onVictory_of_acceptable hle]
      exact .accept hm hle

theorem act_start (a : ElectionAgent) :
    (protocol addr).act i .start a =
      (⟨a.config, ⟨(a.term.current + 1) % 2 ^ 64⟩, .candidate⟩,
        broadcast i (.electionStart a.config.nodeId a.config.priority
          ((a.term.current + 1) % 2 ^ 64))) := rfl

/-- A candidate whose window expires leads. -/
theorem act_timeout_of_candidate {a : ElectionAgent} (h : a.state = .candidate) :
    (protocol addr).act i .timeout a =
      ({ a with state := .leader },
        broadcast i (.victory a.config.nodeId a.term.current (addr i))) := by
  simp only [protocol, ElectionAgent.onElectionTimeout_of_candidate h, perform]

/-- The window of a node that does not stand expires without effect. -/
theorem step_timeout_of_ne {w : Net n} (h : (w.nodes i).state ≠ .candidate) :
    (protocol addr).step w (.act i .timeout) = w := by
  simp [Protocol.step_act, World.take, protocol, ElectionAgent.onElectionTimeout_of_ne h, perform]

end Election

end Fracture
