import Fracture.Election.Safety

/-!
# The best node wins

All agents are at one term and some of them stand, the best one among
them. Every message then carries the next term, so none is ever ignored,
and nobody challenges the best node. It is the only candidate left when
the messages are delivered, and leads after its timeout at the term that
everybody has reached.
-/

namespace Fracture

namespace Election

open Async

variable {n : ℕ} {configs : Fin n → ElectionConfig} {addr : Fin n → String} {w : Net n} {T N : ℕ}
  {best : Fin n} {e : Letter n}

section

variable {a : ElectionAgent} {next : ElectionAgent × List (Letter n)} (h : Received e a next)
include h

/-- A message that is not ignored sets the agent's term. -/
theorem Received.term (hle : a.term.current ≤ e.message.term) :
    next.1.term.current = e.message.term := by
  cases h with
  | stale hlt => omega
  | challenge hm | yield hm | standDown hm | accept hm =>
    rw [hm]
    rfl

/-- A message of term 0 leaves the agent's term as it is. -/
theorem Received.term_of_zero (hzero : e.message.term = 0) : next.1.term = a.term := by
  cases h with
  | stale => rfl
  | challenge hm hle | yield hm hle | standDown hm hle | accept hm hle =>
    rw [hm] at hzero
    cases hzero
    exact congrArg TermTracker.mk (Nat.le_zero.1 hle).symm

/-- A node that outranks the announced candidate stays what it is. -/
theorem Received.state_of_outranks {id : String} {p t : ℕ} (hm : e.message = .electionStart id p t)
    (ho : a.config.outranks p id) : next.1.state = a.state := by
  cases h with
  | stale | challenge => rfl
  | yield hm' _ hno =>
    cases hm.symm.trans hm'
    exact absurd ho hno
  | standDown hm' | accept hm' => cases hm.symm.trans hm'

end

/-! ## Standing -/

/-- Agents at term `T`, which `N` comes after, have stood and nothing is
delivered yet. -/
structure Opened (configs : Fin n → ElectionConfig) (T N : ℕ) (w : Net n) : Prop where
  genuine : Genuine configs w
  /-- Standing takes an agent to the next term. -/
  node : ∀ i, (w.nodes i).state = .follower ∧ (w.nodes i).term.current = T ∨
    (w.nodes i).state = .candidate ∧ (w.nodes i).term.current = N
  letter : ∀ e ∈ w.inFlight, e.sender ≠ e.dest ∧ ∃ id p, e.message = .electionStart id p N
  announced : ∀ i j, i ≠ j → (w.nodes j).state = .candidate →
    ∃ id p, ⟨j, i, .electionStart id p N⟩ ∈ w.inFlight

theorem opened_initial (configs : Fin n → ElectionConfig) (T N : ℕ) :
    Opened configs T N (initial configs fun _ => T) where
  genuine := genuine_initial configs _
  node _ := .inl ⟨rfl, rfl⟩
  letter _ he := absurd he List.not_mem_nil
  announced _ _ _ hj := by cases hj

/-- At the term of a candidate there are only candidates. -/
theorem Opened.candidate_of_term (h : Opened configs T N w) (hne : T ≠ N) {i j : Fin n}
    (hi : (w.nodes i).state = .candidate) (hterm : (w.nodes j).term = (w.nodes i).term) :
    (w.nodes j).state = .candidate := by
  rcases h.node j with ⟨-, htj⟩ | ⟨hj, -⟩
  · rcases h.node i with ⟨hfollows, -⟩ | ⟨-, hti⟩
    · rw [hi] at hfollows
      cases hfollows
    · exact absurd (htj.symm.trans ((congrArg _ hterm).trans hti)) hne
  · exact hj

theorem Opened.start (h : Opened configs T N w) (hN : (T + 1) % 2 ^ 64 = N) {k : Fin n}
    (hk : (w.nodes k).state = .follower) :
    Opened configs T N ((protocol addr).step w (.act k .start)) := by
  have hterm : (w.nodes k).term.current = T := by
    rcases h.node k with ⟨-, ht⟩ | ⟨hc, -⟩
    · exact ht
    · rw [hk] at hc
      cases hc
  have hnext : ((w.nodes k).term.current + 1) % 2 ^ 64 = N := by rw [hterm, hN]
  refine ⟨h.genuine.step _, ?_, ?_, ?_⟩
  · rw [Protocol.step_act, act_start, hnext]
    exact World.take_forall (fun _ (a : ElectionAgent) =>
      a.state = .follower ∧ a.term.current = T ∨ a.state = .candidate ∧ a.term.current = N)
      h.node (.inr ⟨rfl, rfl⟩)
  · intro e he
    rw [Protocol.step_act, act_start, hnext] at he
    rcases World.mem_take_inFlight.mp he with he | he
    · exact h.letter e he
    · obtain ⟨hsender, hdest, hm⟩ := mem_broadcast.mp he
      exact ⟨fun hsd => hdest (hsd ▸ hsender), _, _, hm⟩
  · intro i j hij hj
    rw [Protocol.step_act, act_start, hnext] at hj ⊢
    by_cases hjk : j = k
    · subst hjk
      exact ⟨_, _, World.mem_take_inFlight.mpr (.inr (mem_broadcast.mpr ⟨rfl, hij, rfl⟩))⟩
    · rw [World.take_nodes_of_ne hjk] at hj
      obtain ⟨id, p, hin⟩ := h.announced i j hij hj
      exact ⟨id, p, World.mem_take_inFlight.mpr (.inl hin)⟩

/-- All the starters stand, each once. -/
theorem Opened.starts (hN : (T + 1) % 2 ^ 64 = N) {starters : List (Fin n)} (hnodup : starters.Nodup)
    (h : Opened configs T N w) (hfollow : ∀ i ∈ starters, (w.nodes i).state = .follower) :
    Opened configs T N (after addr w (starters.map (.act · .start))) := by
  induction starters generalizing w with
  | nil => exact h
  | cons k starters ih =>
    obtain ⟨hk, hnodup⟩ := List.nodup_cons.mp hnodup
    refine ih hnodup (h.start hN (hfollow k (.head _))) fun i hi => ?_
    rw [Protocol.step_act, World.take_nodes_of_ne fun hik : i = k => hk (hik ▸ hi)]
    exact hfollow i (.tail _ hi)

theorem candidate_starts_iff {starters : List (Fin n)} {i : Fin n} :
    ((after addr w (starters.map (.act · .start))).nodes i).state = .candidate ↔
      (w.nodes i).state = .candidate ∨ i ∈ starters := by
  induction starters generalizing w with
  | nil => exact (or_iff_left List.not_mem_nil).symm
  | cons k starters ih =>
    refine ih.trans ?_
    by_cases hik : i = k
    · subst hik
      simp [Protocol.step_act, act_start]
    · simp [Protocol.step_act, World.take_nodes_of_ne hik, hik]

theorem opened_starters (configs : Fin n → ElectionConfig) (addr : Fin n → String)
    (hN : (T + 1) % 2 ^ 64 = N) {starters : List (Fin n)} (hnodup : starters.Nodup) :
    Opened configs T N (after addr (initial configs fun _ => T) (starters.map (.act · .start))) :=
  (opened_initial configs T N).starts hN hnodup fun _ _ => rfl

theorem Opened.term_le (h : Opened configs T N w)
    (hle : T ≤ N ∨ ∀ i, (w.nodes i).state = .candidate) (i : Fin n) :
    (w.nodes i).term.current ≤ N := by
  rcases h.node i with ⟨hs, ht⟩ | ⟨-, ht⟩
  · rcases hle with hle | hall
    · omega
    · rw [hall i] at hs
      cases hs
  · exact ht.le

/-- While every message is of term 0, no delivery changes a term. -/
theorem term_deliveries (hzero : ∀ e ∈ w.inFlight, e.message.term = 0) (ks : List ℕ) (i : Fin n) :
    ((after addr w (ks.map .deliver)).nodes i).term = (w.nodes i).term := by
  induction ks generalizing w with
  | nil => rfl
  | cons k ks ih =>
    rcases (protocol addr).step_deliver w k with ⟨-, heq⟩ | ⟨e, -, hin, heq⟩
    · exact (congrArg (fun w => ((after addr w _).nodes i).term) heq).trans (ih hzero)
    have hrecv := received addr e (w.nodes e.dest)
    refine (congrArg (fun w => ((after addr w _).nodes i).term) heq).trans ((ih ?_).trans ?_)
    · intro e' he'
      rcases World.mem_take_inFlight.mp he' with he' | he'
      · exact hzero e' (World.mem_of_mem_pick he')
      · obtain ⟨-, -, id, p, t, hm, -, hm'⟩ := hrecv.answer he'
        have ht := hzero e hin
        rw [hm] at ht
        rw [hm']
        exact ht
    · exact World.take_forall (fun j (a : ElectionAgent) => a.term = (w.nodes j).term)
        (fun _ => rfl) (hrecv.term_of_zero (hzero e hin)) i

/-! ## Campaigning -/

/-- No agent is past the next term, and every message is one of it. -/
structure Canvassed (configs : Fin n → ElectionConfig) (N : ℕ) (w : Net n) : Prop where
  genuine : Genuine configs w
  contested : Contested configs w
  leaderless : ∀ i, (w.nodes i).state ≠ .leader
  term : ∀ i, (w.nodes i).term.current ≤ N
  letterTerm : ∀ e ∈ w.inFlight, e.message.term = N

theorem Opened.canvassed (h : Opened configs T N w)
    (hterm : ∀ i, (w.nodes i).term.current ≤ N) : Canvassed configs N w where
  genuine := h.genuine
  contested := by
    intro i j hij hj
    have hne : i ≠ j := fun heq => absurd hij (by rw [heq]; exact lt_irrefl _)
    obtain ⟨id, p, hin⟩ := h.announced i j hne hj
    exact .start hin
  leaderless := by
    intro i hi
    rcases h.node i with ⟨hs, -⟩ | ⟨hs, -⟩ <;> rw [hs] at hi <;> cases hi
  term := hterm
  letterTerm := by
    intro e he
    obtain ⟨-, id, p, hm⟩ := h.letter e he
    rw [hm]
    rfl

theorem Canvassed.term_receive (h : Canvassed configs N w) (hin : e ∈ w.inFlight) :
    ((protocol addr).receive e (w.nodes e.dest)).1.term.current = N := by
  have hle : (w.nodes e.dest).term.current ≤ e.message.term := by
    rw [h.letterTerm e hin]
    exact h.term _
  rw [(received addr e _).term hle, h.letterTerm e hin]

theorem Canvassed.deliver (h : Canvassed configs N w) (k : ℕ) :
    Canvassed configs N ((protocol addr).step w (.deliver k)) := by
  have htimely : Timely w (.deliver k) := by
    intro e hk _
    rw [h.letterTerm e (List.mem_of_getElem? hk)]
    exact h.term _
  have hcontested : Contested configs ((protocol addr).step w (.deliver k)) :=
    h.contested.step h.genuine trivial htimely
  have hleaderless : ∀ i, (((protocol addr).step w (.deliver k)).nodes i).state ≠ .leader :=
    no_leader_step h.leaderless trivial
  have hgenuine : Genuine configs ((protocol addr).step w (.deliver k)) := h.genuine.step _
  rcases (protocol addr).step_deliver w k with ⟨-, heq⟩ | ⟨e, -, hin, heq⟩
  · rwa [heq]
  rw [heq] at hcontested hleaderless hgenuine ⊢
  refine ⟨hgenuine, hcontested, hleaderless, ?_, ?_⟩
  · exact World.take_forall (fun _ (a : ElectionAgent) => a.term.current ≤ N) h.term
      (h.term_receive hin).le
  · intro e' he'
    rcases World.mem_take_inFlight.mp he' with he' | he'
    · exact h.letterTerm e' (World.mem_of_mem_pick he')
    · -- a challenge carries the term of the announcement
      obtain ⟨-, -, id, p, t, hm, -, hm'⟩ := (received addr e _).answer he'
      have ht := h.letterTerm e hin
      rw [hm] at ht
      rw [hm']
      exact ht

/-- The best node stands, and every other one is to hear of it. -/
structure Running (configs : Fin n → ElectionConfig) (best : Fin n) (N : ℕ) (w : Net n) : Prop
    extends Canvassed configs N w where
  /-- Nobody challenges the best node. -/
  letter : ∀ e ∈ w.inFlight,
    (e.sender ≠ e.dest ∧ ∃ id p, e.message = .electionStart id p (N)) ∨
    (e.dest ≠ best ∧ ∃ id p, e.message = .electionChallenge id p (N))
  stands : (w.nodes best).state = .candidate
  /-- Every other node reaches the next term by the best node's announcement. -/
  told : ∀ j, (w.nodes j).term.current = N ∨
    ∃ id p, ⟨best, j, .electionStart id p (N)⟩ ∈ w.inFlight

theorem Opened.running (h : Opened configs T N w) (hterm : ∀ i, (w.nodes i).term.current ≤ N)
    (hbest : (w.nodes best).state = .candidate) : Running configs best N w where
  toCanvassed := h.canvassed hterm
  letter e he := .inl (h.letter e he)
  stands := hbest
  told := by
    intro j
    by_cases hj : j = best
    · subst hj
      rcases h.node j with ⟨hs, -⟩ | ⟨-, ht⟩
      · rw [hs] at hbest
        cases hbest
      · exact .inl ht
    · exact .inr (h.announced j best hj hbest)

section

variable (h : Running configs best N w) (hbest : ∀ j ≠ best, (configs best).rank < (configs j).rank)
include h hbest

theorem Running.deliver (k : ℕ) : Running configs best N ((protocol addr).step w (.deliver k)) := by
  have hbase : Canvassed configs N ((protocol addr).step w (.deliver k)) := h.toCanvassed.deliver k
  rcases (protocol addr).step_deliver w k with ⟨-, heq⟩ | ⟨e, hk, hin, heq⟩
  · rwa [heq]
  rw [heq] at hbase ⊢
  have hrecv := received addr e (w.nodes e.dest)
  refine ⟨hbase, ?_, ?_, ?_⟩
  · intro e' he'
    rcases World.mem_take_inFlight.mp he' with he' | he'
    · exact h.letter e' (World.mem_of_mem_pick he')
    -- the answer to an announcement goes to a node that the receiver outranks
    obtain ⟨-, hdest, id, p, t, hm, ho, hm'⟩ := hrecv.answer he'
    obtain ⟨rfl, rfl⟩ := h.genuine.start e hin hm
    rw [h.genuine.config, ElectionConfig.outranks_iff] at ho
    have ht : t = N := by
      have := h.letterTerm e hin
      rwa [hm] at this
    refine .inr ⟨fun hb => ?_, _, _, ht ▸ hm'⟩
    rw [hdest] at hb
    rw [hb] at ho
    by_cases hdb : e.dest = best
    · rw [hdb] at ho
      exact lt_irrefl _ ho
    · exact lt_asymm ho (hbest _ hdb)
  · by_cases hdb : best = e.dest
    · -- the best node outranks every candidate it hears of
      rcases h.letter e hin with ⟨hsd, id, p, hm⟩ | ⟨hne, -⟩
      · obtain ⟨rfl, rfl⟩ := h.genuine.start e hin hm
        have ho : (w.nodes e.dest).config.outranks (configs e.sender).priority
            (configs e.sender).nodeId := by
          rw [h.genuine.config, ElectionConfig.outranks_iff, ← hdb]
          exact hbest _ fun hsb => hsd (hsb.trans hdb)
        rw [hdb, World.take_nodes_self, hrecv.state_of_outranks hm ho, ← hdb]
        exact h.stands
      · exact absurd hdb.symm hne
    · rw [World.take_nodes_of_ne hdb]
      exact h.stands
  · intro j
    by_cases hjd : j = e.dest
    · subst hjd
      rw [World.take_nodes_self]
      exact .inl (h.term_receive hin)
    · rw [World.take_nodes_of_ne hjd]
      refine (h.told j).imp_right fun ⟨id, p, hmem⟩ => ⟨id, p, ?_⟩
      rcases World.eq_or_mem_pick hk hmem with rfl | hmem
      · exact absurd rfl hjd
      · exact World.mem_take_inFlight.mpr (.inl hmem)

theorem Running.deliveries (ks : List ℕ) :
    Running configs best N (after addr w (ks.map .deliver)) := by
  induction ks generalizing w with
  | nil => exact h
  | cons k ks ih => exact ih (h.deliver hbest k)

end

/-! ## Winning -/

/-- The best node is the only one that may lead, at a term all are at. -/
structure Won (best : Fin n) (N : ℕ) (w : Net n) : Prop where
  term : ∀ i, (w.nodes i).term.current = N
  others : ∀ j ≠ best, (w.nodes j).state = .follower
  stands : (w.nodes best).state ≠ .follower
  /-- Only its victory is on its way. -/
  letter : ∀ e ∈ w.inFlight, e.dest ≠ best ∧ ∃ id leader, e.message = .victory id (N) leader

/-- With every message delivered only the best node stands. -/
theorem Running.won (h : Running configs best N w)
    (hbest : ∀ j ≠ best, (configs best).rank < (configs j).rank) (hdone : w.inFlight = []) :
    Won best N w where
  term := by
    intro j
    refine (h.told j).resolve_right ?_
    rintro ⟨id, p, hin⟩
    exact absurd (hdone ▸ hin) List.not_mem_nil
  others := by
    intro j hj
    cases hs : (w.nodes j).state with
    | follower => rfl
    | leader => exact absurd hs (h.leaderless j)
    | candidate => exact absurd (hbest j hj) (h.contested.not_outranked hdone hs)
  stands := by simp [h.stands]
  letter e he := absurd (hdone ▸ he) List.not_mem_nil

/-- Windows expire and messages are delivered; nobody stands any more. -/
def Concluding : Step n → Prop
  | .act _ .start => False
  | .act _ .timeout | .deliver _ => True

/-- What happens to the winner's own agent. -/
theorem Won.timeout_best (h : Won best N w) :
    Won best N ((protocol addr).step w (.act best .timeout)) ∧
      (((protocol addr).step w (.act best .timeout)).nodes best).state = .leader := by
  by_cases hs : (w.nodes best).state = .candidate
  · rw [Protocol.step_act, act_timeout_of_candidate addr best hs]
    refine ⟨⟨?_, ?_, ?_, ?_⟩, by rw [World.take_nodes_self]⟩
    · exact World.take_forall (fun _ (a : ElectionAgent) => a.term.current = N) h.term
        (h.term best)
    · intro j hj
      rw [World.take_nodes_of_ne hj]
      exact h.others j hj
    · simp
    · intro e he
      rcases World.mem_take_inFlight.mp he with he | he
      · exact h.letter e he
      · obtain ⟨-, hdest, hm⟩ := mem_broadcast.mp he
        rw [h.term best] at hm
        exact ⟨hdest, _, _, hm⟩
  · -- it leads already
    have hleads : (w.nodes best).state = .leader := by
      cases hst : (w.nodes best).state with
      | follower => exact absurd hst h.stands
      | candidate => exact absurd hst hs
      | leader => rfl
    rw [step_timeout_of_ne addr best hs]
    exact ⟨h, hleads⟩

theorem Won.step (h : Won best N w) {s : Step n} (hs : Concluding s) :
    Won best N ((protocol addr).step w s) ∧ ((w.nodes best).state = .leader →
      (((protocol addr).step w s).nodes best).state = .leader) := by
  cases s with
  | act i event =>
    cases event with
    | start => exact hs.elim
    | timeout =>
      by_cases hi : i = best
      · subst hi
        exact ⟨h.timeout_best.1, fun _ => h.timeout_best.2⟩
      · -- a follower's timeout does nothing
        have hnot : (w.nodes i).state ≠ .candidate := by simp [h.others i hi]
        rw [step_timeout_of_ne addr i hnot]
        exact ⟨h, id⟩
  | deliver k =>
    have hothers : ∀ j ≠ best,
        (((protocol addr).step w (.deliver k)).nodes j).state = .follower := by
      intro j hj
      rcases state_deliver addr w k j with hst | hst
      · exact hst.trans (h.others j hj)
      · exact hst
    rcases (protocol addr).step_deliver w k with ⟨-, heq⟩ | ⟨e, -, hin, heq⟩
    · rw [heq]
      exact ⟨h, id⟩
    rw [heq] at hothers ⊢
    obtain ⟨hdest, vid, leader, hm⟩ := h.letter e hin
    have hterm : e.message.term = N := by rw [hm]; rfl
    have hrecv := received addr e (w.nodes e.dest)
    have hkeep : (((w.pick k).take e.dest ((protocol addr).receive e (w.nodes e.dest))).nodes
        best) = w.nodes best := World.take_nodes_of_ne hdest.symm
    refine ⟨⟨?_, hothers, ?_, ?_⟩, fun hl => by rwa [hkeep]⟩
    · refine World.take_forall (fun _ (a : ElectionAgent) => a.term.current = N) h.term ?_
      rw [hrecv.term (by rw [hterm, h.term e.dest]), hterm]
    · rw [hkeep]
      exact h.stands
    · intro e' he'
      rcases World.mem_take_inFlight.mp he' with he' | he'
      · exact h.letter e' (World.mem_of_mem_pick he')
      · -- a victory is never answered
        obtain ⟨-, -, _, _, _, hstart, -⟩ := hrecv.answer he'
        rw [hm] at hstart
        cases hstart

/-- The winner leads once its window has expired. -/
theorem Won.steps (h : Won best N w) {rest : List (Step n)} (hrest : ∀ s ∈ rest, Concluding s) :
    Won best N (after addr w rest) ∧
      ((w.nodes best).state = .leader ∨ .act best .timeout ∈ rest →
        ((after addr w rest).nodes best).state = .leader) := by
  induction rest generalizing w with
  | nil => exact ⟨h, fun hl => hl.resolve_right List.not_mem_nil⟩
  | cons s rest ih =>
    have hs := hrest s (.head _)
    have hstep : Won best N ((protocol addr).step w s) ∧ ((w.nodes best).state = .leader →
        (((protocol addr).step w s).nodes best).state = .leader) := h.step hs
    obtain ⟨hwon, hleads⟩ := ih hstep.1 fun s' hs' => hrest s' (.tail _ hs')
    refine ⟨hwon, fun hl => hleads ?_⟩
    rcases hl with hl | hl
    · exact .inl (hstep.2 hl)
    · rcases List.mem_cons.mp hl with rfl | hl
      · exact .inl h.timeout_best.2
      · exact .inr hl

/-- It leads alone, and everybody is at its term. -/
theorem Won.leader_iff (h : Won best N w) (hl : (w.nodes best).state = .leader) :
    (∀ i j, (w.nodes i).term = (w.nodes j).term) ∧
      ∀ i, (w.nodes i).state = .leader ↔ i = best := by
  refine ⟨fun i j => ?_, fun i => ⟨fun hi => ?_, ?_⟩⟩
  · exact congrArg TermTracker.mk ((h.term i).trans (h.term j).symm)
  · by_contra hne
    rw [h.others i hne] at hi
    cases hi
  · rintro rfl
    exact hl

/-- The starters stand, from one term, and then messages are delivered. -/
def campaign (configs : Fin n → ElectionConfig) (addr : Fin n → String) (T : ℕ)
    (starters : List (Fin n)) (deliveries : List ℕ) : Net n :=
  after addr (after addr (initial configs fun _ => T) (starters.map (.act · .start)))
    (deliveries.map .deliver)

/-- **The best node wins** exactly if the common term is not the largest one,
or everybody stands. The starters stand, the best node among them, and
every message is delivered: then the best node is the only candidate and
everybody else follows. Whatever is delivered and expires after that, from
the best node's timeout on, it is the only leader and all are at its
term. -/
theorem best_elected_iff (configs : Fin n → ElectionConfig) (addr : Fin n → String) {T : ℕ}
    (hT : T < 2 ^ 64) {best : Fin n}
    (hbest : ∀ j ≠ best, (configs best).rank < (configs j).rank) {starters : List (Fin n)}
    (hnodup : starters.Nodup) (hstarts : best ∈ starters) (deliveries : List ℕ)
    (hdone : (campaign configs addr T starters deliveries).inFlight = []) :
    (((campaign configs addr T starters deliveries).nodes best).state = .candidate ∧
      (∀ j ≠ best, ((campaign configs addr T starters deliveries).nodes j).state = .follower) ∧
      ∀ rest : List (Step n), (∀ s ∈ rest, Concluding s) → .act best .timeout ∈ rest →
        (∀ i j, ((after addr (campaign configs addr T starters deliveries) rest).nodes i).term =
          ((after addr (campaign configs addr T starters deliveries) rest).nodes j).term) ∧
        ∀ i, ((after addr (campaign configs addr T starters deliveries) rest).nodes i).state =
          .leader ↔ i = best) ↔
      T + 1 < 2 ^ 64 ∨ ∀ i, i ∈ starters := by
  have hopen : Opened configs T ((T + 1) % 2 ^ 64)
      (after addr (initial configs fun _ => T) (starters.map (.act · .start))) :=
    opened_starters configs addr rfl hnodup
  have hstands : ((after addr (initial configs fun _ => T) (starters.map (.act · .start))).nodes
      best).state = .candidate := candidate_starts_iff.mpr (.inr hstarts)
  constructor
  · rintro ⟨hcandidate, -, hend⟩
    by_contra! hnot
    obtain ⟨hlast, k, hk⟩ := hnot
    have hzero : (T + 1) % 2 ^ 64 = 0 := by omega
    rw [hzero] at hopen
    have hterm : ∀ i, ((campaign configs addr T starters deliveries).nodes i).term = _ :=
      term_deliveries (fun e he => by
        obtain ⟨-, id, p, hm⟩ := hopen.letter e he
        rw [hm]
        rfl) deliveries
    -- the best node's timeout changes no term
    obtain ⟨hsame, -⟩ := hend [.act best .timeout] (by simp [Concluding]) (.head _)
    have hkb : k ≠ best := fun h => hk (h ▸ hstarts)
    have heq : ((campaign configs addr T starters deliveries).nodes k).term =
        ((campaign configs addr T starters deliveries).nodes best).term := by
      have := hsame k best
      simpa [after, Runs.run, Protocol.step_act, act_timeout_of_candidate addr best hcandidate,
        World.take_nodes_of_ne hkb] using this
    rw [hterm, hterm] at heq
    have hkstands := hopen.candidate_of_term (by omega) hstands heq
    exact hk ((candidate_starts_iff.mp hkstands).resolve_left (by simp [initial, ElectionAgent.new]))
  · intro hcond
    have hterm := hopen.term_le (by
      refine hcond.imp (fun hlt => ?_) fun hall i => candidate_starts_iff.mpr (.inr (hall i))
      rw [Nat.mod_eq_of_lt hlt]
      exact Nat.le_succ T)
    have hrun : Running configs best _ (campaign configs addr T starters deliveries) :=
      (hopen.running hterm hstands).deliveries hbest deliveries
    have hwon := hrun.won hbest hdone
    refine ⟨hrun.stands, hwon.others, fun rest hrest hmem => ?_⟩
    exact (hwon.steps hrest).1.leader_iff ((hwon.steps hrest).2 (.inr hmem))

/-- Two of three nodes stand, and the messages come in some order. -/
theorem best_elected_iff_threeNodes :
    ((campaign threeNodes (fun _ => "") 4 [2, 0] [3, 0, 1, 0, 0, 0]).nodes 0).state = .candidate ∧
      (∀ j ≠ 0, ((campaign threeNodes (fun _ => "") 4 [2, 0] [3, 0, 1, 0, 0, 0]).nodes j).state =
        .follower) ∧
      ∀ rest : List (Step 3), (∀ s ∈ rest, Concluding s) → .act 0 .timeout ∈ rest →
        (∀ i j,
          ((after (fun _ => "") (campaign threeNodes (fun _ => "") 4 [2, 0] [3, 0, 1, 0, 0, 0])
            rest).nodes i).term =
          ((after (fun _ => "") (campaign threeNodes (fun _ => "") 4 [2, 0] [3, 0, 1, 0, 0, 0])
            rest).nodes j).term) ∧
        ∀ i, ((after (fun _ => "") (campaign threeNodes (fun _ => "") 4 [2, 0] [3, 0, 1, 0, 0, 0])
          rest).nodes i).state = .leader ↔ i = 0 :=
  (best_elected_iff threeNodes (fun _ => "") (by decide) (by decide +kernel) (by decide)
    (by decide) [3, 0, 1, 0, 0, 0] (by decide +kernel)).2 (.inl (by decide))

/-- At the largest term a starter wraps around to term 0, and its victory
is ignored by a node that did not stand. -/
theorem terms_part :
    (∀ j ≠ 0, (threeNodes 0).rank < (threeNodes j).rank) ∧
      (campaign threeNodes (fun _ => "") (2 ^ 64 - 1) [0] [0, 0]).inFlight = [] ∧
      (after (fun _ => "") (campaign threeNodes (fun _ => "") (2 ^ 64 - 1) [0] [0, 0])
        [.act 0 .timeout, .deliver 0, .deliver 0]).inFlight = [] ∧
      ((after (fun _ => "") (campaign threeNodes (fun _ => "") (2 ^ 64 - 1) [0] [0, 0])
        [.act 0 .timeout, .deliver 0, .deliver 0]).nodes 0).term = ⟨0⟩ ∧
      ((after (fun _ => "") (campaign threeNodes (fun _ => "") (2 ^ 64 - 1) [0] [0, 0])
        [.act 0 .timeout, .deliver 0, .deliver 0]).nodes 1).term = ⟨2 ^ 64 - 1⟩ := by
  decide +kernel

end Election

end Fracture
