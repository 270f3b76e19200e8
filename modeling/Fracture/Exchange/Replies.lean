import Fracture.Exchange.Connection
import Fracture.Registry.Draining

/-!
# Whose answer is taken

An operation takes the first frame it reads for the answer to its request,
whatever the frame says. That is right as long as the operation starts on
connections where nothing is owed, and nobody else sends or reads there
while it waits. Nothing in the code sees to either: an allocation that
fails on one worker's answer leaves the others' answers unread, and the
next operation takes them for its own.
-/

namespace Fracture

open Session Runs Effect

variable {F : Type}

/-- The frame answers a request of the operation that took it. -/
def Taken.Own (t : Taken) : Prop := t.frame.cause.map Sent.op = some t.op

instance (t : Taken) : Decidable t.Own := inferInstanceAs (Decidable (_ = _))

/-- The operation that runs, and the workers it is still to read from. -/
def LoopTask.reads : LoopTask → Option (ℕ × List String)
  | .idle => none
  | .collecting op _ reading _ _ => some (op, reading)
  | .forwarding op _ nodeId rest => some (op, nodeId :: rest)

/-- What the running operation has read and not looked at. -/
def LoopTask.got : LoopTask → List (String × Except FractureError Came)
  | .collecting _ _ _ got _ => got
  | _ => []

/-- The listener's reconfiguration, and the workers it is still to read
from. -/
def Listening.reads : Listening → Option (ℕ × List String)
  | .idle => none
  | .sent op frames _ => some (op, frames.map (·.1))
  | .waiting op left _ => some (op, left.map (·.1))

namespace Hub

variable {hub hub' : Hub F} {op seqId : ℕ} {id : String} {ids : List String} {frame : Sent}

/-! ## When operations may start -/

/-- Nobody waits for an answer. -/
def Resting (hub : Hub F) : Prop := hub.task.reads = none ∧ hub.listening.reads = none

/-- What a step asks of the state before it, so that no answer is taken by
the wrong operation. -/
def Calm (hub : Hub F) : HubEvent F → Prop
  | .leave _ => hub.Resting
  | .alloc _ | .forward _ =>
    hub.locked = true ∨
      hub.listening.reads = none ∧ ∀ id ∈ hub.pipeline.pipelineOrder, (hub.conns id).Clear
  | .free _ | .freeBestEffort _ | .round _ => hub.locked = true ∨ hub.listening.reads = none
  | .accept capabilities _ _ =>
    hub.locked = true ∨ hub.listening.reads ≠ none ∨
      hub.registry.get capabilities.nodeId = none ∨
        ∀ e ∈ hub.registry.workers, e.nodeId ≠ capabilities.nodeId →
          (hub.conns e.nodeId).Clear ∧ (hub.conns e.nodeId).Quiet
  | _ => True

instance : Decidable hub.Resting := inferInstanceAs (Decidable (_ ∧ _))

instance (hub : Hub F) : ∀ event : HubEvent F, Decidable (hub.Calm event)
  | .leave _ => inferInstanceAs (Decidable hub.Resting)
  | .alloc _ | .forward _ => inferInstanceAs (Decidable (_ ∨ _ ∧ ∀ id ∈ _, (hub.conns id).Clear))
  | .free _ | .freeBestEffort _ | .round _ => inferInstanceAs (Decidable (_ ∨ _))
  | .accept capabilities _ _ =>
    inferInstanceAs (Decidable (_ ∨ _ ∨ _ ∨ ∀ e ∈ hub.registry.workers,
      e.nodeId ≠ capabilities.nodeId → (hub.conns e.nodeId).Clear ∧ (hub.conns e.nodeId).Quiet))
  | .route _ _ | .serve _ _ | .lose _ _ | .read _ | .join _ | .await | .ready | .adopt =>
    inferInstanceAs (Decidable True)

/-! ## The invariant -/

/-- Whoever waits for answers is owed all that is owed on the connections it
is still to read, and what was taken was taken by its operation. -/
structure Orderly (hub : Hub F) : Prop where
  taken : ∀ t ∈ hub.taken, t.Own
  apart : hub.task.reads = none ∨ hub.listening.reads = none
  loop : ∀ op ids, hub.task.reads = some (op, ids) → ∀ id ∈ ids, (hub.conns id).Answers op
  got : ∀ op ids, hub.task.reads = some (op, ids) → ∀ p ∈ hub.task.got, ∀ came,
    p.2 = .ok came → came.cause.map Sent.op = some op
  listener : ∀ op ids, hub.listening.reads = some (op, ids) → ∀ id ∈ ids,
    (hub.registry.get id).isSome → (hub.conns id).Answers op ∧ (hub.conns id).Quiet

/-- What was read answers a request of the operation. -/
def Answer (op : ℕ) (answer : Except FractureError Came) : Prop :=
  ∀ came, answer = .ok came → came.cause.map Sent.op = some op

/-- With nobody waiting there is nothing to keep. -/
theorem orderly_of_resting (htaken : ∀ t ∈ hub.taken, t.Own) (hrest : hub.Resting) :
    hub.Orderly where
  taken := htaken
  apart := .inl hrest.1
  loop op ids h := by rw [hrest.1] at h; cases h
  got op ids h := by rw [hrest.1] at h; cases h
  listener op ids h := by rw [hrest.2] at h; cases h

/-- Nothing was taken by the wrong operation, and the listener does not
wait. -/
def Free (hub : Hub F) : Prop := (∀ t ∈ hub.taken, t.Own) ∧ hub.listening.reads = none

theorem Orderly.free (h : hub.Orderly) (hreads : hub.task.reads = some (op, ids)) : hub.Free :=
  ⟨h.taken, h.apart.resolve_left (by rw [hreads]; exact nofun)⟩

theorem orderly_of_free (h : hub.Free) (htask : hub.task.reads = none) : hub.Orderly :=
  orderly_of_resting h.1 ⟨htask, h.2⟩

/-- While the loop runs an operation, only that has to be kept. -/
theorem orderly_of_task (hfree : hub.Free)
    (htask : hub.task.reads = some (op, ids)) (hconns : ∀ id ∈ ids, (hub.conns id).Answers op)
    (hgot : ∀ p ∈ hub.task.got, Answer op p.2) :
    hub.Orderly where
  taken := hfree.1
  apart := .inr hfree.2
  loop op' ids' h := by
    obtain ⟨rfl, rfl⟩ := Prod.mk.inj (Option.some.inj (htask.symm.trans h))
    exact hconns
  got op' ids' h := by
    obtain ⟨rfl, rfl⟩ := Prod.mk.inj (Option.some.inj (htask.symm.trans h))
    exact hgot
  listener op' ids' h := by rw [hfree.2] at h; cases h

variable {c : Conn}

/-- A step on one connection that leaves what is owed on it alone. -/
theorem Orderly.setConn (h : hub.Orderly)
    (hanswers : ∀ op, (hub.conns id).Answers op → c.Answers op)
    (hquiet : (hub.conns id).Quiet → c.Quiet) : (hub.setConn id c).Orderly := by
  have hconn : ∀ other, (∀ op, (hub.conns other).Answers op →
      ((hub.setConn id c).conns other).Answers op) ∧
      ((hub.conns other).Quiet → ((hub.setConn id c).conns other).Quiet) := by
    intro other
    by_cases hself : other = id
    · subst hself
      rw [conns_setConn_self]
      exact ⟨hanswers, hquiet⟩
    · rw [conns_setConn_of_ne _ hself]
      exact ⟨fun _ h => h, fun h => h⟩
  refine ⟨h.taken, h.apart, ?_, h.got, ?_⟩
  · intro op ids hreads other hother
    exact (hconn other).1 op (h.loop op ids hreads other hother)
  · intro op ids hreads other hother hknown
    obtain ⟨hanswer, hquiet'⟩ := h.listener op ids hreads other hother hknown
    exact ⟨(hconn other).1 op hanswer, (hconn other).2 hquiet'⟩

theorem Orderly.moved (h : hub.Orderly) (hmoved : (hub.conns id).Moved c) :
    (hub.setConn id c).Orderly :=
  h.setConn (fun _ hanswers => hanswers.moved hmoved) fun hquiet => hquiet.moved hmoved

/-! ## Sending -/

/-- A request of an operation, which it waits for. -/
structure Ours (op : ℕ) (frame : Sent) : Prop where
  op : frame.op = op
  awaited : frame.request.awaited = true
  beat : frame.request.msgType ≠ .heartbeat

theorem Ours.alloc (op seqId : ℕ) : Ours op ⟨op, .cacheAlloc seqId⟩ := ⟨rfl, rfl, nofun⟩

theorem Ours.forward (op seqId : ℕ) : Ours op ⟨op, .batchedForward seqId⟩ := ⟨rfl, rfl, nofun⟩

theorem Ours.answers (h : Ours op frame) (hc : c.Answers op) :
    (c.post frame).Answers op := Conn.answers_post hc h.op h.awaited

/-- Sends change nothing but connections, and those by sending frames of a
kind on them. -/
structure Sends (Kind : Sent → Prop) (hub hub' : Hub F) : Prop where
  rest : ∃ conns, hub' = { hub with conns }
  conns : ∀ id, ∃ frames : List Sent, (∀ frame ∈ frames, Kind frame) ∧
    hub'.conns id = frames.foldl Conn.post (hub.conns id)

section Sends

variable {Kind : Sent → Prop}

/-- Any frame. -/
def AnyFrame (_ : Sent) : Prop := True

theorem anyFrame (frame : Sent) : AnyFrame frame := trivial

theorem Sends.refl (hub : Hub F) : Sends Kind hub hub :=
  ⟨⟨hub.conns, rfl⟩, fun _ => ⟨[], List.forall_mem_nil _, rfl⟩⟩

theorem Sends.trans {hub'' : Hub F} (h : Sends Kind hub hub') (h' : Sends Kind hub' hub'') :
    Sends Kind hub hub'' := by
  obtain ⟨_, rfl⟩ := h.rest
  obtain ⟨conns, rfl⟩ := h'.rest
  refine ⟨⟨conns, rfl⟩, ?_⟩
  intro id
  obtain ⟨frames, hframes, hconn⟩ := h.conns id
  obtain ⟨frames', hframes', hconn'⟩ := h'.conns id
  refine ⟨frames ++ frames', ?_, ?_⟩
  · intro frame hframe
    exact (List.mem_append.1 hframe).elim (hframes frame) (hframes' frame)
  · rw [hconn', hconn, List.foldl_append]

theorem Sends.foldl {α : Type} {f : Hub F → α → Hub F} (hf : ∀ hub x, Sends Kind hub (f hub x))
    (xs : List α) (hub : Hub F) : Sends Kind hub (xs.foldl f hub) :=
  xs.foldlRecOn f (.refl hub) fun hub' h x _ => h.trans (hf hub' x)

/-- What a send keeps of a connection, sends keep. -/
theorem Sends.keep (h : Sends Kind hub hub') {P : Conn → Prop}
    (hpost : ∀ frame, Kind frame → ∀ c : Conn, P c → P (c.post frame)) (hid : P (hub.conns id)) :
    P (hub'.conns id) := by
  obtain ⟨frames, hframes, hconn⟩ := h.conns id
  rw [hconn]
  generalize hub.conns id = c at hid
  clear hconn
  induction frames generalizing c with
  | nil => exact hid
  | cons frame frames ih =>
    obtain ⟨hframe, hrest⟩ := List.forall_mem_cons.1 hframes
    exact ih hrest _ (hpost frame hframe c hid)

theorem sends_post (hub : Hub F) (id : String) (hframe : Kind frame) :
    Sends Kind hub (hub.post id frame) := by
  refine ⟨⟨_, rfl⟩, ?_⟩
  intro other
  by_cases hself : other = id
  · subst hself
    exact ⟨[frame], fun _ hmem => List.mem_singleton.1 hmem ▸ hframe, Function.update_self ..⟩
  · exact ⟨[], List.forall_mem_nil _, Function.update_of_ne hself ..⟩

variable (hub) (ids : List String) (hframe : Kind frame)
include hframe

theorem sends_sendEach : Sends Kind hub (sendEach frame ids hub).2 := by
  induction ids generalizing hub with
  | nil => exact .refl hub
  | cons id ids ih =>
    unfold sendEach
    split
    · exact .refl hub
    · exact (sends_post hub id hframe).trans (ih _)

theorem sends_sendQuiet : Sends Kind hub (sendQuiet frame ids hub) := by
  refine Sends.foldl ?_ ids hub
  intro hub id
  split
  · exact sends_post hub id hframe
  · exact .refl hub

end Sends

/-- A change that leaves the tasks as they are. -/
def SameTasks (hub hub' : Hub F) : Prop :=
  hub'.task = hub.task ∧ hub'.listening = hub.listening ∧ hub'.taken = hub.taken

theorem SameTasks.refl (hub : Hub F) : SameTasks hub hub := ⟨rfl, rfl, rfl⟩

theorem SameTasks.trans {hub'' : Hub F} (h : SameTasks hub hub') (h' : SameTasks hub' hub'') :
    SameTasks hub hub'' :=
  ⟨h'.1.trans h.1, h'.2.1.trans h.2.1, h'.2.2.trans h.2.2⟩

theorem SameTasks.foldl {α : Type} {f : Hub F → α → Hub F} (hf : ∀ hub x, SameTasks hub (f hub x))
    (xs : List α) (hub : Hub F) : SameTasks hub (xs.foldl f hub) :=
  xs.foldlRecOn f (.refl hub) fun hub' h x _ => h.trans (hf hub' x)

variable {Kind : Sent → Prop}

theorem Sends.sameTasks (h : Sends Kind hub hub') : SameTasks hub hub' := by
  obtain ⟨_, rfl⟩ := h.rest
  exact ⟨rfl, rfl, rfl⟩

theorem SameTasks.orderly_of_resting (h : SameTasks hub hub') (htaken : ∀ t ∈ hub.taken, t.Own)
    (hrest : hub.Resting) : hub'.Orderly := by
  obtain ⟨htask, hlistening, htaken'⟩ := h
  refine Hub.orderly_of_resting ?_ ?_
  · rw [htaken']
    exact htaken
  · rw [Resting, htask, hlistening]
    exact hrest

theorem sameTasks_processPoll (hub : Hub F) (poll : String × Option (Except FractureError Came)) :
    SameTasks hub (hub.processPoll poll) := by
  unfold processPoll
  split
  · split <;> exact ⟨rfl, rfl, rfl⟩
  · exact .refl hub

theorem sameTasks_pollAcks (hub : Hub F) : SameTasks hub hub.pollAcks := by
  exact SameTasks.foldl sameTasks_processPoll _ _

theorem sameTasks_abortAllSequences (hub : Hub F) : SameTasks hub hub.abortAllSequences := by
  refine SameTasks.foldl (fun hub seqId => ?_) _ (hub.begin.2.setAllocated [])
  exact (sends_sendQuiet hub hub.readyOrder (anyFrame _)).sameTasks

/-- A round leaves the tasks as they are. -/
theorem sameTasks_round (hub : Hub F) (maxMissed nonce : ℕ) :
    SameTasks hub (hub.round maxMissed nonce) := by
  have hpoll := sameTasks_pollAcks hub
  have hjudge : SameTasks hub (hub.judge maxMissed) := by
    unfold judge
    split
    · dsimp only
      split
      · exact hpoll
      · exact SameTasks.trans hpoll (sameTasks_abortAllSequences _)
    · exact .refl hub
  have hsend := (sends_sendQuiet (hub.judge maxMissed) (hub.judge maxMissed).registry.pipelineOrder
    (anyFrame ⟨0, .heartbeat nonce⟩)).sameTasks
  exact hjudge.trans hsend

/-! ## The operations -/

variable {result : Except FractureError Unit} {answer : Except FractureError Came} {came : Came}
  {e : FractureError} {nodeId : String} {succeeded reading rest : List String}
  {got : List (String × Except FractureError Came)}

theorem own_take (htaken : ∀ t ∈ hub.taken, t.Own) (hcause : came.cause.map Sent.op = some op)
    (nodeId : String) : ∀ t ∈ (hub.take op nodeId came).taken, t.Own :=
  List.forall_mem_append.2 ⟨htaken, List.forall_mem_singleton.2 hcause⟩

theorem task_of_unlocked (h : ¬ hub.locked = true) : hub.task = .idle := by
  unfold locked at h
  split at h
  · exact absurd rfl h
  · assumption
  · exact absurd rfl h

theorem mem_of_next (h : c.next = some (.ok came)) : came ∈ c.link.replies := by
  unfold Conn.next at h
  split at h
  · next first rest hreplies =>
    obtain rfl : first = came := Except.ok.inj (Option.some.inj h)
    rw [hreplies]
    exact List.mem_cons_self
  · cases h
  · cases h

/-- What is read, and not passed over, is an answer to the reader. -/
theorem cause_of_next (h : c.Answers op) (hnext : c.next = some answer)
    (hack : ¬ answer.toOption.any (·.isHeartbeatAck) = true) : Answer op answer := by
  rintro came rfl
  have hnot : came.isHeartbeatAck = false := Bool.eq_false_iff.2 hack
  obtain ⟨frame, hcause, hop⟩ := h.cause (mem_of_next hnext) hnot
  rw [hcause, Option.map_some, hop]

/-- An operation that ends after sends it does not wait for. -/
theorem Sends.orderly_finish (hsends : Sends Kind hub hub') (h : hub.Free) :
    (hub'.finish op result).Orderly := by
  obtain ⟨_, rfl⟩ := hsends.rest
  exact orderly_of_free h rfl

section Free

variable (h : hub.Free)
include h

theorem orderly_finish : (hub.finish op result).Orderly :=
  orderly_of_free h rfl

/-- Collecting goes on with answers that are owed to the allocation. -/
theorem orderly_collect (hconns : ∀ id ∈ reading, (hub.conns id).Answers op)
    (hgot : ∀ p ∈ got, Answer op p.2) : (hub.collect op seqId reading got succeeded).Orderly := by
  unfold collect
  split
  · exact orderly_of_free h rfl
  · exact orderly_of_task h rfl hconns hgot

theorem orderly_rollback : (hub.rollback op seqId succeeded e).Orderly :=
  (sends_sendQuiet hub succeeded (anyFrame ⟨op, .cacheFree seqId⟩)).orderly_finish h

/-- A batch goes on to workers that owe nothing to anyone else. -/
theorem orderly_forwardTo (hconns : ∀ id ∈ ids, (hub.conns id).Answers op) :
    (hub.forwardTo op seqId ids).Orderly := by
  cases ids with
  | nil => exact orderly_finish h
  | cons id rest =>
    dsimp only [forwardTo]
    cases hub.sendFault id with
    | some e => exact orderly_finish h
    | none =>
      refine orderly_of_task h rfl ?_ (List.forall_mem_nil _)
      intro other hother
      exact (sends_post hub id (Ours.forward op seqId)).keep
        (fun frame hframe c hc => hframe.answers hc) (hconns other hother)

theorem Free.take (hcause : came.cause.map Sent.op = some op) (nodeId : String) :
    (hub.take op nodeId came).Free :=
  ⟨own_take h.1 hcause nodeId, h.2⟩

section

variable (hclear : ∀ id ∈ hub.pipeline.pipelineOrder, (hub.conns id).Clear)
include hclear

theorem orderly_allocCache (seqId : ℕ) : (hub.allocCache seqId).Orderly := by
  unfold allocCache
  dsimp only [begin]
  split
  · exact orderly_of_free h rfl
  · have hsends := sends_sendEach { hub with nextOp := hub.nextOp + 1 } hub.pipeline.pipelineOrder
      (Ours.alloc hub.nextOp seqId)
    generalize sendEach ⟨hub.nextOp, .cacheAlloc seqId⟩ hub.pipeline.pipelineOrder
      { hub with nextOp := hub.nextOp + 1 } = sent at hsends
    obtain ⟨fault, hub'⟩ := sent
    -- what is sent is the allocation's own
    have hconns : ∀ id ∈ hub.pipeline.pipelineOrder, (hub'.conns id).Answers hub.nextOp :=
      fun id hid => hsends.keep (fun frame hframe c hc => hframe.answers hc)
        ((hclear id hid).answers hub.nextOp)
    obtain ⟨conns, rfl⟩ := hsends.rest
    cases fault with
    | some e => exact orderly_of_free h rfl
    | none =>
      exact orderly_collect h hconns (List.forall_mem_nil _)

theorem orderly_batchedForward (seqIds : List ℕ) : (hub.batchedForward seqIds).Orderly := by
  unfold batchedForward
  dsimp only [begin]
  split
  · exact orderly_of_free h rfl
  · exact orderly_forwardTo h fun id hid => (hclear id hid).answers hub.nextOp

end

/-- Frees are not waited for. -/
theorem orderly_freeCache (seqId : ℕ) : (hub.freeCache seqId).Orderly := by
  unfold freeCache
  dsimp only [begin]
  split
  · split
    · exact (sends_sendEach _ _ (anyFrame _)).orderly_finish h
    · exact (sends_sendEach _ _ (anyFrame _)).orderly_finish h
  · exact orderly_of_free h rfl

theorem orderly_freeCacheBestEffort (seqId : ℕ) : (hub.freeCacheBestEffort seqId).Orderly :=
  (sends_sendQuiet _ _ (anyFrame _)).orderly_finish h

/-- A batch's answer is its own, and the workers behind owe nothing else. -/
theorem orderly_forwardAnswer (hanswer : Answer op answer)
    (hconns : ∀ id ∈ rest, (hub.conns id).Answers op) :
    (hub.forwardAnswer op seqId nodeId rest answer).Orderly := by
  cases answer with
  | error e => exact orderly_finish h
  | ok came =>
    have h' := h.take (hanswer came rfl) nodeId
    dsimp only [forwardAnswer]
    split
    · exact orderly_finish h'
    · split
      · exact orderly_finish h'
      · exact orderly_finish h'
    · split
      · exact orderly_finish h'
      · exact orderly_forwardTo h' hconns
    · exact orderly_finish h'

theorem orderly_joinAnswer (hconns : ∀ id ∈ reading, (hub.conns id).Answers op)
    (hgot : ∀ p ∈ got, Answer op p.2) (hanswer : Answer op answer) :
    (hub.joinAnswer op seqId reading got succeeded id answer).Orderly := by
  cases answer with
  | error e => exact orderly_rollback h
  | ok came =>
    have h' := h.take (hanswer came rfl) id
    dsimp only [joinAnswer]
    split
    · exact orderly_collect h' hconns hgot
    · exact orderly_rollback h'
    · exact orderly_rollback h'

end Free

theorem orderly_advance (h : hub.Orderly) (id : String) :
    (hub.setConn id (hub.conns id).advance).Orderly :=
  h.setConn (fun _ => Conn.answers_advance) Conn.quiet_advance

theorem orderly_read (h : hub.Orderly) (id : String) : (hub.read id).Orderly := by
  have hafter := orderly_advance h id
  unfold read
  split
  · exact h
  · next answer hnext =>
    split
    · exact h
    · next op seqId reading got succeeded htask =>
      have hreads : hub.task.reads = some (op, reading) := by rw [htask]; rfl
      split
      · exact h
      · next hmem =>
        rw [not_not] at hmem
        split
        · exact hafter
        · next hack =>
          refine orderly_of_task (h.free hreads) rfl ?_ ?_
          · intro other hother
            exact hafter.loop op reading hreads other (List.mem_of_mem_erase hother)
          · intro p hp
            rcases List.mem_append.1 hp with hold | hnew
            · exact h.got op reading hreads p (by rw [htask]; exact hold)
            · rw [List.mem_singleton.1 hnew]
              exact cause_of_next (h.loop op reading hreads id hmem) hnext hack
    · next op seqId nodeId rest htask =>
      have hreads : hub.task.reads = some (op, nodeId :: rest) := by rw [htask]; rfl
      split
      · exact h
      · next hself =>
        rw [not_not] at hself
        subst hself
        split
        · exact hafter
        · next hack =>
          refine orderly_forwardAnswer (h.free hreads) ?_ ?_
          · exact cause_of_next (h.loop op _ hreads id List.mem_cons_self) hnext hack
          · intro other hother
            exact hafter.loop op _ hreads other (List.mem_cons_of_mem _ hother)

theorem orderly_join (h : hub.Orderly) (k : ℕ) : (hub.join k).Orderly := by
  unfold join
  split
  · next op seqId reading got succeeded htask =>
    have hreads : hub.task.reads = some (op, reading) := by rw [htask]; rfl
    have hgot : ∀ p ∈ got, Answer op p.2 :=
      fun p hp => h.got op reading hreads p (by rw [htask]; exact hp)
    split
    · exact h
    · next id answer hk =>
      refine orderly_joinAnswer (h.free hreads) (h.loop op reading hreads) ?_ ?_
      · exact fun p hp => hgot p (List.mem_of_mem_eraseIdx hp)
      · exact hgot (id, answer) (List.mem_of_getElem? hk)
  · exact h

/-! ## The listener -/

theorem orderly_await (h : hub.Orderly) : hub.await.Orderly := by
  unfold await
  split
  · next op frames pipeline hlistening =>
    have hreads : hub.listening.reads = some (op, frames.map (·.1)) := by rw [hlistening]; rfl
    have htask : hub.task.reads = none := h.apart.resolve_right (by rw [hreads]; exact nofun)
    exact ⟨h.taken, .inl htask, h.loop, h.got, fun op' ids' hids =>
      h.listener op' ids' (hreads.trans hids)⟩
  · exact h

/-- The listener reads frames that are owed to it, and no heartbeat's
acknowledgement is among them. -/
theorem orderly_ready (h : hub.Orderly) : hub.ready.Orderly := by
  unfold ready
  split
  · next op pipeline hlistening =>
    have hreads : hub.listening.reads = some (op, []) := by rw [hlistening]; rfl
    have htask : hub.task.reads = none := h.apart.resolve_right (by rw [hreads]; exact nofun)
    exact orderly_of_resting h.taken ⟨htask, rfl⟩
  · next op p left pipeline hlistening =>
    have hreads : hub.listening.reads = some (op, p.1 :: left.map (·.1)) := by rw [hlistening]; rfl
    have htask : hub.task.reads = none := h.apart.resolve_right (by rw [hreads]; exact nofun)
    -- with the first worker done, those that are left
    have hleft : ∀ hub' : Hub F, hub'.Orderly → hub'.task = hub.task →
        hub'.listening = hub.listening →
        ({ hub' with listening := .waiting op left pipeline } : Hub F).Orderly := by
      intro hub' h' htask' hlistening'
      refine ⟨h'.taken, .inl (htask' ▸ htask), h'.loop, h'.got, ?_⟩
      intro op' ids' hids id hid
      obtain ⟨rfl, rfl⟩ := Prod.mk.inj (Option.some.inj hids)
      exact h'.listener op _ (hlistening' ▸ hreads) id (List.mem_cons_of_mem _ hid)
    split
    · exact hleft hub h rfl rfl
    · exact h
    · next entry answer hget hnext =>
      have hafter := hleft _ (orderly_advance h p.1) rfl rfl
      obtain ⟨hanswers, hquiet⟩ := h.listener op _ hreads p.1 List.mem_cons_self
        (by rw [hget]; rfl)
      cases answer with
      | error e => exact hafter
      | ok came =>
        have hcause := cause_of_next hanswers hnext
          (by rw [Bool.not_eq_true]; exact hquiet.2 came (mem_of_next hnext)) came rfl
        exact ⟨own_take hafter.taken hcause p.1, hafter.apart, hafter.loop, hafter.got,
          hafter.listener⟩
  · exact h

theorem isSome_get_modify (reg : PeerRegistry F) (nodeId : String)
    (change : WorkerEntry F → WorkerEntry F)
    (hsame : ∀ e, (change e).capabilities = e.capabilities) (id : String) :
    ((reg.modify nodeId change hsame).get id).isSome = (reg.get id).isSome := by
  by_cases hself : id = nodeId
  · subst hself
    rw [PeerRegistry.get_modify_self, Option.isSome_map]
  · rw [PeerRegistry.get_modify_of_ne hself]

theorem isSome_get_assignAll (assignments : List (LayerAssignment F)) (reg : PeerRegistry F)
    (id : String) :
    ((Coordinator.assignAll assignments reg).get id).isSome = (reg.get id).isSome := by
  induction assignments generalizing reg with
  | nil => rfl
  | cons a assignments ih =>
    have htried : ((Coordinator.tryAssign reg a).get id).isSome = (reg.get id).isSome := by
      unfold Coordinator.tryAssign
      cases hassign : reg.assign a.nodeId a with
      | error e => rfl
      | ok reg' =>
        have hreg' := PeerRegistry.assign_eq_ok hassign
        change (reg'.get id).isSome = _
        rw [hreg', isSome_get_modify]
    exact (ih _).trans htried

theorem Ours.layers (op : ℕ) (nodeId : String) (kind : Registration) (a : LayerAssignment F) :
    Ours op ⟨op, (layerFrame nodeId kind a).2⟩ := by
  unfold layerFrame
  split
  · exact ⟨rfl, rfl, nofun⟩
  · exact ⟨rfl, rfl, nofun⟩

theorem sends_layers (hub : Hub F) (frames : List (String × Request)) (op : ℕ)
    (hframes : ∀ p ∈ frames, Ours op ⟨op, p.2⟩) :
    Sends (Ours op) hub (frames.foldl (fun hub p => sendQuiet ⟨op, p.2⟩ [p.1] hub) hub) := by
  refine frames.foldlRecOn _ (.refl hub) fun hub' h p hp => ?_
  exact h.trans (sends_sendQuiet hub' [p.1] (hframes p hp))

variable {kind : Registration}

/-- A reconfiguration that starts on clear connections. -/
theorem orderly_reconfigure {cfg : CoordinatorConfig F} (htaken : ∀ t ∈ hub.taken, t.Own)
    (hrest : hub.Resting)
    (hclear : ∀ id, (hub.registry.get id).isSome → (hub.conns id).Clear ∧ (hub.conns id).Quiet) :
    (hub.reconfigure cfg nodeId kind).Orderly := by
  unfold reconfigure
  split
  · exact orderly_of_resting htaken hrest
  · next r hr =>
    dsimp only [begin]
    have hframes : ∀ p ∈ r.assignments.map (layerFrame nodeId kind),
        Ours hub.nextOp ⟨hub.nextOp, p.2⟩ :=
      List.forall_mem_map.2 fun a _ => .layers hub.nextOp nodeId kind a
    have hsends := sends_layers
      ⟨Coordinator.assignAll r.assignments hub.registry, hub.conns, hub.pipeline, hub.broadcast,
        hub.task, hub.listening, hub.tracker, hub.nextOp + 1, hub.taken, hub.results⟩ _ _ hframes
    generalize List.foldl _ _ _ = sent at hsends ⊢
    have hconns : ∀ id, (hub.registry.get id).isSome →
        (sent.conns id).Answers hub.nextOp ∧ (sent.conns id).Quiet := by
      intro id hid
      obtain ⟨hidclear, hidquiet⟩ := hclear id hid
      exact ⟨hsends.keep (fun frame hframe c hc => hframe.answers hc) (hidclear.answers hub.nextOp),
        hsends.keep (fun frame hframe c hc => Conn.quiet_post hc hframe.beat) hidquiet⟩
    obtain ⟨conns, rfl⟩ := hsends.rest
    split
    · exact orderly_of_resting htaken hrest
    · refine ⟨htaken, .inl hrest.1, ?_, ?_, ?_⟩
      · intro op ids hreads
        exact absurd (hrest.1.symm.trans hreads) nofun
      · intro op ids hreads
        exact absurd (hrest.1.symm.trans hreads) nofun
      · intro op ids hreads id _ hknown
        obtain ⟨rfl, rfl⟩ := Prod.mk.inj (Option.some.inj hreads)
        exact hconns id ((isSome_get_assignAll r.assignments hub.registry id) ▸ hknown)

/-- A worker that connects waits, or everyone is reconfigured. -/
theorem orderly_accept (cfg : CoordinatorConfig F) (h : hub.Orderly) (hrest : hub.Resting)
    {capabilities : WorkerCapabilities F} {handles : List ℕ}
    (hcalm : hub.registry.get capabilities.nodeId = none ∨ ∀ e ∈ hub.registry.workers, e.nodeId ≠
      capabilities.nodeId → (hub.conns e.nodeId).Clear ∧ (hub.conns e.nodeId).Quiet) :
    (hub.accept cfg capabilities kind handles).Orderly := by
  unfold accept
  dsimp only
  split
  · split
    · exact h
    · exact orderly_of_resting h.taken hrest
  · next e hget =>
    rw [PeerRegistry.register_markDead hget]
    refine orderly_reconfigure h.taken hrest ?_
    intro id hid
    by_cases hself : id = capabilities.nodeId
    · subst hself
      rw [conns_setConn_self]
      exact ⟨Conn.clear_of_fresh rfl, Conn.quiet_of_fresh rfl⟩
    · rw [conns_setConn_of_ne _ hself]
      have hknown : (hub.registry.get id).isSome :=
        (congrArg Option.isSome (PeerRegistry.get_rejoin_of_ne hself)) ▸ hid
      obtain ⟨entry, hentry⟩ := Option.isSome_iff_exists.1 hknown
      obtain ⟨hmem, rfl⟩ := PeerRegistry.get_eq_some.1 hentry
      rcases hcalm with hnone | hcalm
      · rw [hget] at hnone
        cases hnone
      · exact hcalm entry hmem hself

/-! ## Whole runs -/

/-- **A calm step keeps order.** -/
theorem orderly_step (cfg : CoordinatorConfig F) (maxMissed : ℕ) (h : hub.Orderly)
    {event : HubEvent F} (hcalm : hub.Calm event) : (hub.step cfg maxMissed event).Orderly := by
  have hunlocked : ∀ {p : Prop}, ¬ hub.locked = true → hub.locked = true ∨ p → p :=
    fun hfree hor => hor.resolve_left hfree
  cases event with
  | route id freeBlocks => exact h.moved (Conn.moved_route _ _)
  | serve id handling => exact h.moved (Conn.moved_serve _ _)
  | lose id why => exact h.moved (Conn.moved_lose _ _)
  | leave id => exact orderly_of_resting h.taken hcalm
  | alloc seqId =>
    dsimp only [step]
    split
    · exact h
    · next hfree =>
      obtain ⟨hlisten, hclear⟩ := hunlocked hfree hcalm
      exact orderly_allocCache ⟨h.taken, hlisten⟩ hclear seqId
  | forward seqIds =>
    dsimp only [step]
    split
    · exact h
    · next hfree =>
      obtain ⟨hlisten, hclear⟩ := hunlocked hfree hcalm
      exact orderly_batchedForward ⟨h.taken, hlisten⟩ hclear seqIds
  | free seqId =>
    dsimp only [step]
    split
    · exact h
    · next hfree => exact orderly_freeCache ⟨h.taken, hunlocked hfree hcalm⟩ seqId
  | freeBestEffort seqId =>
    dsimp only [step]
    split
    · exact h
    · next hfree => exact orderly_freeCacheBestEffort ⟨h.taken, hunlocked hfree hcalm⟩ seqId
  | read id => exact orderly_read h id
  | join k => exact orderly_join h k
  | round nonce =>
    dsimp only [step]
    split
    · exact h
    · next hfree =>
      have hrest : hub.Resting := ⟨by rw [task_of_unlocked hfree]; rfl, hunlocked hfree hcalm⟩
      exact (sameTasks_round hub maxMissed nonce).orderly_of_resting h.taken hrest
  | accept capabilities kind handles =>
    dsimp only [step]
    split
    · next hlistening =>
      split
      · exact h
      · next hfree =>
        have hrest : hub.Resting :=
          ⟨by rw [task_of_unlocked hfree]; rfl, by rw [hlistening]; rfl⟩
        exact orderly_accept cfg h hrest
          ((hunlocked hfree hcalm).resolve_left (not_not.2 hrest.2))
    · exact h
  | await =>
    dsimp only [step]
    split
    · exact h
    · exact orderly_await h
  | ready => exact orderly_ready h
  | adopt =>
    dsimp only [step, adopt]
    split
    · split
      · exact h
      · exact ⟨h.taken, h.apart, h.loop, h.got, h.listener⟩
    · exact h

/-- **No answer goes to the wrong operation** in a run whose operations start
on clear connections, and in which workers do not ask to leave and nothing
else is sent or read while an operation waits. -/
theorem taken_own_of_calm (cfg : CoordinatorConfig F) (maxMissed : ℕ) (registry : PeerRegistry F)
    (pipeline : DistributedPipeline) (events : List (HubEvent F))
    (hcalm : Throughout (step cfg maxMissed) Calm (start registry pipeline) events) :
    ∀ t ∈ (run (step cfg maxMissed) (start registry pipeline) events).taken, t.Own := by
  have hstart : (start registry pipeline).Orderly :=
    orderly_of_resting (List.forall_mem_nil _) ⟨rfl, rfl⟩
  exact (hcalm.invariant Orderly hstart fun h hc => orderly_step cfg maxMissed h hc).taken

/-- A worker that does as it is asked, and one that is out of blocks. -/
def willing : Handling := ⟨none, false, .logits, .protocol "connection closed"⟩

def exhausted : Handling := ⟨some "out of blocks", true, .logits, .protocol "connection closed"⟩

/-- Two workers that serve, with no cache allocated. -/
def twoWorkers : Hub ℚ := start PeerRegistry.twoReady ⟨["w1", "w2"], 8, 4, []⟩

/-- The first worker has no room for sequence 1 and the allocation fails. The
second worker's acknowledgement comes later, and the allocation of sequence
2 takes it. -/
theorem stale_ack_taken :
    ∃ t ∈ (run (step Coordinator.evenly 3) twoWorkers
        [.alloc 1, .route "w1" 0, .serve "w1" exhausted, .read "w1", .join 0,
          .route "w2" 0, .serve "w2" willing, .alloc 2, .read "w2", .join 0]).taken,
      t.frame.reply = .cacheAllocAck 1 ∧ t.op = 1 ∧ ¬ t.Own := by
  decide +kernel

/-- An allocation that succeeds, a heartbeat round and a batch. -/
def calmDay : List (HubEvent ℚ) :=
  [.alloc 1, .route "w1" 0, .serve "w1" willing, .route "w2" 0, .serve "w2" willing, .read "w1",
    .read "w2", .join 0, .join 0, .round 7, .route "w1" 3, .forward [1], .route "w1" 3,
    .serve "w1" { willing with output := .activations }, .read "w1", .read "w1"]

theorem taken_own_calmDay :
    Throughout (step Coordinator.evenly 3) Calm twoWorkers calmDay ∧
      ∀ t ∈ (run (step Coordinator.evenly 3) twoWorkers calmDay).taken, t.Own :=
  have hcalm : Throughout (step Coordinator.evenly 3) Calm twoWorkers calmDay := by decide +kernel
  ⟨hcalm, taken_own_of_calm Coordinator.evenly 3 PeerRegistry.twoReady ⟨["w1", "w2"], 8, 4, []⟩ calmDay
    hcalm⟩

end Hub

end Fracture
