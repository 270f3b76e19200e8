import Fracture.Exchange.Operations

/-!
# One connection

What comes back on a connection is what is owed on it: the answers to the
requests that are waited for, in the order they were sent, and a worker's
wish to leave. An operation that reads takes what it reads for the answer
to its own request. `Answers` says that it is right: all that is owed is
owed to it.

A worker answers a `CacheFree` only if it does not have the sequence, so
`Answers` also says that it has every sequence it is told to free.
-/

namespace Fracture

open Session

/-! ## What is owed -/

/-- The answers that are waited for. -/
def Sent.due (frame : Sent) : List (Option Sent) :=
  if frame.request.awaited then [some frame] else []

/-- What a frame that came back answers. Operations pass over the
acknowledgement of a heartbeat. -/
def Came.mark (came : Came) : List (Option Sent) :=
  if came.isHeartbeatAck then [] else [came.cause]

/-- The sequence that a frame frees. -/
def Sent.freed (frame : Sent) : Option ℕ :=
  match frame.request with
  | .cacheFree seqId => some seqId
  | _ => none

variable {frame : Sent}

theorem Sent.freed_eq_some {seqId : ℕ} :
    frame.freed = some seqId ↔ frame.request = .cacheFree seqId := by
  unfold Sent.freed
  cases frame.request <;> simp

theorem Sent.freed_of_awaited (h : frame.request.awaited = true) : frame.freed = none := by
  rw [Option.eq_none_iff_forall_ne_some]
  intro seqId hfreed
  rw [Sent.freed_eq_some.1 hfreed] at h
  cases h

theorem Sent.due_of_awaited (h : frame.request.awaited = true) :
    frame.due = [some frame] := if_pos h

theorem Sent.due_of_not_awaited (h : frame.request.awaited = false) :
    frame.due = [] := if_neg (by rw [h]; decide)

theorem Sent.eq_some_of_mem_due {x : Option Sent} (h : x ∈ frame.due) : x = some frame := by
  unfold Sent.due at h
  split at h
  · exact List.mem_singleton.1 h
  · cases h

theorem Came.mark_of_not_ack {came : Came} (h : came.isHeartbeatAck = false) :
    came.mark = [came.cause] := if_neg (by rw [h]; decide)

namespace Conn

def owed (c : Conn) : List (Option Sent) := c.link.owed Sent.due Came.mark

/-- The sequences that are told to be freed and are not yet. -/
def freed (c : Conn) : List ℕ := c.link.requests.filterMap Sent.freed

/-- All that is owed is owed to operation `op`. -/
structure Answers (op : ℕ) (c : Conn) : Prop where
  owed : ∀ x ∈ c.owed, ∃ frame : Sent, x = some frame ∧ frame.op = op
  frees : c.freed.Nodup
  known : ∀ seqId ∈ c.freed, seqId ∈ c.handles
  /-- Nothing is freed behind a request that is waited for. -/
  last : c.link.requests.Pairwise fun a b => a.request.awaited = true → b.freed = none

/-- Nothing is owed: no frame but acknowledgements of heartbeats is unread,
and what is under way is answered by none. -/
structure Clear (c : Conn) : Prop where
  owed : c.owed = []
  frees : c.freed.Nodup
  known : ∀ seqId ∈ c.freed, seqId ∈ c.handles

/-- No heartbeat is under way, and no acknowledgement is unread. -/
def Quiet (c : Conn) : Prop :=
  (∀ frame ∈ c.link.requests, frame.request.msgType ≠ .heartbeat) ∧
    ∀ came ∈ c.link.replies, came.isHeartbeatAck = false

instance (c : Conn) : Decidable c.Clear :=
  decidable_of_iff (c.owed = [] ∧ c.freed.Nodup ∧ ∀ seqId ∈ c.freed, seqId ∈ c.handles)
    ⟨fun h => ⟨h.1, h.2.1, h.2.2⟩, fun h => ⟨h.owed, h.frees, h.known⟩⟩

instance (c : Conn) : Decidable c.Quiet := inferInstanceAs (Decidable (_ ∧ _))

variable {c c' : Conn} {op : ℕ} {frame : Sent} {came : Came}

/-- Nothing that is waited for is under way on a clear connection. -/
theorem Clear.not_awaited (h : c.Clear) (hmem : frame ∈ c.link.requests) :
    frame.request.awaited = false := by
  by_contra hawaited
  rw [Bool.not_eq_false] at hawaited
  have hdue : some frame ∈ c.owed := by
    refine List.mem_append_right _ (List.mem_flatMap.2 ⟨frame, hmem, ?_⟩)
    rw [Sent.due_of_awaited hawaited]
    exact List.mem_singleton_self _
  rw [h.owed] at hdue
  cases hdue

/-- A clear connection is ready for any operation. -/
theorem Clear.answers (h : c.Clear) (op : ℕ) : c.Answers op where
  owed := by
    intro x hx
    rw [h.owed] at hx
    cases hx
  frees := h.frees
  known := h.known
  last := by
    refine List.pairwise_of_forall_mem_list fun a ha b _ hawaited => ?_
    rw [h.not_awaited ha] at hawaited
    cases hawaited

theorem clear_of_fresh (hfresh : c.link = .fresh) : c.Clear := by
  have hfreed : c.freed = [] := by rw [freed, hfresh]; rfl
  refine ⟨by rw [owed, hfresh]; rfl, ?_, ?_⟩ <;> rw [hfreed]
  · exact List.nodup_nil
  · exact List.forall_mem_nil _

theorem quiet_of_fresh (hfresh : c.link = .fresh) : c.Quiet := by
  rw [Quiet, hfresh]
  exact ⟨List.forall_mem_nil _, List.forall_mem_nil _⟩

/-- **What is read next is owed to the operation.** -/
theorem Answers.cause (h : c.Answers op) (hmem : came ∈ c.link.replies)
    (hack : came.isHeartbeatAck = false) :
    ∃ frame : Sent, came.cause = some frame ∧ frame.op = op := by
  refine h.owed _ (List.mem_append_left _ (List.mem_flatMap.2 ⟨came, hmem, ?_⟩))
  rw [Came.mark_of_not_ack hack]
  exact List.mem_singleton_self _

section

variable (h : c.Answers op) (howed : c'.owed.Sublist c.owed)
  (hrequests : c'.link.requests.Sublist c.link.requests)
include h howed hrequests

/-- After some requests have been dealt with. -/
theorem Answers.shrink (hknown : ∀ s ∈ c'.freed, s ∈ c'.handles) : c'.Answers op where
  owed x hx := h.owed x (howed.subset hx)
  frees := h.frees.sublist (hrequests.filterMap _)
  known := hknown
  last := h.last.sublist hrequests

/-- The same, where no handle is lost. -/
theorem Answers.shrink_of_subset (hhandles : c.handles ⊆ c'.handles) : c'.Answers op :=
  h.shrink howed hrequests fun s hs => hhandles (h.known s ((hrequests.filterMap _).subset hs))

end

/-! ## The coordinator's steps -/

theorem answers_post (h : c.Answers op) (hop : frame.op = op)
    (hawaited : frame.request.awaited = true) : (c.post frame).Answers op := by
  have hfreed : frame.freed = none := Sent.freed_of_awaited hawaited
  unfold post
  split
  · have hrequests : (c.link.send frame).requests = c.link.requests ++ [frame] :=
      Channel.requests_send
    have hsame : ({ c with link := c.link.send frame } : Conn).freed = c.freed := by
      change (c.link.send frame).requests.filterMap Sent.freed = _
      rw [hrequests, List.filterMap_append, List.filterMap_cons_none hfreed, List.filterMap_nil,
        List.append_nil]
      rfl
    refine ⟨?_, ?_, ?_, ?_⟩
    · intro x hx
      have hx' : x ∈ c.owed ++ frame.due := Channel.owed_send ▸ hx
      rcases List.mem_append.1 hx' with hold | hnew
      · exact h.owed x hold
      · exact ⟨frame, Sent.eq_some_of_mem_due hnew, hop⟩
    · rw [hsame]
      exact h.frees
    · intro s hs
      rw [hsame] at hs
      exact h.known s hs
    · rw [hrequests, List.pairwise_append]
      refine ⟨h.last, List.pairwise_singleton _ _, ?_⟩
      intro a _ b hb _
      rw [List.mem_singleton.1 hb]
      exact hfreed
  · exact h

theorem quiet_post (h : c.Quiet) (hframe : frame.request.msgType ≠ .heartbeat) :
    (c.post frame).Quiet := by
  unfold post
  split
  · refine ⟨?_, h.2⟩
    have hrequests : (c.link.send frame).requests = _ := Channel.requests_send
    change ∀ other ∈ (c.link.send frame).requests, _
    rw [hrequests]
    exact List.forall_mem_append.2 ⟨h.1, List.forall_mem_singleton.2 hframe⟩
  · exact h

theorem answers_advance (h : c.Answers op) : c.advance.Answers op := by
  refine h.shrink_of_subset ?_ (List.Sublist.refl _) (List.Subset.refl _)
  have hread : (c.link.replies.tail.flatMap Came.mark).Sublist (c.link.replies.flatMap Came.mark) :=
    (List.tail_sublist _).flatMap _
  exact hread.append_right _

theorem quiet_advance (h : c.Quiet) : c.advance.Quiet :=
  ⟨h.1, fun came hmem => h.2 came (List.mem_of_mem_tail hmem)⟩

/-! ## The worker's steps -/

/-- What the worker's steps, and a break, can do to a connection. -/
inductive Moved (c : Conn) : Conn → Prop
  | stay : Moved c c
  | lost (process : WorkerProcess) (why : FractureError) :
    Moved c { c with link := c.link.cut, process, fault := some why }
  | acked {frame rest nonce} (freeBlocks : ℕ) (hup : c.fault = none)
    (hwire : c.link.wire = frame :: rest) (hrequest : frame.request = .heartbeat nonce) :
    Moved c { c with
      link := { c.link with wire := rest }.reply ⟨some frame, .heartbeatAck nonce freeBlocks⟩ }
  | queued {frame rest} (hup : c.fault = none) (hwire : c.link.wire = frame :: rest)
    (hrequest : frame.request.msgType ≠ .heartbeat) :
    Moved c { c with link := { c.link with wire := rest, queue := c.link.queue ++ [frame] } }
  /-- A request that is waited for is answered, and one to free a sequence
  that the worker does not have. -/
  | answered {frame rest reply} (process : WorkerProcess) (handles : List ℕ)
    (hup : c.fault = none) (hqueue : c.link.queue = frame :: rest)
    (hcause : frame.request.awaited = true ∨
      ∃ seqId ∉ c.handles, frame.request = .cacheFree seqId)
    (hreply : ∀ cause, Came.isHeartbeatAck ⟨cause, reply⟩ = false) :
    Moved c { c with
      link := { c.link with queue := rest }.reply ⟨some frame, reply⟩, process, handles }
  | dropped {frame rest handles} (process : WorkerProcess) (hup : c.fault = none)
    (hqueue : c.link.queue = frame :: rest)
    (hkept : ∀ s ∈ c.handles, frame.freed ≠ some s → s ∈ handles) :
    Moved c { c with link := { c.link with queue := rest }, process, handles }

theorem moved_lose (c : Conn) (why : FractureError) : c.Moved (c.lose why) := by
  unfold lose
  split
  · exact .lost c.process why
  · exact .stay

theorem moved_route (c : Conn) (freeBlocks : ℕ) : c.Moved (c.route freeBlocks) := by
  unfold route
  split
  · next frame rest hup hwire =>
    split
    · next nonce hrequest =>
      split
      · exact .acked freeBlocks hup hwire hrequest
      · exact .stay
    · next hother =>
      refine .queued hup hwire fun hbeat => ?_
      cases hrequest : frame.request with
      | heartbeat nonce => exact hother nonce hrequest
      | _ => rw [hrequest] at hbeat; cases hbeat
  · exact .stay

/-- What the serve loop makes of a request: an answer, which is no
heartbeat's acknowledgement, or none. -/
theorem handle_cases (how : Handling) (handles : List ℕ) (request : Request) :
    (∃ reply, (handle how handles request).1 = some reply ∧
      (request.awaited = true ∨ ∃ seqId ∉ handles, request = .cacheFree seqId) ∧
      ∀ cause, Came.isHeartbeatAck ⟨cause, reply⟩ = false) ∨
    (handle how handles request).1 = none ∧
      ∀ s ∈ handles, request ≠ .cacheFree s → s ∈ (handle how handles request).2 := by
  cases request with
  | cacheAlloc seqId =>
    dsimp only [handle]
    split
    · exact .inl ⟨_, rfl, .inl rfl, fun _ => rfl⟩
    · split
      · exact .inl ⟨_, rfl, .inl rfl, fun _ => rfl⟩
      · exact .inl ⟨_, rfl, .inl rfl, fun _ => rfl⟩
  | batchedForward seqId =>
    dsimp only [handle]
    split
    · exact .inl ⟨_, rfl, .inl rfl, fun _ => rfl⟩
    · exact .inl ⟨_, rfl, .inl rfl, fun _ => rfl⟩
  | registerAck layers => exact .inl ⟨_, rfl, .inl rfl, fun _ => rfl⟩
  | reconfigure layers => exact .inl ⟨_, rfl, .inl rfl, fun _ => rfl⟩
  | cacheFree seqId =>
    dsimp only [handle]
    split
    · refine .inr ⟨rfl, fun s hs hne => (List.mem_erase_of_ne ?_).2 hs⟩
      rintro rfl
      exact hne rfl
    · next hunknown => exact .inl ⟨_, rfl, .inr ⟨seqId, hunknown, rfl⟩, fun _ => rfl⟩
  | heartbeat nonce => exact .inr ⟨rfl, fun s hs _ => hs⟩

/-- Only the answer to its registration makes a worker serve. -/
theorem awaited_of_receive {process : WorkerProcess} {request : Request}
    {loaded : Option LayerRange} (hprocess : process.isServing = false)
    (h : (process.receive request.msgType request.layers).1 = .serving loaded) :
    request.awaited = true := by
  cases process with
  | serving _ => cases hprocess
  | awaitingAck => cases request <;> first | rfl | cases h
  | standby _ => cases request <;> first | rfl | cases h
  | exited => cases h

theorem moved_serve (c : Conn) (how : Handling) : c.Moved (c.serve how) := by
  unfold serve
  split
  · next frame rest hup hqueue =>
    dsimp only
    split
    · rcases handle_cases how c.handles frame.request with ⟨reply, hanswer, hcause, hreply⟩ |
        ⟨hnone, hkept⟩
      · rw [hanswer]
        exact .answered _ _ hup hqueue hcause hreply
      · rw [hnone]
        exact .dropped _ hup hqueue fun s hs hne => hkept s hs (mt Sent.freed_eq_some.2 hne)
    · next hprocess =>
      rw [Bool.not_eq_true] at hprocess
      split
      · rw [hup]
        exact .lost _ how.closed
      · next loaded hserving =>
        exact .answered _ _ hup hqueue (.inl (awaited_of_receive hprocess hserving)) fun _ => rfl
      · exact .dropped _ hup hqueue fun s hs _ => hs
  · exact .stay

/-- What is left of the requests when the first that waits is taken. -/
theorem requests_of_queue {rest : List Sent} (hqueue : c.link.queue = frame :: rest) :
    c.link.requests = frame :: (rest ++ c.link.wire) := by
  rw [Channel.requests, hqueue]
  rfl

theorem sublist_of_queue {rest : List Sent} (hqueue : c.link.queue = frame :: rest) :
    (rest ++ c.link.wire).Sublist c.link.requests := by
  rw [requests_of_queue hqueue]
  exact List.sublist_cons_self _ _

/-- **The worker leaves what is owed alone.** -/
theorem Answers.moved (h : c.Answers op) (hmoved : c.Moved c') : c'.Answers op := by
  cases hmoved with
  | stay => exact h
  | lost =>
    exact h.shrink_of_subset Channel.owed_cut.sublist (List.nil_sublist _) (List.Subset.refl _)
  | @acked frame rest nonce freeBlocks hup hwire hrequest =>
    have hdue : frame.due = [] := Sent.due_of_not_awaited (by rw [hrequest]; rfl)
    have howed : ({ c.link with wire := rest }.reply
        ⟨some frame, .heartbeatAck nonce freeBlocks⟩).owed Sent.due Came.mark = c.owed :=
      Channel.owed_aside hwire hdue.symm (.inl hdue)
    refine h.shrink_of_subset (howed ▸ List.Sublist.refl _) ?_ (List.Subset.refl _)
    exact List.Sublist.append_left (hwire ▸ List.sublist_cons_self _ _) _
  | @queued frame rest hup hwire =>
    have howed : ({ c.link with wire := rest, queue := c.link.queue ++ [frame] } :
        Channel Sent Came).owed Sent.due Came.mark = c.owed := Channel.owed_take hwire
    have hrequests := Channel.requests_take hwire
    exact h.shrink_of_subset (howed ▸ List.Sublist.refl _) (hrequests ▸ List.Sublist.refl _)
      (List.Subset.refl _)
  | @answered frame rest reply process handles hup hqueue hcause hreply =>
    have hknown : ∀ {seqId}, frame.request = .cacheFree seqId → seqId ∈ c.handles := by
      intro seqId hrequest
      refine h.known seqId (List.mem_filterMap.2 ⟨frame, ?_, Sent.freed_eq_some.2 hrequest⟩)
      rw [requests_of_queue hqueue]
      exact List.mem_cons_self
    have hawaited : frame.request.awaited = true :=
      hcause.resolve_right fun ⟨seqId, hunknown, hrequest⟩ => hunknown (hknown hrequest)
    have howed : ({ c.link with queue := rest }.reply ⟨some frame, reply⟩).owed Sent.due
        Came.mark = c.owed := by
      refine Channel.owed_serve hqueue ?_
      rw [Came.mark_of_not_ack (hreply _), Sent.due_of_awaited hawaited]
    refine h.shrink (howed ▸ List.Sublist.refl _) (sublist_of_queue hqueue) ?_
    -- nothing that frees stands behind it
    have hpairs := h.last
    rw [requests_of_queue hqueue] at hpairs
    intro s hs
    obtain ⟨b, hb, hfreed⟩ := List.mem_filterMap.1 hs
    rw [List.rel_of_pairwise_cons hpairs hb hawaited] at hfreed
    cases hfreed
  | @dropped frame rest handles process hup hqueue hkept =>
    have hdue : ((rest ++ c.link.wire).flatMap Sent.due).Sublist
        (c.link.requests.flatMap Sent.due) := (sublist_of_queue hqueue).flatMap _
    refine h.shrink (hdue.append_left _) (sublist_of_queue hqueue) fun s hs => ?_
    have hnodup := h.frees
    rw [freed, requests_of_queue hqueue, List.filterMap_cons] at hnodup
    refine hkept s (h.known s (((sublist_of_queue hqueue).filterMap _).subset hs)) fun hfreed => ?_
    rw [hfreed] at hnodup
    exact (List.nodup_cons.1 hnodup).1 hs

theorem Quiet.moved (h : c.Quiet) (hmoved : c.Moved c') : c'.Quiet := by
  cases hmoved with
  | stay => exact h
  | lost => exact ⟨List.forall_mem_nil _, h.2⟩
  | @acked frame rest nonce freeBlocks hup hwire hrequest =>
    -- no heartbeat is on the wire
    have hmem : frame ∈ c.link.requests := List.mem_append_right _ (hwire ▸ List.mem_cons_self)
    exact absurd (by rw [hrequest]; rfl) (h.1 frame hmem)
  | queued hup hwire =>
    have hrequests := Channel.requests_take hwire
    exact ⟨fun other hother => h.1 other (hrequests ▸ hother), h.2⟩
  | answered process handles hup hqueue hcause hreply =>
    refine ⟨fun other hother => h.1 other ((sublist_of_queue hqueue).subset hother), ?_⟩
    exact List.forall_mem_append.2 ⟨h.2, List.forall_mem_singleton.2 (hreply _)⟩
  | dropped process hup hqueue =>
    exact ⟨fun other hother => h.1 other ((sublist_of_queue hqueue).subset hother), h.2⟩

end Conn

end Fracture
