import Fracture.Exchange.Replies

/-!
# Acknowledged heartbeats

A heartbeat's acknowledgement comes back on the connection that also
carries the answers to operations. A round judges a worker by one frame: it
reads the first that is unread, and counts a miss unless that is the
acknowledgement of the last heartbeat. An operation that reads before the
round passes over the acknowledgement and drops it, and a frame that was
left unread hides it. A worker that answers every heartbeat in time may be
found dead.
-/

namespace Fracture

open Session Runs

variable {F : Type}

/-! ## Heartbeats on a connection -/

/-- The nonce of a heartbeat. -/
def Sent.beat (frame : Sent) : List ℕ :=
  match frame.request with
  | .heartbeat nonce => [nonce]
  | _ => []

/-- The nonce an acknowledgement echoes. -/
def Came.echo (came : Came) : List ℕ :=
  match came.reply with
  | .heartbeatAck nonce _ => [nonce]
  | _ => []

theorem Came.echo_of_not_ack {came : Came} (h : came.isHeartbeatAck = false) : came.echo = [] := by
  unfold Came.isHeartbeatAck at h
  unfold Came.echo
  cases hreply : came.reply with
  | heartbeatAck nonce freeBlocks =>
    rw [hreply] at h
    cases h
  | _ => rfl

theorem Came.reply_of_ack {came : Came} (h : came.isHeartbeatAck = true) :
    ∃ nonce freeBlocks, came.reply = .heartbeatAck nonce freeBlocks := by
  unfold Came.isHeartbeatAck at h
  split at h
  · next nonce freeBlocks heq => exact ⟨nonce, freeBlocks, heq⟩
  · cases h

theorem Sent.beat_of_not_heartbeat {frame : Sent} (h : frame.request.msgType ≠ .heartbeat) :
    frame.beat = [] := by
  unfold Sent.beat
  cases hrequest : frame.request with
  | heartbeat nonce =>
    rw [hrequest] at h
    exact absurd rfl h
  | _ => rfl

namespace Conn

/-- The heartbeats of which nobody has read the acknowledgement. -/
def beats (c : Conn) : List ℕ := c.link.owed Sent.beat Came.echo

/-- The router keeps heartbeats from the serve loop. -/
def Routed (c : Conn) : Prop := ∀ frame ∈ c.link.queue, frame.beat = []

variable {c : Conn} {frame : Sent}

theorem Routed.flatMap_queue (h : c.Routed) : c.link.queue.flatMap Sent.beat = [] := by
  rw [List.flatMap_eq_nil_iff]
  exact h

/-- What the steps of a worker do to its heartbeats: nothing, unless the
connection breaks. -/
structure KeepsBeats (c c' : Conn) : Prop where
  routed : c'.Routed
  beats : c'.fault = none → c.fault = none ∧ c'.beats = c.beats

theorem KeepsBeats.refl (h : c.Routed) : KeepsBeats c c := ⟨h, fun hup => ⟨hup, rfl⟩⟩

/-- **The worker leaves heartbeats alone.** -/
theorem Routed.moved {c' : Conn} (h : c.Routed) (hmoved : c.Moved c') : KeepsBeats c c' := by
  have hrest : ∀ {frame rest}, c.link.queue = frame :: rest →
      frame.beat = [] ∧ ∀ other ∈ rest, other.beat = [] := by
    intro frame rest hqueue
    unfold Routed at h
    rw [hqueue] at h
    exact List.forall_mem_cons.1 h
  cases hmoved with
  | stay => exact .refl h
  | lost => exact ⟨List.forall_mem_nil _, nofun⟩
  | @acked frame rest nonce freeBlocks hup hwire hrequest =>
    have hbeat : frame.beat = [nonce] := by rw [Sent.beat, hrequest]
    exact ⟨h, fun _ => ⟨hup, Channel.owed_aside hwire hbeat.symm (.inr h.flatMap_queue)⟩⟩
  | queued hup hwire hrequest =>
    refine ⟨?_, fun _ => ⟨hup, Channel.owed_take hwire⟩⟩
    exact List.forall_mem_append.2
      ⟨h, List.forall_mem_singleton.2 (Sent.beat_of_not_heartbeat hrequest)⟩
  | answered process handles hup hqueue hcause hreply =>
    refine ⟨(hrest hqueue).2, fun _ => ⟨hup, Channel.owed_serve hqueue ?_⟩⟩
    rw [Came.echo_of_not_ack (hreply _), (hrest hqueue).1]
  | dropped process hup hqueue =>
    exact ⟨(hrest hqueue).2, fun _ => ⟨hup, Channel.owed_drop hqueue (hrest hqueue).1⟩⟩

theorem keepsBeats_leave (h : c.Routed) : KeepsBeats c c.leave := by
  unfold leave
  split
  · next hup =>
    split
    · exact ⟨h, fun _ => ⟨hup, Channel.owed_reply_of_nil rfl⟩⟩
    · exact .refl h
  · exact .refl h

/-- A request that is not a heartbeat. -/
theorem keepsBeats_post (h : c.Routed) (hframe : frame.request.msgType ≠ .heartbeat) :
    KeepsBeats c (c.post frame) := by
  unfold post
  split
  · next hup =>
    refine ⟨h, fun _ => ⟨hup, ?_⟩⟩
    change (c.link.send frame).owed Sent.beat Came.echo = _
    rw [Channel.owed_send, Sent.beat_of_not_heartbeat hframe, List.append_nil]
    rfl
  · exact .refl h

/-- A heartbeat goes out. -/
theorem beats_post_heartbeat (hup : c.fault = none) (op nonce : ℕ) :
    (c.post ⟨op, .heartbeat nonce⟩).beats = c.beats ++ [nonce] := by
  unfold post
  rw [hup]
  exact Channel.owed_send

/-- While a connection is up, what is read next is its first frame. -/
theorem head_of_next {answer : Except FractureError Came} (hup : c.fault = none)
    (hnext : c.next = some answer) : ∃ came, answer = .ok came ∧ came ∈ c.link.replies.head? := by
  unfold next at hnext
  split at hnext
  · next first rest hreplies =>
    refine ⟨first, (Option.some.inj hnext).symm, ?_⟩
    rw [hreplies]
    rfl
  · next hfault =>
    rw [hup] at hfault
    cases hfault
  · cases hnext

/-- Reading takes the first frame's heartbeat, if it acknowledges one. -/
theorem beats_advance {came : Came} (hnext : c.next = some (.ok came)) :
    c.beats = came.echo ++ c.advance.beats := by
  unfold next at hnext
  split at hnext
  · next first rest hreplies =>
    obtain rfl : first = came := Except.ok.inj (Option.some.inj hnext)
    have htail : c.advance.link = { c.link with replies := rest } := by
      unfold advance
      rw [hreplies]
      rfl
    rw [beats, beats, htail]
    exact Channel.owed_read hreplies
  · cases hnext
  · cases hnext

theorem KeepsBeats.trans {c' c'' : Conn} (h : KeepsBeats c c') (h' : KeepsBeats c' c'') :
    KeepsBeats c c'' := by
  refine ⟨h'.routed, fun hup => ?_⟩
  obtain ⟨hup', hbeats'⟩ := h'.beats hup
  obtain ⟨hup'', hbeats⟩ := h.beats hup'
  exact ⟨hup'', hbeats'.trans hbeats⟩

end Conn

/-! ## Counting misses -/

namespace HeartbeatTracker

variable {t : HeartbeatTracker} {w : String} {maxMissed : ℕ} {ids : List String}

/-- And is reported when that reaches the limit. -/
theorem mem_incrementMissed (hnodup : ids.Nodup) :
    w ∈ (t.incrementMissed maxMissed ids).1 ↔ w ∈ ids ∧ maxMissed ≤ t.missedCount w + 1 := by
  induction ids generalizing t with
  | nil => simp [incrementMissed]
  | cons id ids ih =>
    obtain ⟨hid, hrest⟩ := List.nodup_cons.1 hnodup
    have hlater := ih hrest (t := { t with
      missedCount := Function.update t.missedCount id (t.missedCount id + 1) })
    dsimp only [incrementMissed]
    by_cases hself : w = id
    · subst hself
      have hnot : w ∉ (incrementMissed { t with
          missedCount := Function.update t.missedCount w (t.missedCount w + 1) } maxMissed ids).1 :=
        fun hmem => hid (hlater.1 hmem).1
      split
      · next hlimit => exact ⟨fun _ => ⟨List.mem_cons_self, hlimit⟩, fun _ => List.mem_cons_self⟩
      · next hlimit => exact ⟨fun hmem => absurd hmem hnot, fun h => absurd h.2 hlimit⟩
    · dsimp only at hlater
      rw [Function.update_of_ne hself] at hlater
      split
      · simp only [List.mem_cons, hself, false_or, hlater]
      · simp only [List.mem_cons, hself, false_or, hlater]

end HeartbeatTracker

/-! ## Workers that serve -/

namespace PeerRegistry

variable {reg : PeerRegistry F} {w nodeId : String}

/-- The worker is ready and has layers. -/
def Serves (reg : PeerRegistry F) (w : String) : Prop :=
  ∃ e, reg.get w = some e ∧ e.serves = true

theorem mem_serving_ids : w ∈ reg.serving.map (·.nodeId) ↔ reg.Serves w := by
  simp only [serving, List.mem_map, List.mem_filter, Serves, get_eq_some]
  constructor
  · rintro ⟨e, ⟨hmem, hserves⟩, rfl⟩
    exact ⟨e, ⟨hmem, rfl⟩, hserves⟩
  · rintro ⟨e, ⟨hmem, rfl⟩, hserves⟩
    exact ⟨e, ⟨hmem, hserves⟩, rfl⟩

theorem mem_pipelineOrder : w ∈ reg.pipelineOrder ↔ reg.Serves w := by
  rw [← mem_serving_ids, pipelineOrder]
  exact ((List.perm_insertionSort _ _).map _).mem_iff

theorem nodup_serving_ids : (reg.serving.map (·.nodeId)).Nodup :=
  reg.distinct.sublist (List.filter_sublist.map _)

theorem nodup_pipelineOrder : reg.pipelineOrder.Nodup :=
  ((List.perm_insertionSort _ _).map _).nodup_iff.2 nodup_serving_ids

theorem Serves.of_get_eq {reg' : PeerRegistry F} (h : reg.Serves w) (hget : reg'.get w = reg.get w) :
    reg'.Serves w := by
  unfold Serves
  rw [hget]
  exact h

theorem Serves.status (h : reg.Serves w) : reg.status w = some .ready := by
  obtain ⟨e, hget, hserves⟩ := h
  rw [PeerRegistry.status, hget, Option.map_some]
  rw [WorkerEntry.serves, Bool.and_eq_true, beq_iff_eq] at hserves
  rw [hserves.1]

theorem get_recordHeartbeat_of_ne (h : w ≠ nodeId) (freeBlocks : ℕ) :
    (reg.recordHeartbeat nodeId freeBlocks).get w = reg.get w := get_modify_of_ne h

theorem get_markDraining_of_ne (h : w ≠ nodeId) :
    (reg.markDraining nodeId).get w = reg.get w := get_modify_of_ne h

theorem Serves.recordHeartbeat (h : reg.Serves w) (freeBlocks : ℕ) :
    (reg.recordHeartbeat w freeBlocks).Serves w := by
  obtain ⟨e, hget, hserves⟩ := h
  refine ⟨{ e with freeBlocks }, ?_, hserves⟩
  rw [PeerRegistry.recordHeartbeat, get_modify_self, hget]
  rfl

end PeerRegistry

/-! ## The coordinator -/

/-- The operation that runs reads from the worker now. -/
def LoopTask.ReadsFrom : LoopTask → String → Prop
  | .idle, _ => False
  | .collecting _ _ reading _ _, id => id ∈ reading
  | .forwarding _ _ nodeId _, id => id = nodeId

instance : ∀ (task : LoopTask) (id : String), Decidable (task.ReadsFrom id)
  | .idle, _ => inferInstanceAs (Decidable False)
  | .collecting _ _ reading _ _, id => inferInstanceAs (Decidable (id ∈ reading))
  | .forwarding _ _ nodeId _, id => inferInstanceAs (Decidable (id = nodeId))

/-- A worker connects. -/
def HubEvent.isAccept : HubEvent F → Bool
  | .accept _ _ _ => true
  | _ => false

namespace Hub

variable {hub hub' : Hub F} {w : String} {maxMissed : ℕ}

/-! ## Steps that leave heartbeats alone -/

/-- A change that leaves heartbeats and who is watched alone. -/
def Mild (w : String) (hub hub' : Hub F) : Prop :=
  hub'.listening = hub.listening ∧ hub'.registry = hub.registry ∧ hub'.tracker = hub.tracker ∧
    ((hub.conns w).Routed → (hub.conns w).KeepsBeats (hub'.conns w))

theorem Mild.refl (w : String) (hub : Hub F) : Mild w hub hub := ⟨rfl, rfl, rfl, .refl⟩

theorem Mild.trans {hub'' : Hub F} (h : Mild w hub hub') (h' : Mild w hub' hub'') :
    Mild w hub hub'' := by
  obtain ⟨hlistening, hregistry, htracker, hbeats⟩ := h
  obtain ⟨hlistening', hregistry', htracker', hbeats'⟩ := h'
  exact ⟨hlistening'.trans hlistening, hregistry'.trans hregistry, htracker'.trans htracker,
    fun hrouted => (hbeats hrouted).trans (hbeats' (hbeats hrouted).routed)⟩

/-- Everything but heartbeats. -/
def NoBeat (frame : Sent) : Prop := frame.request.msgType ≠ .heartbeat

theorem Sends.mild (h : Sends NoBeat hub hub') : Mild w hub hub' := by
  have hbeats : (hub.conns w).Routed → (hub.conns w).KeepsBeats (hub'.conns w) := by
    intro hrouted
    refine h.keep ?_ (.refl hrouted)
    intro frame hframe c hc
    exact hc.trans (Conn.keepsBeats_post hc.routed hframe)
  obtain ⟨conns, rfl⟩ := h.rest
  exact ⟨rfl, rfl, rfl, hbeats⟩

section

variable (hub)

theorem mild_collect (op seqId : ℕ) (reading : List String)
    (got : List (String × Except FractureError Came)) (succeeded : List String) :
    Mild w hub (hub.collect op seqId reading got succeeded) := by
  unfold collect
  split <;> exact .refl w hub

theorem mild_allocCache (seqId : ℕ) : Mild w hub (hub.allocCache seqId) := by
  unfold allocCache
  dsimp only [begin]
  split
  · exact .refl w hub
  · have hsends : Sends NoBeat { hub with nextOp := hub.nextOp + 1 }
        (sendEach ⟨hub.nextOp, .cacheAlloc seqId⟩ hub.pipeline.pipelineOrder
          { hub with nextOp := hub.nextOp + 1 }).2 := sends_sendEach _ _ nofun
    split
    · next e hub' heq =>
      rw [heq] at hsends
      exact hsends.mild
    · next hub' heq =>
      rw [heq] at hsends
      exact hsends.mild.trans (mild_collect _ _ _ _ _ _)

theorem mild_forwardTo (op seqId : ℕ) (ids : List String) :
    Mild w hub (hub.forwardTo op seqId ids) := by
  cases ids with
  | nil => exact .refl w hub
  | cons id rest =>
    dsimp only [forwardTo]
    cases hub.sendFault id with
    | some e => exact .refl w hub
    | none =>
      have hpost : Sends NoBeat hub (hub.post id ⟨op, .batchedForward seqId⟩) :=
        sends_post hub id nofun
      exact hpost.mild

theorem mild_batchedForward (seqIds : List ℕ) : Mild w hub (hub.batchedForward seqIds) := by
  unfold batchedForward
  dsimp only [begin]
  split
  · exact .refl w hub
  · exact mild_forwardTo { hub with nextOp := hub.nextOp + 1 } _ _ _

theorem mild_freeCache (seqId : ℕ) : Mild w hub (hub.freeCache seqId) := by
  have hsends : ∀ hub : Hub F, ∀ op, Sends NoBeat hub (sendEach ⟨op, .cacheFree seqId⟩
      hub.pipeline.pipelineOrder hub).2 := fun hub op => sends_sendEach _ _ nofun
  unfold freeCache
  dsimp only [begin]
  split
  · split <;> exact (hsends (hub.begin.2.setAllocated _) _).mild
  · exact .refl w hub

theorem mild_freeCacheBestEffort (seqId : ℕ) : Mild w hub (hub.freeCacheBestEffort seqId) := by
  have hsends : ∀ hub : Hub F, ∀ op, Sends NoBeat hub (sendQuiet ⟨op, .cacheFree seqId⟩
      hub.readyOrder hub) := fun hub op => sends_sendQuiet _ _ nofun
  exact (hsends (hub.begin.2.setAllocated _) _).mild

theorem mild_rollback (op seqId : ℕ) (succeeded : List String) (e : FractureError) :
    Mild w hub (hub.rollback op seqId succeeded e) := by
  have hsends : Sends NoBeat hub (sendQuiet ⟨op, .cacheFree seqId⟩ succeeded hub) :=
    sends_sendQuiet _ _ nofun
  exact hsends.mild

theorem mild_join (k : ℕ) : Mild w hub (hub.join k) := by
  unfold join
  split
  · next op seqId reading got succeeded _ =>
    split
    · exact .refl w hub
    · next id answer _ =>
      cases answer with
      | error e => exact mild_rollback _ _ _ _ _
      | ok came =>
        dsimp only [joinAnswer]
        split
        · exact mild_collect (hub.take op id came) _ _ _ _ _
        all_goals exact mild_rollback (hub.take op id came) _ _ _ _
  · exact .refl w hub

theorem mild_forwardAnswer (op seqId : ℕ) (nodeId : String) (rest : List String)
    (answer : Except FractureError Came) :
    Mild w hub (hub.forwardAnswer op seqId nodeId rest answer) := by
  cases answer with
  | error e => exact .refl w hub
  | ok came =>
    dsimp only [forwardAnswer]
    split
    · exact .refl w hub
    · split <;> exact .refl w hub
    · split
      · exact .refl w hub
      · exact mild_forwardTo (hub.take op nodeId came) _ _ _
    · exact .refl w hub

/-- What a read does: nothing, or it takes one frame off the connection of a
worker that the operation reads from. -/
theorem read_cases (id : String) :
    hub.read id = hub ∨ hub.task.ReadsFrom id ∧ (∃ answer, (hub.conns id).next = some answer) ∧
      Mild w (hub.setConn id (hub.conns id).advance) (hub.read id) := by
  unfold read
  split
  · exact .inl rfl
  · next answer hnext =>
    split
    · exact .inl rfl
    · next htask =>
      rw [htask]
      split
      · exact .inl rfl
      · next hmem =>
        refine .inr ⟨not_not.1 hmem, ⟨answer, hnext⟩, ?_⟩
        split <;> exact .refl w _
    · next htask =>
      rw [htask]
      split
      · exact .inl rfl
      · next hself =>
        refine .inr ⟨not_not.1 hself, ⟨answer, hnext⟩, ?_⟩
        split
        · exact .refl w _
        · exact mild_forwardAnswer _ _ _ _ _ _

end

/-! ## Rounds -/

/-- A change to others than the worker. -/
structure SameWorker (w : String) (hub hub' : Hub F) : Prop where
  conns : hub'.conns = hub.conns
  listening : hub'.listening = hub.listening
  pending : hub'.tracker.pendingNonce = hub.tracker.pendingNonce
  missed : hub'.tracker.missedCount w = hub.tracker.missedCount w
  entry : hub'.registry.get w = hub.registry.get w

theorem SameWorker.refl (w : String) (hub : Hub F) : SameWorker w hub hub :=
  ⟨rfl, rfl, rfl, rfl, rfl⟩

theorem SameWorker.trans {hub'' : Hub F} (h : SameWorker w hub hub')
    (h' : SameWorker w hub' hub'') : SameWorker w hub hub'' :=
  ⟨h'.conns.trans h.conns, h'.listening.trans h.listening, h'.pending.trans h.pending,
    h'.missed.trans h.missed, h'.entry.trans h.entry⟩

theorem sameWorker_processPoll {poll : String × Option (Except FractureError Came)}
    (hne : w ≠ poll.1) (hub : Hub F) : SameWorker w hub (hub.processPoll poll) := by
  unfold processPoll
  split
  · split
    · next nonce freeBlocks _ =>
      dsimp only
      unfold HeartbeatTracker.processAck
      split
      · exact .refl w hub
      · exact .refl w hub
      · split
        · exact ⟨rfl, rfl, rfl, Function.update_of_ne hne _ _,
            PeerRegistry.get_recordHeartbeat_of_ne hne freeBlocks⟩
        · exact .refl w hub
    · exact ⟨rfl, rfl, rfl, rfl, PeerRegistry.get_markDraining_of_ne hne⟩
    · exact .refl w hub
  · exact .refl w hub

theorem sameWorker_foldl {ids : List String} (hw : w ∉ ids)
    (unread : String → Option (Except FractureError Came)) (hub : Hub F) :
    SameWorker w hub (ids.foldl (fun hub id => hub.processPoll (id, unread id)) hub) := by
  induction ids generalizing hub with
  | nil => exact .refl w hub
  | cons id ids ih =>
    rw [List.mem_cons, not_or] at hw
    exact (sameWorker_processPoll hw.1 hub).trans (ih hw.2 _)

/-- What a poll does for one worker: it takes the first frame off the
connection and looks at it. -/
theorem pollAcks_worker (hserves : hub.registry.Serves w) :
    ∃ mid : Hub F, SameWorker w { hub with conns := fun id =>
        if id ∈ hub.registry.readerHandles then (hub.conns id).advance else hub.conns id } mid ∧
      SameWorker w (mid.processPoll (w, (hub.conns w).next)) hub.pollAcks := by
  have hmem : w ∈ hub.registry.readerHandles := PeerRegistry.mem_serving_ids.2 hserves
  have hnodup : hub.registry.readerHandles.Nodup := PeerRegistry.nodup_serving_ids
  obtain ⟨before, after, hsplit⟩ := List.append_of_mem hmem
  rw [hsplit, List.nodup_middle, List.nodup_cons, List.mem_append, not_or] at hnodup
  have hpoll : hub.pollAcks = List.foldl _ _ (before ++ w :: after) :=
    List.foldl_map.trans (congrArg (List.foldl _ _) hsplit)
  rw [hpoll, List.foldl_append, List.foldl_cons]
  exact ⟨_, sameWorker_foldl hnodup.1.1 _ _, sameWorker_foldl hnodup.1.2 _ _⟩

/-- Sending to each of some workers sends to each once. -/
theorem conns_sendQuiet {frame : Sent} {ids : List String} (hnodup : ids.Nodup)
    (hknown : (hub.registry.get w).isSome) :
    (sendQuiet frame ids hub).conns w =
      if w ∈ ids then (hub.conns w).post frame else hub.conns w := by
  induction ids generalizing hub with
  | nil => rfl
  | cons id ids ih =>
    obtain ⟨hid, hrest⟩ := List.nodup_cons.1 hnodup
    have hstep : sendQuiet frame (id :: ids) hub = sendQuiet frame ids
        (if (hub.sendFault id).isNone then hub.post id frame else hub) := rfl
    rw [hstep]
    by_cases hself : w = id
    · subst hself
      have hreached : ((if (hub.sendFault w).isNone then hub.post w frame else hub).conns w) =
          (hub.conns w).post frame := by
        obtain ⟨e, he⟩ := Option.isSome_iff_exists.1 hknown
        have hfault : hub.sendFault w = (hub.conns w).fault := by rw [sendFault, he]
        cases hdown : (hub.conns w).fault with
        | none =>
          rw [hfault, hdown]
          exact Function.update_self ..
        | some why =>
          rw [hfault, hdown, Conn.post, hdown]
          rfl
      rw [ih hrest (by split <;> exact hknown), if_neg hid, if_pos List.mem_cons_self, hreached]
    · have hkept : ((if (hub.sendFault id).isNone then hub.post id frame else hub).conns w) =
          hub.conns w := by
        split
        · exact Function.update_of_ne hself ..
        · rfl
      rw [ih hrest (by split <;> exact hknown), hkept]
      simp only [List.mem_cons, hself, false_or]

/-- All heartbeats sent to the worker are acknowledged. -/
def Answered (w : String) (hub : Hub F) : Prop :=
  (hub.conns w).fault = none ∧
    ∀ frame ∈ (hub.conns w).link.requests, frame.request.msgType ≠ .heartbeat

instance (w : String) (hub : Hub F) : Decidable (hub.Answered w) :=
  inferInstanceAs (Decidable (_ ∧ _))

/-- What is known of a worker that answers its heartbeats: at most the last
one's acknowledgement is unread, and if that was dropped there is a miss to
spare. -/
structure Heard (w : String) (maxMissed : ℕ) (hub : Hub F) : Prop where
  listening : hub.listening = .idle
  serves : hub.registry.Serves w
  routed : (hub.conns w).Routed
  beats : (hub.conns w).fault = none →
    (∃ nonce, hub.tracker.pendingNonce = some nonce ∧ (hub.conns w).beats = [nonce]) ∨
      (hub.conns w).beats = [] ∧ (hub.tracker.pendingNonce = none ∨
        hub.tracker.missedCount w + 1 < maxMissed)

theorem Mild.heard (h : Mild w hub hub') (hheard : hub.Heard w maxMissed) :
    hub'.Heard w maxMissed := by
  obtain ⟨hlistening, hregistry, htracker, hbeats⟩ := h
  have hkeeps := hbeats hheard.routed
  refine ⟨hlistening.trans hheard.listening, hregistry ▸ hheard.serves, hkeeps.routed, ?_⟩
  intro hup
  obtain ⟨hup', hbeats⟩ := hkeeps.beats hup
  rw [hbeats, htracker]
  exact hheard.beats hup'

/-- The worker after a poll: its connection is up with no heartbeat on it,
and it can miss another round. -/
structure Polled (w : String) (maxMissed : ℕ) (hub : Hub F) : Prop where
  listening : hub.listening = .idle
  serves : hub.registry.Serves w
  routed : (hub.conns w).Routed
  beats : (hub.conns w).beats = []
  missed : hub.tracker.missedCount w + 1 < maxMissed

theorem SameWorker.polled (h : SameWorker w hub hub') (hpolled : hub.Polled w maxMissed) :
    hub'.Polled w maxMissed :=
  ⟨h.listening.trans hpolled.listening, hpolled.serves.of_get_eq h.entry, h.conns ▸ hpolled.routed,
    h.conns ▸ hpolled.beats, h.missed ▸ hpolled.missed⟩

/-- **A poll hears the worker**, when nothing but acknowledgements is
unread. -/
theorem polled_pollAcks (hheard : hub.Heard w maxMissed) (hmax : 2 ≤ maxMissed)
    (hpending : hub.tracker.pendingNonce ≠ none) (hanswered : hub.Answered w)
    (honly : ∀ came ∈ (hub.conns w).link.replies, came.isHeartbeatAck = true) :
    hub.pollAcks.Polled w maxMissed := by
  obtain ⟨hup, hunder⟩ := hanswered
  obtain ⟨mid, hmid, hlast⟩ := pollAcks_worker hheard.serves
  have hconn : mid.conns w = (hub.conns w).advance := by
    rw [hmid.conns]
    exact if_pos (PeerRegistry.mem_serving_ids.2 hheard.serves)
  have hserves : mid.registry.Serves w := hheard.serves.of_get_eq hmid.entry
  have hlistening : mid.listening = .idle := hmid.listening.trans hheard.listening
  have hrouted : (hub.conns w).advance.Routed := hheard.routed
  have hwire : (hub.conns w).link.requests.flatMap Sent.beat = [] := by
    rw [List.flatMap_eq_nil_iff]
    exact fun frame hframe => Sent.beat_of_not_heartbeat (hunder frame hframe)
  rcases hreplies : (hub.conns w).link.replies with _ | ⟨came, rest⟩
  · -- the acknowledgement was dropped, and there is a miss to spare
    have hbeats : (hub.conns w).beats = [] := by
      rw [Conn.beats, Channel.owed, hwire, hreplies]
      rfl
    have hnext : (hub.conns w).next = none := by rw [Conn.next, hreplies, hup]
    have hgone : (hub.conns w).advance.beats = [] := by
      change (hub.conns w).link.replies.tail.flatMap Came.echo ++
        (hub.conns w).link.requests.flatMap Sent.beat = []
      rw [hreplies, hwire]
      rfl
    have hspare : hub.tracker.missedCount w + 1 < maxMissed := by
      rcases hheard.beats hup with ⟨nonce, -, hone⟩ | ⟨-, hnone | hspare⟩
      · rw [hbeats] at hone
        cases hone
      · exact absurd hnone hpending
      · exact hspare
    rw [hnext] at hlast
    exact hlast.polled ⟨hlistening, hserves, hconn ▸ hrouted, hconn ▸ hgone, hmid.missed ▸ hspare⟩
  · -- the first unread frame is the last heartbeat's acknowledgement
    have hack : came.isHeartbeatAck = true := honly came (hreplies ▸ List.mem_cons_self)
    obtain ⟨nonce, freeBlocks, hreply⟩ := Came.reply_of_ack hack
    have hnext : (hub.conns w).next = some (.ok came) := by rw [Conn.next, hreplies]
    have hread : (hub.conns w).beats = nonce :: (hub.conns w).advance.beats := by
      rw [Conn.beats_advance hnext, Came.echo, hreply]
      rfl
    obtain ⟨hsame, hgone⟩ : hub.tracker.pendingNonce = some nonce ∧
        (hub.conns w).advance.beats = [] := by
      rcases hheard.beats hup with ⟨last, hlast, hone⟩ | ⟨hnone, -⟩
      · obtain ⟨rfl, hgone⟩ := List.cons.inj (hread.symm.trans hone)
        exact ⟨hlast, hgone⟩
      · rw [hread] at hnone
        cases hnone
    have hpoll : mid.processPoll (w, (hub.conns w).next) = { mid with
        tracker := { mid.tracker with missedCount := Function.update mid.tracker.missedCount w 0 }
        registry := mid.registry.recordHeartbeat w freeBlocks } := by
      have hpend : mid.tracker.pendingNonce = some nonce := hmid.pending.trans hsame
      simp only [processPoll, hnext, hreply, HeartbeatTracker.processAck, hserves.status, hpend,
        if_true]
    rw [hpoll] at hlast
    refine hlast.polled ⟨hlistening, hserves.recordHeartbeat freeBlocks, hconn ▸ hrouted,
      hconn ▸ hgone, ?_⟩
    dsimp only
    rw [Function.update_self]
    omega

/-- A worker that was heard is not reported. -/
theorem notMem_deadIds (h : hub.pollAcks.Polled w maxMissed) : w ∉ hub.deadIds maxMissed := by
  unfold deadIds
  split
  · rw [HeartbeatTracker.mem_incrementMissed PeerRegistry.nodup_pipelineOrder]
    rintro ⟨-, hlimit⟩
    have hspare := h.missed
    omega
  · exact List.not_mem_nil

/-- The next heartbeat goes out on a connection that has none. -/
theorem heard_sendHeartbeats {nonce : ℕ} (hlisten : hub.listening = .idle)
    (hserves : hub.registry.Serves w)
    (hrouted : (hub.conns w).Routed)
    (hbeats : (hub.conns w).fault = none → (hub.conns w).beats = []) :
    (hub.sendHeartbeats nonce).Heard w maxMissed := by
  obtain ⟨e, hget, -⟩ := id hserves
  have hconn : (hub.sendHeartbeats nonce).conns w = (hub.conns w).post ⟨0, .heartbeat nonce⟩ := by
    have hnodup : hub.registry.pipelineOrder.Nodup := PeerRegistry.nodup_pipelineOrder
    have hsent : (sendQuiet ⟨0, .heartbeat nonce⟩ hub.registry.pipelineOrder hub).conns w = _ :=
      conns_sendQuiet hnodup (by rw [hget]; rfl)
    rw [if_pos (PeerRegistry.mem_pipelineOrder.2 hserves)] at hsent
    exact hsent
  have hsends : Sends AnyFrame hub (sendQuiet ⟨0, .heartbeat nonce⟩ hub.registry.pipelineOrder hub) :=
    sends_sendQuiet _ _ (anyFrame _)
  obtain ⟨conns, hrest⟩ := hsends.rest
  have hfields : (hub.sendHeartbeats nonce).listening = hub.listening ∧
      (hub.sendHeartbeats nonce).registry = hub.registry := by
    unfold sendHeartbeats
    rw [hrest]
    exact ⟨rfl, rfl⟩
  refine ⟨hfields.1.trans hlisten, hfields.2 ▸ hserves, ?_, ?_⟩
  · rw [hconn, Conn.post]
    split <;> exact hrouted
  · intro hup
    rw [hconn] at hup ⊢
    have hup' : (hub.conns w).fault = none := by
      cases hdown : (hub.conns w).fault with
      | none => rfl
      | some why =>
        rw [Conn.post, hdown] at hup
        exact hdown.symm.trans hup
    refine .inl ⟨nonce, rfl, ?_⟩
    rw [Conn.beats_post_heartbeat hup', hbeats hup', List.nil_append]

theorem mild_abortAllSequences (hub : Hub F) : Mild w hub hub.abortAllSequences := by
  have hsends : ∀ (op : ℕ) (seqs : List ℕ) (hub : Hub F), Sends NoBeat hub (seqs.foldl
      (fun hub seqId => sendQuiet ⟨op, .cacheFree seqId⟩ hub.readyOrder hub) hub) :=
    fun op seqs hub => Sends.foldl (fun hub seqId => sends_sendQuiet _ _ nofun) seqs hub
  exact (hsends _ _ (hub.begin.2.setAllocated [])).mild

/-- **A round of which the worker was heard** leaves it heard. -/
theorem heard_round (hpolled : hub.pollAcks.Polled w maxMissed)
    (hpending : hub.tracker.pendingNonce ≠ none) (nonce : ℕ) :
    (hub.round maxMissed nonce).Heard w maxMissed := by
  have hsome : hub.tracker.pendingNonce.isSome = true := Option.isSome_iff_ne_none.2 hpending
  have hdead := notMem_deadIds hpolled
  rw [deadIds, if_pos hsome] at hdead
  unfold round judge
  rw [if_pos hsome]
  dsimp only
  split
  · exact heard_sendHeartbeats hpolled.listening hpolled.serves hpolled.routed
      fun _ => hpolled.beats
  · -- others are dead, and everything is freed
    generalize hmarked : ({ hub.pollAcks with
      tracker := (hub.pollAcks.tracker.incrementMissed maxMissed
        hub.pollAcks.registry.pipelineOrder).2
      registry := List.foldl PeerRegistry.markDead hub.pollAcks.registry
        (hub.pollAcks.tracker.incrementMissed maxMissed
          hub.pollAcks.registry.pipelineOrder).1 } : Hub F) = marked
    obtain ⟨hlistening, hregistry, -, hbeats⟩ := mild_abortAllSequences (w := w) marked
    have hserves : marked.registry.Serves w :=
      hmarked ▸ hpolled.serves.of_get_eq (PeerRegistry.get_foldl_markDead hdead)
    have hkeeps := hbeats (hmarked ▸ hpolled.routed)
    refine heard_sendHeartbeats ?_ ?_ hkeeps.routed ?_
    · exact hlistening.trans (hmarked ▸ hpolled.listening)
    · rw [hregistry]
      exact hserves
    · intro hup
      rw [(hkeeps.beats hup).2]
      exact hmarked ▸ hpolled.beats

/-! ## Whole runs -/

/-- The worker has acknowledged the last heartbeat when the next round
begins. -/
def InTime (w : String) (hub : Hub F) : HubEvent F → Prop
  | .round _ => hub.locked = true ∨ hub.tracker.pendingNonce = none ∨ hub.Answered w
  | _ => True

/-- Nothing comes between an acknowledgement and the round: no operation's
frame is unread on the worker's connection, and an operation drops an
acknowledgement only if the worker can miss another round. -/
def Heeded (w : String) (maxMissed : ℕ) (hub : Hub F) : HubEvent F → Prop
  | .round _ => hub.locked = true ∨ hub.tracker.pendingNonce = none ∨
      ∀ came ∈ (hub.conns w).link.replies, came.isHeartbeatAck = true
  | .read id => id = w → hub.task.ReadsFrom w →
      ∀ came ∈ (hub.conns w).link.replies.head?, came.isHeartbeatAck = true →
        hub.tracker.missedCount w + 1 < maxMissed
  | _ => True

instance (w : String) (hub : Hub F) : ∀ event : HubEvent F, Decidable (hub.InTime w event)
  | .round _ => inferInstanceAs (Decidable (_ ∨ _ ∨ _))
  | .route _ _ | .serve _ _ | .leave _ | .lose _ _ | .alloc _ | .forward _ | .free _
  | .freeBestEffort _ | .read _ | .join _ | .accept _ _ _ | .await | .ready | .adopt =>
    inferInstanceAs (Decidable True)

instance (w : String) (maxMissed : ℕ) (hub : Hub F) :
    ∀ event : HubEvent F, Decidable (hub.Heeded w maxMissed event)
  | .round _ => inferInstanceAs (Decidable (_ ∨ _ ∨ _))
  | .read _ => inferInstanceAs (Decidable (_ → _ → _))
  | .route _ _ | .serve _ _ | .leave _ | .lose _ _ | .alloc _ | .forward _ | .free _
  | .freeBestEffort _ | .join _ | .accept _ _ _ | .await | .ready | .adopt =>
    inferInstanceAs (Decidable True)

theorem heard_setConn (h : hub.Heard w maxMissed) {id : String} {c : Conn}
    (hkeeps : (hub.conns id).Routed → (hub.conns id).KeepsBeats c) :
    (hub.setConn id c).Heard w maxMissed := by
  have hmild : Mild w hub (hub.setConn id c) := by
    refine ⟨rfl, rfl, rfl, fun hrouted => ?_⟩
    by_cases hself : w = id
    · subst hself
      rw [conns_setConn_self]
      exact hkeeps hrouted
    · rw [conns_setConn_of_ne _ hself]
      exact .refl hrouted
  exact hmild.heard h

/-- Reading drops no acknowledgement that is still needed. -/
theorem heard_read (h : hub.Heard w maxMissed) {id : String}
    (hheeded : hub.Heeded w maxMissed (.read id)) : (hub.read id).Heard w maxMissed := by
  rcases read_cases (w := w) hub id with hsame | ⟨hreads, ⟨answer, hnext⟩, hmild⟩
  · rw [hsame]
    exact h
  refine hmild.heard ?_
  by_cases hself : w = id
  · subst hself
    refine ⟨h.listening, h.serves, by rw [conns_setConn_self]; exact h.routed, ?_⟩
    rw [conns_setConn_self]
    intro hup
    have hup : (hub.conns w).fault = none := hup
    obtain ⟨came, rfl, hhead⟩ := Conn.head_of_next hup hnext
    have hread := Conn.beats_advance hnext
    cases hack : came.isHeartbeatAck with
    | true =>
      have hspare := hheeded rfl hreads came hhead hack
      refine .inr ⟨?_, .inr hspare⟩
      obtain ⟨nonce, freeBlocks, hreply⟩ := Came.reply_of_ack hack
      rw [Came.echo, hreply] at hread
      rcases h.beats hup with ⟨last, -, hone⟩ | ⟨hnone, -⟩
      · exact (List.cons.inj (hread.symm.trans hone)).2
      · rw [hread] at hnone
        cases hnone
    | false =>
      rw [Came.echo_of_not_ack hack, List.nil_append] at hread
      exact hread ▸ h.beats hup
  · have hold := hub.conns_setConn_of_ne hself (hub.conns id).advance
    exact ⟨h.listening, h.serves, hold ▸ h.routed, hold ▸ h.beats⟩

/-- **A step in which the worker is heeded** keeps it heard. -/
theorem heard_step (cfg : CoordinatorConfig F) (hmax : 2 ≤ maxMissed) (h : hub.Heard w maxMissed)
    {event : HubEvent F} (haccept : event.isAccept = false) (hintime : hub.InTime w event)
    (hheeded : hub.Heeded w maxMissed event) :
    (hub.step cfg maxMissed event).Heard w maxMissed := by
  cases event with
  | route id freeBlocks => exact heard_setConn h fun hrouted => hrouted.moved (Conn.moved_route _ _)
  | serve id handling => exact heard_setConn h fun hrouted => hrouted.moved (Conn.moved_serve _ _)
  | leave id => exact heard_setConn h fun hrouted => Conn.keepsBeats_leave hrouted
  | lose id why => exact heard_setConn h fun hrouted => hrouted.moved (Conn.moved_lose _ _)
  | alloc seqId =>
    dsimp only [step]
    split
    · exact h
    · exact (mild_allocCache hub seqId).heard h
  | forward seqIds =>
    dsimp only [step]
    split
    · exact h
    · exact (mild_batchedForward hub seqIds).heard h
  | free seqId =>
    dsimp only [step]
    split
    · exact h
    · exact (mild_freeCache hub seqId).heard h
  | freeBestEffort seqId =>
    dsimp only [step]
    split
    · exact h
    · exact (mild_freeCacheBestEffort hub seqId).heard h
  | read id => exact heard_read h hheeded
  | join k => exact (mild_join hub k).heard h
  | round nonce =>
    dsimp only [step]
    split
    · exact h
    · next hfree =>
      by_cases hpending : hub.tracker.pendingNonce = none
      · -- nothing was sent before, so nothing is judged
        have hfirst : hub.round maxMissed nonce = hub.sendHeartbeats nonce := by
          unfold round judge
          rw [hpending]
          rfl
        rw [hfirst]
        refine heard_sendHeartbeats h.listening h.serves h.routed fun hup => ?_
        rcases h.beats hup with ⟨last, hlast, -⟩ | ⟨hnone, -⟩
        · rw [hpending] at hlast
          cases hlast
        · exact hnone
      · have hanswered := (hintime.resolve_left hfree).resolve_left hpending
        have honly := (hheeded.resolve_left hfree).resolve_left hpending
        exact heard_round (polled_pollAcks h hmax hpending hanswered honly) hpending nonce
  | accept capabilities kind handles => cases haccept
  | await =>
    dsimp only [step, await]
    rw [h.listening]
    split <;> exact h
  | ready =>
    dsimp only [step, ready]
    rw [h.listening]
    exact h
  | adopt =>
    dsimp only [step, adopt]
    split
    · split
      · exact h
      · exact ⟨h.listening, h.serves, h.routed, h.beats⟩
    · exact h

/-- The worker is not among those that a round reports. -/
def Spares (w : String) (maxMissed : ℕ) (hub : Hub F) : HubEvent F → Prop
  | .round _ => hub.locked = true ∨ w ∉ hub.deadIds maxMissed
  | _ => True

theorem spares_of_heard (hmax : 2 ≤ maxMissed) (h : hub.Heard w maxMissed) {event : HubEvent F}
    (hintime : hub.InTime w event) (hheeded : hub.Heeded w maxMissed event) :
    hub.Spares w maxMissed event := by
  cases event with
  | round nonce =>
    by_cases hlocked : hub.locked = true
    · exact .inl hlocked
    refine .inr ?_
    by_cases hpending : hub.tracker.pendingNonce = none
    · rw [deadIds, hpending]
      exact List.not_mem_nil
    · exact notMem_deadIds (polled_pollAcks h hmax hpending
        ((hintime.resolve_left hlocked).resolve_left hpending)
        ((hheeded.resolve_left hlocked).resolve_left hpending))
  | _ => trivial

/-- **A worker that answers in time and is heeded is never reported**, and
stays ready. -/
theorem spared_of_heeded (cfg : CoordinatorConfig F) (maxMissed : ℕ) (hmax : 2 ≤ maxMissed)
    (registry : PeerRegistry F) (pipeline : DistributedPipeline) (w : String)
    (hserves : registry.Serves w) (events : List (HubEvent F))
    (haccept : ∀ event ∈ events, event.isAccept = false)
    (hintime : Throughout (step cfg maxMissed) (InTime w) (start registry pipeline) events)
    (hheeded : Throughout (step cfg maxMissed) (Heeded w maxMissed) (start registry pipeline)
      events) :
    Throughout (step cfg maxMissed) (Spares w maxMissed) (start registry pipeline) events ∧
      (run (step cfg maxMissed) (start registry pipeline) events).registry.status w =
        some .ready := by
  have hstart : (start registry pipeline).Heard w maxMissed :=
    ⟨rfl, hserves, List.forall_mem_nil _, fun _ => .inr ⟨rfl, .inl rfl⟩⟩
  have hall := ((throughout_of_forall haccept).and hintime).and hheeded
  have hstep : ∀ {hub : Hub F} {event : HubEvent F}, hub.Heard w maxMissed →
      ((event.isAccept = false ∧ hub.InTime w event) ∧ hub.Heeded w maxMissed event) →
      (hub.step cfg maxMissed event).Heard w maxMissed :=
    fun h hevent => heard_step cfg hmax h hevent.1.1 hevent.1.2 hevent.2
  exact ⟨hall.imp (Heard w maxMissed) hstart hstep fun h hevent =>
      spares_of_heard hmax h hevent.1.2 hevent.2,
    (hall.invariant (Heard w maxMissed) hstart hstep).serves.status⟩

/-- The two workers answer a round, and the allocation that follows passes
over their acknowledgements. -/
def roundAndAlloc (nonce seqId : ℕ) : List (HubEvent ℚ) :=
  [.round nonce, .route "w1" 3, .route "w2" 3, .alloc seqId, .route "w1" 3,
    .serve "w1" willing, .route "w2" 3, .serve "w2" willing, .read "w1", .read "w1", .read "w2",
    .read "w2", .join 0, .join 0]

/-- Both heartbeats are acknowledged before the next round, but the two
allocations read the acknowledgements, and the third round reports the
worker. -/
theorem dropped_acks_dead :
    Throughout (step Coordinator.evenly 2) (InTime "w1") twoWorkers
        (roundAndAlloc 7 1 ++ roundAndAlloc 8 2 ++ [.round 9]) ∧
      "w1" ∈ (run (step Coordinator.evenly 2) twoWorkers
        (roundAndAlloc 7 1 ++ roundAndAlloc 8 2)).deadIds 2 ∧
      (run (step Coordinator.evenly 2) twoWorkers
        (roundAndAlloc 7 1 ++ roundAndAlloc 8 2 ++ [.round 9])).registry.status "w1" ≠
          some .ready := by
  decide +kernel

/-- One acknowledgement is dropped, and the next is read by its round. -/
def heededDay : List (HubEvent ℚ) :=
  roundAndAlloc 7 1 ++ [.round 8, .route "w1" 3, .route "w2" 3, .round 9]

theorem spared_heededDay :
    (2 ≤ 3 ∧ PeerRegistry.twoReady.Serves "w1" ∧ (∀ event ∈ heededDay, event.isAccept = false) ∧
        Throughout (step Coordinator.evenly 3) (InTime "w1") twoWorkers heededDay ∧
        Throughout (step Coordinator.evenly 3) (Heeded "w1" 3) twoWorkers heededDay) ∧
      Throughout (step Coordinator.evenly 3) (Spares "w1" 3) twoWorkers heededDay ∧
        (run (step Coordinator.evenly 3) twoWorkers heededDay).registry.status "w1" =
          some .ready :=
  have hserves : PeerRegistry.twoReady.Serves "w1" := ⟨_, rfl, rfl⟩
  have haccept : ∀ event ∈ heededDay, event.isAccept = false := by decide
  have hintime : Throughout (step Coordinator.evenly 3) (InTime "w1") twoWorkers heededDay := by
    decide +kernel
  have hheeded : Throughout (step Coordinator.evenly 3) (Heeded "w1" 3) twoWorkers heededDay := by
    decide +kernel
  ⟨⟨by decide, hserves, haccept, hintime, hheeded⟩,
    spared_of_heeded Coordinator.evenly 3 (by decide) PeerRegistry.twoReady
      ⟨["w1", "w2"], 8, 4, []⟩ "w1" hserves heededDay haccept hintime hheeded⟩

end Hub

end Fracture
