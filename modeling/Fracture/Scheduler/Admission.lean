import Fracture.Engine.Reference
import Fracture.PagedCache.Contents
import Fracture.Scheduler.Iteration

/-!
# The front of the queue

A request is taken from the queue when the blocks for its whole prompt
are free beside the reserve. With nothing running all blocks are free,
and no more will ever be: a prompt that does not fit then stays at the
front of the queue, and everything behind it with it. The handlers that
submit prompts do not check their length.
-/

namespace Fracture

open Effect Runs PagedKvCacheManager BatchScheduler

variable {R W F : Type}

/-- The prompt fits into the whole pool, beside the reserve. -/
def PendingRequest.Fits (req : PendingRequest) (s : BatchScheduler) (c : PagedKvCacheManager R) :
    Prop :=
  blocksNeeded req ≤ c.pool.capacity - s.reservedBlocks c.pool.capacity

/-- A loop in which nothing runs. -/
structure LoopState.Idle (st : LoopState R) : Prop where
  active : st.scheduler.active = ∅
  free : st.cache.numFreeBlocks = st.cache.pool.capacity

namespace BatchScheduler

variable {s : BatchScheduler}

/-- The loop over the queue takes requests from its front, and only adds
to the decision, the running sequences and the events. -/
theorem addRequests_grows (available : ℕ) (queue : List PendingRequest) (st : Building R) :
    (s.addRequests available queue st).1 <:+ queue ∧
    st.decision.prefills <+: (s.addRequests available queue st).2.decision.prefills ∧
    st.events <+: (s.addRequests available queue st).2.events ∧
    ∀ id, (st.active.lookup id).isSome →
      ((s.addRequests available queue st).2.active.lookup id).isSome := by
  induction queue generalizing st with
  | nil => exact ⟨List.suffix_rfl, List.prefix_rfl, List.prefix_rfl, fun _ h => h⟩
  | cons req queue ih =>
    rcases s.addRequests_cons available req queue st with ⟨-, hstop, -⟩ |
      ⟨e, c', message, -, -, -, hskip, -⟩ | ⟨handle, c', -, -, -, hadd, -⟩
    · rw [hstop]
      exact ⟨List.suffix_rfl, List.prefix_rfl, List.prefix_rfl, fun _ h => h⟩
    · rw [hskip]
      obtain ⟨hqueue, hprefills, hevents, hactive⟩ := ih (turnedAway st req c' message)
      exact ⟨hqueue.trans (List.suffix_cons _ _), hprefills,
        (List.prefix_append _ _).trans hevents, hactive⟩
    · rw [hadd]
      obtain ⟨hqueue, hprefills, hevents, hactive⟩ := ih (s.entered st req handle c')
      refine ⟨hqueue.trans (List.suffix_cons _ _), (List.prefix_append _ _).trans hprefills, hevents,
        fun id hid => hactive id ?_⟩
      exact AList.lookup_isSome.2 ((AList.mem_insert _).2 (.inr (AList.lookup_isSome.1 hid)))

/-- With nothing running, a decision is about the queue alone. -/
theorem schedule_of_idle (hactive : s.active = ∅) (order : IterOrder) (closed : ℕ → Bool)
    (c : PagedKvCacheManager R) {queue : List PendingRequest} {st : Building R}
    (hrequests : s.addRequests (c.numFreeBlocks - s.reservedBlocks c.pool.capacity) s.prefillQueue
      ⟨⟨[], [], 0⟩, 0, s.active, c, []⟩ = (queue, st)) :
    s.schedule order closed c =
      (st.decision, { s with prefillQueue := queue, active := st.active }, st.cache, st.events) := by
  have hvalues : s.values order = [] := by
    rw [values, hactive]
    have hnil : order.arrange (∅ : AList fun _ : ℕ => ActiveSequence).keys = [] :=
      (order.perm []).eq_nil
    rw [hnil]
    rfl
  unfold schedule
  simp only [hvalues, List.filter_nil, List.map_nil, addDecodes, addChunks, hrequests]

end BatchScheduler

/-- The front request of a queue is running after a decision, with a job
in it. -/
def Admits (req : PendingRequest) (rest : List PendingRequest) (d : SchedulerDecision)
    (s' : BatchScheduler) : Prop :=
  s'.prefillQueue <:+ rest ∧ (s'.active.lookup req.seqId).isSome ∧
    ∃ job ∈ d.prefills, job.seqId = req.seqId

/-- The front request is turned away with an error. -/
def TurnsAway (req : PendingRequest) (rest : List PendingRequest)
    (events : List (ℕ × GenerationEvent)) (s' : BatchScheduler) : Prop :=
  s'.prefillQueue <:+ rest ∧ ∃ message, (req.seqId, .error message) ∈ events

section Front

variable {st : LoopState R} {req : PendingRequest} {rest : List PendingRequest}

section

variable {s : BatchScheduler} {c : PagedKvCacheManager R} (hactive : s.active = ∅)
  (hfree : c.numFreeBlocks = c.pool.capacity) (hqueue : s.prefillQueue = req :: rest)
include hactive hfree hqueue

variable (order : IterOrder) (closed : ℕ → Bool)

/-- A prompt that does not fit stops the queue, whatever the limits. -/
theorem schedule_blocked (hfits : ¬ req.Fits s c) :
    s.schedule order closed c = (⟨[], [], 0⟩, s, c, []) := by
  have hblocks : (req.promptTokens.length + 15) / 16 >
      c.numFreeBlocks - s.reservedBlocks c.pool.capacity := by
    rw [hfree]
    exact not_le.1 hfits
  have hstop : s.addRequests (c.numFreeBlocks - s.reservedBlocks c.pool.capacity) s.prefillQueue
      ⟨⟨[], [], 0⟩, 0, s.active, c, []⟩ = (s.prefillQueue, ⟨⟨[], [], 0⟩, 0, s.active, c, []⟩) := by
    rw [hqueue, addRequests]
    dsimp only
    rw [if_pos hblocks, ite_self, ite_self]
  exact schedule_of_idle hactive order closed c hstop

/-- A prompt that fits is admitted, or there is no block at all. -/
theorem schedule_takes (hfits : req.Fits s c) (hsize : 0 < s.maxBatchSize)
    (htokens : 0 < s.maxBatchTokens) (hprefill : 0 < s.maxPrefillTokens) {d : SchedulerDecision}
    {s' : BatchScheduler} {c' : PagedKvCacheManager R} {events : List (ℕ × GenerationEvent)}
    (hschedule : s.schedule order closed c = (d, s', c', events)) :
    Admits req rest d s' ∨ TurnsAway req rest events s' := by
  have hroom : s.Room (⟨⟨[], [], 0⟩, 0, s.active, c, []⟩ : Building R) := by
    simp only [Room, full, batchCap, prefillCap, List.length_nil]
    omega
  obtain ⟨queue, st, hrequests⟩ : ∃ queue st, s.addRequests
      (c.numFreeBlocks - s.reservedBlocks c.pool.capacity) s.prefillQueue
      ⟨⟨[], [], 0⟩, 0, s.active, c, []⟩ = (queue, st) := ⟨_, _, rfl⟩
  rw [schedule_of_idle hactive order closed c hrequests] at hschedule
  cases hschedule
  rw [hqueue, hfree] at hrequests
  -- What the loop does later is added to what it does with the front.
  rcases s.addRequests_cons (c.pool.capacity - s.reservedBlocks c.pool.capacity) req rest
    ⟨⟨[], [], 0⟩, 0, s.active, c, []⟩ with ⟨hwhy, -⟩ | ⟨err, c₁, message, -, -, -, hskip, -⟩ |
    ⟨handle, c₁, -, -, -, hadd, -⟩
  · rcases hwhy with hfull | hblocks
    · exact absurd hroom hfull
    · exact absurd hfits (not_le.2 hblocks)
  · rw [hskip] at hrequests
    obtain ⟨hsuffix, -, hevents, -⟩ := hrequests ▸ s.addRequests_grows
      (c.pool.capacity - s.reservedBlocks c.pool.capacity) rest _
    exact .inr ⟨hsuffix, message, hevents.subset (.head _)⟩
  · rw [hadd] at hrequests
    obtain ⟨hsuffix, hprefills, -, hrunning⟩ := hrequests ▸ s.addRequests_grows
      (c.pool.capacity - s.reservedBlocks c.pool.capacity) rest _
    refine .inl ⟨hsuffix, hrunning req.seqId ?_, _, hprefills.subset (.head _), rfl⟩
    rw [entered, addPrefill, firstJob, AList.lookup_insert]
    rfl

end

/-- Nothing runs, and the front request does not fit. -/
structure Stuck (req : PendingRequest) (st : LoopState R) : Prop where
  idle : st.Idle
  front : st.scheduler.prefillQueue.head? = some req
  unfit : ¬ req.Fits st.scheduler st.cache

/-- A turn of a stuck loop only lengthens the queue. -/
theorem Stuck.turn (h : Stuck req st) (e : Engine R W F) (t : Turn F) :
    Stuck req (st.turn e t).2 := by
  cases hclean : st.poisoned with
  | true =>
    rw [LoopState.turn, if_pos hclean]
    exact h
  | false =>
    obtain ⟨rest, hqueue⟩ := List.head?_eq_some_iff.1 h.front
    have hqueue' : (st.enqueued t).prefillQueue = req :: (rest ++ t.submitted) := by
      rw [LoopState.enqueued, hqueue, List.cons_append]
    have hplan : st.schedule t =
        (⟨[], [], 0⟩, { st with scheduler := st.enqueued t, events := st.events ++ [] }) := by
      rw [LoopState.schedule, foldl_enqueue]
      have hblocked := schedule_blocked (s := st.enqueued t) h.idle.active h.idle.free hqueue'
        t.order t.closed h.unfit
      rw [LoopState.enqueued] at hblocked ⊢
      rw [hblocked]
    rcases turn_cases e t hclean hplan with ⟨-, hturn⟩ | ⟨⟨hne, -⟩, -⟩
    · rw [hturn]
      exact ⟨⟨h.idle.active, h.idle.free⟩, by rw [hqueue']; rfl, h.unfit⟩
    · exact absurd rfl hne

/-- **With nothing running, the front request is taken if and only if its
prompt fits into the pool.** One that does not fit is at the front of the
queue for ever. -/
theorem front_taken_iff_fits (hidle : st.Idle) (hqueue : st.scheduler.prefillQueue = req :: rest)
    (hsize : 0 < st.scheduler.maxBatchSize) (htokens : 0 < st.scheduler.maxBatchTokens)
    (hprefill : 0 < st.scheduler.maxPrefillTokens) (order : IterOrder) (closed : ℕ → Bool)
    {d : SchedulerDecision} {s' : BatchScheduler} {c' : PagedKvCacheManager R}
    {events : List (ℕ × GenerationEvent)}
    (hschedule : st.scheduler.schedule order closed st.cache = (d, s', c', events)) :
    ((Admits req rest d s' ∨ TurnsAway req rest events s') ↔ req.Fits st.scheduler st.cache) ∧
    (req.Fits st.scheduler st.cache ∨ ∀ (e : Engine R W F) (turns : List (Turn F)),
      (run (fun st t => (st.turn e t).2) st turns).scheduler.prefillQueue.head? = some req) := by
  by_cases hfits : req.Fits st.scheduler st.cache
  · exact ⟨iff_of_true (schedule_takes hidle.active hidle.free hqueue order closed hfits hsize
      htokens hprefill hschedule) hfits, .inl hfits⟩
  · refine ⟨iff_of_false (fun htaken => ?_) hfits, .inr fun e turns => ?_⟩
    · rw [schedule_blocked hidle.active hidle.free hqueue order closed hfits] at hschedule
      cases hschedule
      have hsuffix : st.scheduler.prefillQueue <:+ rest := htaken.elim (·.1) (·.1)
      have hle := hsuffix.length_le
      rw [hqueue, List.length_cons] at hle
      omega
    · have hstuck : Stuck req st := ⟨hidle, by rw [hqueue]; rfl, hfits⟩
      exact (run_invariant (Stuck req) hstuck (fun _ t h => h.turn e t) turns).front

end Front

/-- The front of the queue is a prompt of 17 tokens, two blocks are free,
and the reserve is a tenth of the pool, rounded up. -/
def seventeenTokens : LoopState ℕ where
  scheduler := (BatchScheduler.new 64 4096 512 fun capacity => (capacity + 9) / 10).enqueue
    (.greedy 7 (List.replicate 17 5) 1)
  cache := twoBlocks
  events := []
  poisoned := false

theorem seventeenTokens_idle : seventeenTokens.Idle := ⟨rfl, rfl⟩

/-- A prompt of 17 tokens stays in the queue of an idle loop, and no
event is sent. -/
theorem front_stays : seventeenTokens.Idle ∧
    (seventeenTokens.scheduler.schedule .stored (fun _ => false) seventeenTokens.cache).2.1.prefillQueue =
      [.greedy 7 (List.replicate 17 5) 1] ∧
    (seventeenTokens.scheduler.schedule .stored (fun _ => false) seventeenTokens.cache).2.2.2 = [] ∧
    (seventeenTokens.scheduler.schedule .stored (fun _ => false)
      seventeenTokens.cache).2.1.active.lookup 7 = none :=
  ⟨seventeenTokens_idle, by decide, by decide, by decide⟩

theorem front_taken_iff_fits_seventeenTokens :
    ¬ PendingRequest.Fits (.greedy 7 (List.replicate 17 5) 1) seventeenTokens.scheduler
      seventeenTokens.cache ∧
    (run (fun st t => (st.turn (referenceEngine 2) t).2) seventeenTokens
      [.quiet [] 9, .quiet [] 9]).scheduler.prefillQueue.head? =
        some (.greedy 7 (List.replicate 17 5) 1) := by
  have hunfit : ¬ PendingRequest.Fits (.greedy 7 (List.replicate 17 5) 1) seventeenTokens.scheduler
      seventeenTokens.cache := by
    unfold PendingRequest.Fits
    decide
  obtain ⟨-, hfits | hstays⟩ := front_taken_iff_fits (W := ℕ) (F := ℕ) seventeenTokens_idle rfl
    (by decide) (by decide) (by decide) .stored (fun _ => false) rfl
  · exact absurd hfits hunfit
  · exact ⟨hunfit, hstays _ _⟩

end Fracture
