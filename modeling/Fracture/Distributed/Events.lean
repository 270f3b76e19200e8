import Fracture.Distributed.Turn
import Fracture.Engine.Reference
import Fracture.PagedCache.Contents
import Fracture.Scheduler.History

/-!
# What a client is sent

A client is to be sent tokens and then, at most, one event that ends the
stream. Events that end it come from several places of both loops: a
request is refused, a batch fails, a worker dies, no token can be drawn,
or the sequence is through. Each of them removes the sequence, except
that after a draw that failed the sequence is left for the cleanup, which
sends that it finished. So the stream is as it should be as long as a
token can be drawn from the logits the passes return for the sequence.
-/

namespace Fracture

open Effect Runs PagedKvCacheManager

variable {R W F π : Type}

/-- Tokens, and at most one event after them. -/
def Orderly (events : List GenerationEvent) : Prop :=
  ∃ (tokens : List ℕ) (last : Option GenerationEvent),
    events = tokens.map .token ++ last.toList

/-- Tokens only. -/
def Speaking (events : List GenerationEvent) : Prop := ∃ tokens : List ℕ, events = tokens.map .token

namespace Speaking

variable {events : List GenerationEvent}

theorem nil : Speaking [] := ⟨[], rfl⟩

variable (h : Speaking events)
include h

theorem token (token : ℕ) : Speaking (events ++ [.token token]) := by
  obtain ⟨tokens, rfl⟩ := h
  exact ⟨tokens ++ [token], by simp⟩

/-- A token that was drawn is sent unless it is a stop token. -/
theorem reply (stopTokens : List ℕ) (token : ℕ) :
    Speaking (events ++ if token ∈ stopTokens then [] else [.token token]) := by
  split
  · rwa [List.append_nil]
  · exact h.token token

theorem orderly : Orderly events := by
  obtain ⟨tokens, rfl⟩ := h
  exact ⟨tokens, none, by simp⟩

theorem last (e : GenerationEvent) : Orderly (events ++ [e]) := by
  obtain ⟨tokens, rfl⟩ := h
  exact ⟨tokens, some e, rfl⟩

end Speaking

theorem Orderly.error (message : String) : Orderly [.error message] := ⟨[], some _, rfl⟩

/-! ## Draws that succeed -/

/-- The draws, with a token for the sequence `id` where there would be none. -/
def spared (sample : ℕ → List F → SamplingParams → Except FractureError ℕ) (id i : ℕ)
    (logits : List F) (params : SamplingParams) : Except FractureError ℕ :=
  if i = id then .ok ((sample i logits params).toOption.getD 0) else sample i logits params

theorem spared_isOk (sample : ℕ → List F → SamplingParams → Except FractureError ℕ) (id : ℕ)
    (logits : List F) (params : SamplingParams) : (spared sample id id logits params).isOk := by
  rw [spared, if_pos rfl]
  rfl

theorem spared_eq {sample : ℕ → List F → SamplingParams → Except FractureError ℕ} {id i : ℕ}
    {logits : List F} (h : i = id → ∀ params, (sample id logits params).isOk)
    (params : SamplingParams) : spared sample id i logits params = sample i logits params := by
  unfold spared
  split
  · next heq =>
    subst heq
    have hok := h rfl params
    cases hdraw : sample i logits params with
    | ok token => rfl
    | error e =>
      rw [hdraw] at hok
      cases hok
  · rfl

/-! ## The local loop -/

section Local

/-- A token can be drawn from every row of logits that a turn's pass returned
for the sequence `id`. -/
def TurnLog.Drawable (log : TurnLog F) (t : Turn F) (id : ℕ) : Prop :=
  ∀ rows, log.result = .logits rows → ∀ p ∈ log.batch.zip rows, p.1.seqId = id →
    ∀ params, (t.sample id p.2 params).isOk

def Turn.spared (t : Turn F) (id : ℕ) : Turn F := { t with sample := Fracture.spared t.sample id }

section

variable {e : Engine R W F} {t : Turn F} {id : ℕ} {entries : List BatchEntry} {st : LoopState R}

theorem runBatch_spared (h : ∀ rows, (runBatch e t entries st).1 = .logits rows →
      ∀ p ∈ entries.zip rows, p.1.seqId = id → ∀ params, (t.sample id p.2 params).isOk) :
    runBatch e (t.spared id) entries st = runBatch e t entries st := by
  unfold runBatch at h ⊢
  split
  · next logits cache hforward =>
    rw [hforward] at h
    have hsame : ∀ s, sampleAll (spared t.sample id) s entries logits =
        sampleAll t.sample s entries logits := fun s =>
      List.foldl_ext _ _ s fun s p hp => by
        simp only [sampleEntry, spared_eq (h logits rfl p hp)]
    simp only [finishTurn, Turn.spared, hsame]
  · rfl
  · rfl

/-- The turn goes as if no draw for the sequence could fail. -/
theorem turn_spared (h : (st.turn e t).1.Drawable t id) :
    st.turn e (t.spared id) = st.turn e t := by
  unfold LoopState.turn at h ⊢
  split
  · rfl
  · next hup =>
    rw [if_neg hup] at h
    dsimp only at h ⊢
    by_cases hidle : (st.schedule t).1.totalTokens = 0 ∨
        batchEntries (st.schedule t).2.scheduler (st.schedule t).1 = []
    · rw [if_pos hidle]
      exact if_pos hidle
    · rw [if_neg hidle] at h ⊢
      refine (if_neg hidle).trans ?_
      rw [show (st.schedule (t.spared id)) = st.schedule t from rfl, runBatch_spared h]
      rfl

end

variable {t : Turn F} {id : ℕ}

/-- What is sent after a turn was planned, if every draw succeeds. -/
theorem Concluded.orderly {result : ForwardResult F} {share : Share} {seq : ActiveSequence}
    {drawn : List ℕ} {sent before : List GenerationEvent} {after : Option ActiveSequence}
    (h : Concluded t result id share (some seq) drawn sent after)
    (hdraws : ∀ logits params, (t.sample id logits params).isOk) (hbefore : Speaking before) :
    Orderly (before ++ sent) ∧ (after.isSome → Speaking (before ++ sent)) := by
  have hsame : Orderly (before ++ []) ∧ ((some seq).isSome → Speaking (before ++ [])) := by
    rw [List.append_nil]
    exact ⟨hbefore.orderly, fun _ => hbefore⟩
  cases h with
  | idle => exact hsame
  | spared => exact hsame
  | crashed => exact hsame
  | aborted => exact ⟨hbefore.last _, fun hsome => by cases hsome⟩
  | @run _ _ events _ events' _ _ _ _ _ hsampled hcleaned =>
    have hspeaking : Speaking (before ++ events) := by
      cases hsampled with
      | skip => rwa [List.append_nil]
      | draw => exact hbefore.reply _ _
      | @fail _ logits _ _ _ _ herr =>
        have hok := hdraws logits seq.params
        rw [herr] at hok
        cases hok
    rw [← List.append_assoc]
    cases hcleaned with
    | finish => exact ⟨hspeaking.last _, fun hsome => by cases hsome⟩
    | _ =>
      rw [List.append_nil]
      exact ⟨hspeaking.orderly, fun _ => hspeaking⟩

/-- The course of a request's events. -/
theorem events_course (id : ℕ) : Course (F := F) (fun _ => True)
    (fun t _ => ∀ logits params, (t.sample id logits params).isOk)
    (fun req _ h => req.seqId = id → Speaking h.events)
    (fun req _ _ h => req.seqId = id → Speaking h.events)
    (fun req h => req.seqId = id → Orderly h.events) where
  enter _ _ _ _ := .nil
  reject message _ _ := .error message
  idle h := h
  decode h _ hid := by simpa [History.plan] using h hid
  chunk h _ _ hid := by simpa [History.plan] using h hid
  conclude {req share seq h t result drawn events after} hM hC _ hconcluded := by
    cases after with
    | none =>
      rintro rfl
      exact (hconcluded.orderly hC (hM rfl)).1
    | some seq' =>
      rintro rfl
      exact (hconcluded.orderly hC (hM rfl)).2 rfl

end Local

/-! ## The distributed loop -/

/-- Where a request stands with its events. -/
def Life.Orderly (l : Life) : Prop :=
  match l.status with
  | .unborn => l.events = []
  | .waiting _ => l.events = []
  | .running _ => Speaking l.events
  | .over => Fracture.Orderly l.events

/-- Every move keeps a request's events in order if the draw succeeds. -/
theorem Life.Orderly.move {t : DistributedTurn π F} {id : ℕ} {l l' : Life} (h : l.Orderly)
    (hdraws : ∀ logits params, (t.sample id logits params).isOk) (hmove : l.Move t id l') :
    l'.Orderly := by
  unfold Life.Orderly at h
  cases hmove with
  | arrive hstatus =>
    rw [hstatus] at h
    exact h
  | refuse hstatus message =>
    rw [hstatus] at h
    rw [show l.events = [] from h]
    exact .error message
  | enter hstatus =>
    rw [hstatus] at h
    rw [show l.events = [] from h]
    exact .nil
  | abort hstatus message =>
    rw [hstatus] at h
    exact Speaking.last h _
  | lose hstatus _ message =>
    rw [hstatus] at h
    exact Speaking.last h _
  | chunk hstatus =>
    rw [hstatus] at h
    exact h
  | @draw seq job isPrefill seq' logits token hstatus hready hok =>
    rw [hstatus] at h
    have hreply := Speaking.reply h (seq'.pushToken isPrefill token).stopTokens token
    unfold Life.Orderly DistributedSequence.reply
    rw [← List.append_assoc]
    by_cases hthrough : (seq'.pushToken isPrefill token).through token
    · rw [if_pos hthrough, if_pos hthrough]
      exact hreply.last _
    · rw [if_neg hthrough, if_neg hthrough, List.append_nil]
      exact hreply
  | @botch seq _ _ _ logits _ _ _ herr =>
    have hok := hdraws logits seq.params
    rw [herr] at hok
    cases hok

theorem Life.Orderly.events {l : Life} (h : l.Orderly) : Fracture.Orderly l.events := by
  unfold Life.Orderly at h
  split at h
  · rw [h]
    exact Speaking.nil.orderly
  · rw [h]
    exact Speaking.nil.orderly
  · exact Speaking.orderly h
  · exact h

/-- A token can be drawn from every row of logits that a batch brought for
the sequence `id`. -/
def DistributedLog.Drawable (log : DistributedLog π F) (t : DistributedTurn π F) (id : ℕ) : Prop :=
  ∀ rows, log.result = .ok rows → ∀ task ∈ DistributedState.sampleTasks log.batch rows,
    task.seqId = id → ∀ params, (t.sample id task.logits params).isOk

def DistributedTurn.spared (t : DistributedTurn π F) (id : ℕ) : DistributedTurn π F :=
  { t with sample := Fracture.spared t.sample id }

namespace DistributedState

variable {cfg : DistributedLoopConfig} {t : DistributedTurn π F} {id : ℕ}

theorem runBatch_spared {st : DistributedState π} {batch : DistributedBatch}
    (h : (runBatch t st batch).1.Drawable t id) :
    runBatch (t.spared id) st batch = runBatch t st batch := by
  unfold runBatch at h ⊢
  simp only [show (t.spared id).ops = t.ops from rfl]
  split
  · rfl
  · next flat pipeline hforward =>
    rw [hforward] at h
    have hsame : ∀ s, sampleAll (t.spared id) (sampleTasks batch
        (splitLogitsPerSequence flat batch.metas.length)) s = sampleAll t _ s := fun s =>
      List.foldl_ext _ _ s fun s task htask => by
        simp only [sampleEntry, drawToken, DistributedTurn.spared, spared_eq (h _ rfl task htask)]
    simp only [conclude, hsame]
    rfl

theorem serve_spared {st : DistributedState π} (h : ∀ log ∈ (st.serve cfg t).1, log.Drawable t id) :
    st.serve cfg (t.spared id) = st.serve cfg t := by
  unfold serve at h ⊢
  rw [show st.admitOne cfg (t.spared id) = st.admitOne cfg t from rfl,
    show (t.spared id).order = t.order from rfl]
  dsimp only at h ⊢
  split_ifs at h ⊢ with hidle hempty
  · rfl
  · rfl
  · rw [runBatch_spared (h _ rfl)]

/-- The turn goes as if no draw for the sequence could fail. -/
theorem turn_spared {st : DistributedState π}
    (h : ∀ log ∈ (st.turn cfg t).1, log.Drawable t id) :
    st.turn cfg (t.spared id) = st.turn cfg t := by
  -- the phases before the batch draw nothing
  have hcheck : checkReconfigured (t.spared id) = checkReconfigured t := rfl
  have hbury : buryDead cfg (t.spared id) = buryDead cfg t := rfl
  have hrebalance : rebalance cfg (t.spared id) = rebalance cfg t := rfl
  have hdegraded : waitDegraded (t.spared id) = waitDegraded t := rfl
  have hwait : waitForWork (t.spared id) = waitForWork t := rfl
  unfold turn at h ⊢
  rw [hcheck, hbury, hrebalance, hdegraded, hwait,
    show (t.spared id).submitted = t.submitted from rfl,
    show (t.spared id).disconnected = t.disconnected from rfl]
  dsimp only at h ⊢
  split_ifs at h ⊢
  · rfl
  · rfl
  · rfl
  · generalize waitForWork t _ = next at h ⊢
    obtain ⟨st, _ | _⟩ := next
    · rfl
    · exact serve_spared h

end DistributedState

/-- **A client is sent tokens and then at most one other event**, by both
loops, if a token can be drawn from every row of logits that a pass
returns for its request. -/
theorem events_orderly (id : ℕ) :
    (∀ (e : Engine R W F) {fresh : ℕ → ℕ → Except FractureError (List R × List R)}
      {numBlocks numLayers numKvHeads headDim : ℕ} {cache : PagedKvCacheManager R},
      PagedKvCacheManager.new fresh numBlocks numLayers numKvHeads headDim = .ok cache →
      ∀ (maxBatchSize maxBatchTokens maxPrefillTokens : ℕ) (reservedBlocks : ℕ → ℕ)
        {turns : List (Turn F)}, ((turns.flatMap (·.submitted)).map (·.seqId)).Nodup →
        Throughout (Trace.next e) (fun tr t => (tr.state.turn e t).1.Drawable t id)
          (.start (.new maxBatchSize maxBatchTokens maxPrefillTokens reservedBlocks) cache) turns →
        Orderly ((Trace.serve e (.new maxBatchSize maxBatchTokens maxPrefillTokens reservedBlocks)
          cache turns).historyOf id).events) ∧
    ∀ (cfg : DistributedLoopConfig) (pipeline : π) {turns : List (DistributedTurn π F)},
      ((turns.flatMap (·.arrivals)).map (·.seqId)).Nodup →
      Throughout (DistributedTrace.next cfg)
        (fun tr t => ∀ log ∈ (tr.state.turn cfg t).1, log.Drawable t id) (.start pipeline) turns →
      Orderly (eventsOf id (DistributedTrace.serve cfg pipeline turns).state.events) := by
  refine ⟨?_, ?_⟩
  · intro e fresh numBlocks numLayers numKvHeads headDim cache hnew maxBatchSize maxBatchTokens
      maxPrefillTokens reservedBlocks turns hids hdraws
    have hsame := run_map (f := (·.spared id)) <| hdraws.imp (fun _ => True) trivial
      (fun _ _ => trivial) fun {tr t} _ h => by rw [Trace.next, turn_spared h, ← Trace.next]
    have hids' : (((turns.map (·.spared id)).flatMap (·.submitted)).map (·.seqId)).Nodup := by
      rw [List.flatMap_map]
      exact hids
    have hrun := (events_course id).serve e hnew maxBatchSize maxBatchTokens maxPrefillTokens
      reservedBlocks hids' (fun _ _ => trivial) (throughout_of_forall fun t ht => by
        obtain ⟨t, -, rfl⟩ := List.mem_map.1 ht
        exact spared_isOk t.sample id)
    have hprogress := hrun.2 id
    rw [Trace.serve, hsame, ← Trace.serve] at hprogress
    generalize (Trace.serve e (.new maxBatchSize maxBatchTokens maxPrefillTokens reservedBlocks)
      cache turns) = tr at hprogress ⊢
    generalize tr.entryOf id = entry at hprogress
    generalize tr.historyOf id = h at hprogress ⊢
    cases hprogress with
    | unborn => exact Speaking.nil.orderly
    | running _ hid hP =>
      rcases hP with hspeaking | ⟨-, -, hspeaking⟩
      · exact (hspeaking hid).orderly
      · exact (hspeaking hid).orderly
    | ended _ hid _ hQ => exact hQ hid
  · intro cfg pipeline turns hids hdraws
    have hsame := run_map (f := (·.spared id)) <| hdraws.imp (fun _ => True) trivial
      (fun _ _ => trivial) fun {tr t} _ h => by
        rw [DistributedTrace.next, DistributedState.turn_spared h, ← DistributedTrace.next]
    rw [DistributedTrace.serve, ← hsame]
    refine (DistributedTrace.lives_keep cfg pipeline ?_ id Life.Orderly rfl
      fun t ht _ _ h hmove => h.move ?_ hmove).events
    · rw [List.flatMap_map]
      exact hids
    · obtain ⟨t, -, rfl⟩ := List.mem_map.1 ht
      exact spared_isOk t.sample id

/-- A turn of the distributed loop with one worker that answers every
batch with the same logit. -/
def DistributedTurn.plain (submitted : List PendingRequest)
    (sample : ℕ → List ℕ → SamplingParams → Except FractureError ℕ) : DistributedTurn Unit ℕ :=
  { reconfigured := none, submitted, disconnected := false, deadIds := [], recovered := none,
    needsRebalance := false, rebalanced := none, wakeup := .timer, freeBlocks := 0,
    ops :=
      { allocCache := fun _ => pure (), batchedForward := fun _ _ _ => pure [0],
        freeCache := fun _ => pure (), freeCacheBestEffort := fun _ _ => (),
        abortAllSequences := fun _ => ([], ()) },
    order := .stored, sample }

/-- No token can be drawn, and both loops send that the sequence finished
after the error. -/
theorem botched_draw :
    ((Trace.serve (referenceEngine 2) (.new 4 4 4 fun _ => 0) twoBlocks
      [{ (Turn.quiet [.greedy 7 [5, 6] 4] 9 : Turn ℕ) with
        sample := fun _ _ _ => .error (.generation "NaN in logits") }]).historyOf 7).events =
      [.error "sampling failed: generation error: NaN in logits", .finished .length 0] ∧
    eventsOf 7 (DistributedTrace.serve ⟨4, 4, 4, 0, false⟩ ()
      [.plain [.greedy 7 [5, 6] 4] fun _ _ _ => .error (.generation "NaN in logits")]).state.events =
      [.error "sampling failed: generation error: NaN in logits", .finished .length 0] := by
  decide +kernel

/-- The first logit as the token; there is none in an empty row. -/
def firstLogit (_ : ℕ) (logits : List ℕ) (_ : SamplingParams) : Except FractureError ℕ :=
  match logits with
  | [] => .error (.generation "empty logits")
  | token :: _ => .ok token

theorem events_orderly_oneReply :
    Orderly ((Trace.serve (referenceEngine 2) (.new 4 4 4 fun _ => 0) twoBlocks
      [{ (Turn.quiet [.greedy 7 [5, 6] 1] 9 : Turn ℕ) with
        sample := firstLogit }]).historyOf 7).events ∧
    Orderly (eventsOf 7 (DistributedTrace.serve ⟨4, 4, 4, 0, false⟩ ()
      [.plain [.greedy 7 [5, 6] 1] firstLogit]).state.events) := by
  obtain ⟨hlocal, hdistributed⟩ := events_orderly (R := ℕ) (W := ℕ) (F := ℕ) (π := Unit) 7
  refine ⟨hlocal (referenceEngine 2) new_twoBlocks 4 4 4 (fun _ => 0) (by decide)
    ⟨fun rows hrows p hp _ params => ?_, trivial⟩,
    hdistributed ⟨4, 4, 4, 0, false⟩ () (by decide)
      ⟨fun log hlog rows hrows task htask _ params => ?_, trivial⟩⟩
  · have hresult : ((LoopState.turn (referenceEngine 2)
        { (Turn.quiet [.greedy 7 [5, 6] 1] 9 : Turn ℕ) with sample := firstLogit }
        (Trace.start (F := ℕ) (.new 4 4 4 fun _ => 0) twoBlocks).state).1.result) =
          .logits [[121760190]] := by
      decide +kernel
    cases hresult.symm.trans hrows
    rw [List.mem_singleton.1 (List.of_mem_zip hp).2]
    rfl
  · cases hlog
    cases hrows
    cases List.mem_singleton.1 htask
    rfl

/-! ## No request is lost -/

/-- The event tells how a request ended. -/
def GenerationEvent.isLast : GenerationEvent → Bool
  | .token _ => false
  | _ => true

/-- A client was told how its request ended exactly if it did. -/
def Life.Told (l : Life) : Prop := l.status = .over ↔ l.events.any (·.isLast)

theorem Life.Told.move {t : DistributedTurn π F} {id : ℕ} {l l' : Life} (h : l.Told)
    (hmove : l.Move t id l') : l'.Told := by
  unfold Life.Told at h ⊢
  cases hmove with
  | arrive hstatus | enter hstatus | chunk hstatus => simpa [hstatus] using h
  | refuse | abort | lose | botch => simp [GenerationEvent.isLast]
  | draw hstatus =>
    rw [hstatus, iff_false_left nofun, Bool.not_eq_true] at h
    simp only [DistributedSequence.reply, DistributedSequence.farewell, List.any_append, h]
    split_ifs <;> simp [GenerationEvent.isLast]

/-- **No request is lost.** Whatever becomes of the workers, the passes and the
draws, a client has been told how its request ended exactly if the request was
received and neither waits nor runs. -/
theorem DistributedTrace.told (cfg : DistributedLoopConfig) (pipeline : π)
    {turns : List (DistributedTurn π F)}
    (hids : ((turns.flatMap (·.arrivals)).map (·.seqId)).Nodup) (id : ℕ) :
    (serve cfg pipeline turns).state.statusOf id = .over ↔
      (eventsOf id (serve cfg pipeline turns).state.events).any (·.isLast) :=
  lives_keep cfg pipeline hids id Life.Told (by simp [Life.Told])
    fun _ _ _ _ h hmove => h.move hmove

theorem DistributedTrace.told_oneReply :
    (DistributedTrace.serve ⟨4, 4, 4, 0, false⟩ ()
      [.plain [.greedy 7 [5, 6] 1] fun _ _ _ => .ok 9]).state.statusOf 7 = .over :=
  (DistributedTrace.told _ _ (by decide) 7).2 (by decide +kernel)

end Fracture
