import Fracture.Engine.Reference
import Fracture.PagedCache.Contents
import Fracture.Scheduler.History
import Fracture.Scheduler.Limits

/-!
# Blocks that are promised

A request is admitted when the blocks of its whole prompt are free, apart
from the reserve. It takes one block then, and the others when its prompt
is run. The check looks at what was free when the call began, and counts
neither the blocks of requests admitted before in the same call nor those
that prompts already begun have still to get. Here is what is promised:
the requests that a call admits, with the state of the call at each
admission, and the blocks owed at that moment.
-/

namespace Fracture

open Assoc PagedKvCacheManager Runs

variable {R W F : Type}

/-- The length of a sequence's block table. -/
def PagedKvCacheManager.tableLen (c : PagedKvCacheManager R) (h : CacheHandle) : ℕ :=
  ((c.sequences.lookup h).map (·.blockTable.length)).getD 0

/-- The blocks a sequence has still to get for its prompt. Before its first
token is drawn, the prompt tokens are those behind `currentPos` and those
that are left. -/
def ActiveSequence.owed (c : PagedKvCacheManager R) (seq : ActiveSequence) : ℕ :=
  if seq.generatedTokens = [] then
    (seq.currentPos + seq.remainingPrefill.length + 15) / 16 - c.tableLen seq.handle
  else 0

/-- The blocks owed to all prompts that are not through. -/
def owedBlocks (active : AList fun _ : ℕ => ActiveSequence) (c : PagedKvCacheManager R) : ℕ :=
  total (fun _ seq => seq.owed c) active

namespace BatchScheduler

variable {s : BatchScheduler} {available : ℕ} {queue front : List PendingRequest}
  {req : PendingRequest} {st : Building R}

/-- The jobs the loop adds are those of the requests it admits. -/
theorem prefills_addRequests (available : ℕ) (queue : List PendingRequest) (st : Building R) :
    (s.addRequests available queue st).2.decision.prefills.map (·.seqId) =
      st.decision.prefills.map (·.seqId) ++
        (s.admissions available queue st).map (·.1.seqId) := by
  induction queue generalizing st with
  | nil => simp [addRequests, admissions]
  | cons req queue ih =>
    rcases s.addRequests_cons available req queue st with ⟨-, hstop, hnone⟩ |
      ⟨e, c', message, -, -, -, hskip, hrest⟩ | ⟨handle, c', -, -, -, hadd, hmore⟩
    · rw [hstop, hnone, List.map_nil, List.append_nil]
    · rw [hskip, hrest]
      exact ih _
    · rw [hadd, hmore, ih, entered, addPrefill, List.map_append, List.append_assoc]
      rfl

/-! ## Who is let in -/

/-- The room after the prompts that are begun. -/
theorem roomFor_addChunks {ids : List ℕ} (hnodup : ids.Nodup)
    (hids : ∀ g ∈ ids, (st.active.lookup g).isSome) {k n : ℕ} :
    s.RoomFor (s.addChunks ids st) k n ↔
      s.RoomFor st (k + ids.length) (n + promptLeft st.active ids) := by
  induction ids generalizing st with
  | nil => exact Iff.rfl
  | cons g ids ih =>
    obtain ⟨hnotMem, hnodup'⟩ := List.nodup_cons.1 hnodup
    obtain ⟨seq, hseq⟩ := Option.isSome_iff_exists.1 (hids g (.head _))
    rcases s.addChunks_cons g ids st with ⟨hfull, hstop⟩ | ⟨hskip, -⟩ | ⟨seq', hseq', -, hadd⟩
    · rw [hstop]
      exact iff_of_false (fun h => hfull h.room) fun h => hfull h.room
    · cases hskip.symm.trans hseq
    · cases hseq.symm.trans hseq'
      have hids' : ∀ k ∈ ids, ((s.chunked st g seq).active.lookup k).isSome := by
        intro k hk
        have hne : k ≠ g := fun heq => hnotMem (heq ▸ hk)
        rw [chunked, addPrefill, chunkJob, AList.lookup_insert_ne hne]
        exact hids k (.tail _ hk)
      have hleft : promptLeft (s.chunked st g seq).active ids = promptLeft st.active ids :=
        promptLeft_insert hnotMem _
      rw [hadd, ih hnodup' hids', hleft, promptLeft_cons hseq, ← Nat.add_assoc n]
      exact roomFor_addPrefill ..

/-- The prompt tokens of some requests. -/
def promptTokens (reqs : List PendingRequest) : ℕ := (reqs.map (·.promptTokens.length)).sum

/-- The first requests of the queue are all admitted. -/
structure LetsIn (s : BatchScheduler) (available : ℕ) (st : Building R)
    (front : List PendingRequest) : Prop where
  blocks : front.length ≤ st.cache.numFreeBlocks
  needed : ∀ req ∈ front, blocksNeeded req ≤ available
  room : ∀ k < front.length, s.RoomFor st k (promptTokens (front.take k))

theorem letsIn_nil : s.LetsIn available st [] :=
  ⟨Nat.zero_le _, by simp, fun k hk => absurd hk (Nat.not_lt_zero k)⟩

variable {handle : CacheHandle} {c' : PagedKvCacheManager R}

/-- Letting one in, and then the others. -/
theorem letsIn_cons_iff (hok : PagedKvCacheManager.alloc st.cache = .ok handle c') :
    s.LetsIn available st (req :: front) ↔
      s.Room st ∧ blocksNeeded req ≤ available ∧
        s.LetsIn available (s.entered st req handle c') front := by
  have hfree := (allocOk hok).free
  have hfree' : (s.entered st req handle c').cache.numFreeBlocks = c'.numFreeBlocks := rfl
  have hroom : ∀ k n, s.RoomFor (s.entered st req handle c') k n ↔
      s.RoomFor st (k + 1) (n + req.promptTokens.length) := by
    intro k n
    exact roomFor_addPrefill { st with cache := c' } _ _ req.promptTokens.length k n
  have htake : ∀ k, promptTokens ((req :: front).take (k + 1)) =
      promptTokens (front.take k) + req.promptTokens.length := by
    intro k
    rw [promptTokens, promptTokens, List.take_succ_cons, List.map_cons, List.sum_cons, Nat.add_comm]
  constructor
  · intro h
    have hblocks := h.blocks
    rw [List.length_cons] at hblocks
    refine ⟨room_iff.2 (h.room 0 (Nat.succ_pos _)), h.needed req (.head _), ?_, ?_, fun k hk => ?_⟩
    · omega
    · exact fun r hr => h.needed r (.tail _ hr)
    · rw [hroom, ← htake]
      exact h.room (k + 1) (Nat.succ_lt_succ hk)
  · rintro ⟨hfirst, hneeded, hrest⟩
    have hblocks := hrest.blocks
    refine ⟨?_, ?_, ?_⟩
    · rw [List.length_cons]
      omega
    · rintro r (_ | ⟨_, hr⟩)
      · exact hneeded
      · exact hrest.needed r hr
    · rintro (_ | k) hk
      · exact room_iff.1 hfirst
      · rw [htake, ← hroom]
        exact hrest.room k (Nat.lt_of_succ_lt_succ hk)

/-- Without a free block nobody is admitted. -/
theorem admissions_of_no_block (h : st.cache.numFreeBlocks = 0) :
    s.admissions available queue st = [] := by
  induction queue generalizing st with
  | nil => rfl
  | cons req queue ih =>
    rcases s.addRequests_cons available req queue st with ⟨-, -, hstop⟩ |
      ⟨e, c', message, herr, -, -, -, hskip⟩ | ⟨handle, c', hok, -⟩
    · exact hstop
    · rw [hskip]
      exact ih (numFreeBlocks_of_alloc_error herr)
    · have hfree := (allocOk hok).free
      omega

/-- **The requests admitted are the first ones of the queue, as many as are
let in.** -/
theorem admissions_front (s : BatchScheduler) (available : ℕ) (queue : List PendingRequest)
    (st : Building R) :
    (s.admissions available queue st).map (·.1) <+: queue ∧
    ∀ front, front <+: queue →
      (front <+: (s.admissions available queue st).map (·.1) ↔ s.LetsIn available st front) := by
  induction queue generalizing st with
  | nil =>
    refine ⟨List.prefix_rfl, fun front hfront => ?_⟩
    obtain rfl := List.prefix_nil.1 hfront
    exact iff_of_true List.nil_prefix letsIn_nil
  | cons req queue ih =>
    -- a list that is not empty is let in only with the first request
    have hnobody : (∀ front, ¬ s.LetsIn available st (req :: front)) →
        ∀ front, front <+: req :: queue → (front <+: [] ↔ s.LetsIn available st front) := by
      intro hnone front hfront
      cases front with
      | nil => exact iff_of_true List.prefix_rfl letsIn_nil
      | cons r front =>
        obtain ⟨rfl, -⟩ := List.cons_prefix_cons.1 hfront
        exact iff_of_false (fun hnil => by cases List.prefix_nil.1 hnil) (hnone front)
    rcases s.addRequests_cons available req queue st with ⟨hwhy, -, hstop⟩ |
      ⟨e, c', message, herr, -, -, -, hskip⟩ | ⟨handle, c', hok, hroom, hblocks, -, hmore⟩
    · rw [hstop]
      constructor
      · exact List.nil_prefix
      refine hnobody fun front hlets => ?_
      rcases hwhy with hfull | hlarge
      · exact hfull (room_iff.2 (hlets.room 0 (Nat.succ_pos _)))
      · exact absurd (hlets.needed req (.head _)) (not_le.2 hlarge)
    · have hnone := (of_alloc_error herr).1
      rw [hskip, admissions_of_no_block (numFreeBlocks_of_alloc_error herr)]
      constructor
      · exact List.nil_prefix
      refine hnobody fun front hlets => ?_
      have hle := hlets.blocks
      rw [List.length_cons] at hle
      omega
    · obtain ⟨hfirst, hiff⟩ := ih (s.entered st req handle c')
      rw [hmore, List.map_cons]
      refine ⟨(List.prefix_cons_inj req).2 hfirst, fun front hfront => ?_⟩
      cases front with
      | nil => exact iff_of_true List.nil_prefix letsIn_nil
      | cons r front =>
        obtain ⟨rfl, hrest⟩ := List.cons_prefix_cons.1 hfront
        rw [List.prefix_cons_inj, hiff front hrest, letsIn_cons_iff hok]
        exact ⟨fun h => ⟨hroom, hblocks, h⟩, fun h => h.2.2⟩

/-! ## What is owed when a request is admitted -/

/-- The running sequences have handles that were given out. -/
def Handed (active : AList fun _ : ℕ => ActiveSequence) (c : PagedKvCacheManager R) : Prop :=
  ∀ {id seq}, active.lookup id = some seq → seq.handle < c.nextId

variable {c : PagedKvCacheManager R}

theorem handed_of_housed {active : AList fun _ : ℕ => ActiveSequence} (hhoused : Housed active c)
    (hc : c.Accounted) : Handed active c := by
  intro id seq hseq
  refine hc.fresh _ (AList.lookup_isSome.1 ?_)
  rw [← Option.isSome_map]
  exact hhoused.live hseq

/-- A sequence just allocated has one block. -/
theorem tableLen_of_alloc (hok : PagedKvCacheManager.alloc c = .ok handle c') :
    c'.tableLen handle = 1 ∧ c'.pool.capacity = c.pool.capacity := by
  obtain ⟨b, rest, -, rfl, rfl⟩ := alloc_inv hok
  refine ⟨?_, rfl⟩
  rw [tableLen, AList.lookup_insert]
  rfl

/-- A request that enters is owed the blocks of its prompt but for one. -/
theorem owedBlocks_entered (hok : PagedKvCacheManager.alloc st.cache = .ok handle c')
    (hhanded : Handed st.active st.cache) (hnew : st.active.lookup req.seqId = none) :
    owedBlocks (s.entered st req handle c').active c' =
      owedBlocks st.active st.cache + (blocksNeeded req - 1) := by
  have hnotMem : req.seqId ∉ st.active := AList.lookup_eq_none.1 hnew
  have hothers : total (fun _ seq => seq.owed c') st.active =
      total (fun _ seq => seq.owed st.cache) st.active := by
    refine total_congr fun {id seq} hseq => ?_
    have hne : seq.handle ≠ handle := by
      rw [(allocOk hok).handle]
      exact (hhanded hseq).ne
    have htable : c'.tableLen seq.handle = st.cache.tableLen seq.handle := by
      rw [tableLen, tableLen, lookup_of_alloc hok hne]
    rw [ActiveSequence.owed, ActiveSequence.owed, htable]
  have hle := s.fitting_le st req.promptTokens.length
  have hown : (activate req handle (s.fitting st req.promptTokens.length)).owed c' =
      blocksNeeded req - 1 := by
    have htable : c'.tableLen
        (activate req handle (s.fitting st req.promptTokens.length)).handle = 1 :=
      (tableLen_of_alloc hok).1
    rw [ActiveSequence.owed, htable, activate, if_pos rfl, List.length_drop,
      Nat.add_sub_cancel' hle, blocksNeeded]
  change total _ (st.active.insert req.seqId _) = total _ st.active + _
  rw [total_insert_of_notMem hnotMem, hothers, hown, Nat.add_comm]

/-- The blocks of whole prompts. -/
def neededBlocks (reqs : List PendingRequest) : ℕ := (reqs.map blocksNeeded).sum

/-- The blocks that requests just admitted have still to get. -/
def promised (reqs : List PendingRequest) : ℕ := (reqs.map (blocksNeeded · - 1)).sum

/-- What is free and what is owed at an admission, by the admissions before
it. -/
theorem owed_admissions (hwaiting : Waiting queue st.active) (hhanded : Handed st.active st.cache)
    {k : ℕ} {p : PendingRequest × Building R}
    (hp : (s.admissions available queue st)[k]? = some p) :
    p.2.cache.numFreeBlocks + k = st.cache.numFreeBlocks ∧
      p.2.cache.pool.capacity = st.cache.pool.capacity ∧
      owedBlocks p.2.active p.2.cache =
        owedBlocks st.active st.cache + promised (queue.take k) := by
  induction queue generalizing st k with
  | nil => simp [admissions] at hp
  | cons req queue ih =>
    rcases s.addRequests_cons available req queue st with ⟨-, -, hstop⟩ |
      ⟨e, c', message, herr, -, -, -, hskip⟩ | ⟨handle, c', hok, -, -, -, hmore⟩
    · rw [hstop] at hp
      simp at hp
    · rw [hskip, admissions_of_no_block (numFreeBlocks_of_alloc_error herr)] at hp
      simp at hp
    · rw [hmore] at hp
      cases k with
      | zero =>
        rw [List.getElem?_cons_zero] at hp
        cases hp
        exact ⟨rfl, rfl, rfl⟩
      | succ k =>
        rw [List.getElem?_cons_succ] at hp
        obtain ⟨hnotMem, hnodup⟩ := List.nodup_cons.1 hwaiting.nodup
        have hnew := hwaiting.notActive req (.head _)
        have halloc := allocOk hok
        have hwaiting' : Waiting queue (s.entered st req handle c').active := by
          refine ⟨hnodup, fun r hr => ?_⟩
          have hne : r.seqId ≠ req.seqId := fun heq => hnotMem (List.mem_map.2 ⟨r, hr, heq⟩)
          exact (AList.lookup_insert_ne hne).trans (hwaiting.notActive r (.tail _ hr))
        have hhanded' : Handed (s.entered st req handle c').active
            (s.entered st req handle c').cache := by
          intro id seq hseq
          change seq.handle < c'.nextId
          rw [halloc.nextId]
          rcases lookup_insert_eq_some.1 hseq with ⟨-, rfl⟩ | ⟨-, hold⟩
          · exact Nat.lt_succ_of_le halloc.handle.le
          · exact Nat.lt_succ_of_lt (hhanded hold)
        obtain ⟨hfree, hcapacity, howed⟩ := ih hwaiting' hhanded' hp
        have hentered := s.owedBlocks_entered hok hhanded hnew
        have hfree' : (s.entered st req handle c').cache.numFreeBlocks + 1 =
          st.cache.numFreeBlocks := halloc.free
        refine ⟨by omega, hcapacity.trans (tableLen_of_alloc hok).2, ?_⟩
        rw [howed]
        change owedBlocks _ c' + _ = _
        rw [hentered, promised, promised, List.take_succ_cons, List.map_cons, List.sum_cons,
          Nat.add_assoc]

/-! ## A call -/

section

variable (s : BatchScheduler) (order : IterOrder) (closed : ℕ → Bool) (c : PagedKvCacheManager R)

/-- The requests a call admits, each with the state it finds. -/
def admitted : List (PendingRequest × Building R) :=
  s.admissions (s.availableBlocks c) s.prefillQueue
    (s.underway order closed c)

/-- The prompts of a decision are those already begun, and then those of
the requests the call admits. -/
theorem prefills_schedule :
    (s.schedule order closed c).1.prefills.map (·.seqId) =
      (s.underway order closed c).decision.prefills.map (·.seqId) ++
        (s.admitted order closed c).map (·.1.seqId) := by
  rw [schedule_decision]
  exact prefills_addRequests ..

/-- The first requests of the queue are let in by a call: there is a block
for each, each needs no more blocks than there are, and the batch has room
for a part of each behind the decodes and the prompts that are begun. -/
structure LetIn (front : List PendingRequest) : Prop where
  blocks : front.length ≤ c.numFreeBlocks
  needed : ∀ req ∈ front, blocksNeeded req ≤ s.availableBlocks c
  room : ∀ k < front.length,
    s.openDecodes order closed + (s.begunIds order).length + k < s.maxBatchSize ∧
    s.openDecodes order closed + (promptLeft s.active (s.begunIds order) +
      promptTokens (front.take k)) < s.maxBatchTokens ∧
    promptLeft s.active (s.begunIds order) + promptTokens (front.take k) < s.maxPrefillTokens

/-- The prompts a call admits need no more blocks than requests may take. -/
def FitsFree : Prop :=
  neededBlocks ((s.admitted order closed c).map (·.1)) ≤ s.availableBlocks c

/-- The prompts that are let in need no more blocks than requests may
take. -/
def Covered : Prop :=
  ∀ front, front <+: s.prefillQueue → s.LetIn order closed c front →
    neededBlocks front ≤ s.availableBlocks c

/-- At each admission of a call, the blocks still owed are free and not
reserved. -/
def Backed : Prop :=
  ∀ p ∈ s.admitted order closed c, owedBlocks p.2.active p.2.cache ≤ s.availableBlocks p.2.cache

/-- Whenever a request is let in behind others, what is owed before the
call and what these others are promised is free and not reserved. -/
def Solvent : Prop :=
  ∀ front req, front ++ [req] <+: s.prefillQueue → s.LetIn order closed c (front ++ [req]) →
    owedBlocks s.active c + promised front ≤
      c.numFreeBlocks - front.length - s.reservedBlocks c.pool.capacity

instance : Decidable (s.FitsFree order closed c) :=
  inferInstanceAs (Decidable (_ ≤ _))

instance : Decidable (s.Backed order closed c) :=
  inferInstanceAs (Decidable (∀ p ∈ _, _ ≤ _))

/-- The sequences are kept under their own ids. -/
def Keyed : Prop :=
  ∀ {id seq}, s.active.lookup id = some seq → seq.seqId = id

end

section Call

variable (hkeyed : s.Keyed) (order : IterOrder) (closed : ℕ → Bool) (c : PagedKvCacheManager R)
include hkeyed

/-- The room after the decodes. -/
theorem roomFor_decoded (k n : ℕ) : s.RoomFor (s.decoded order closed c) k n ↔
    s.openDecodes order closed + k < s.maxBatchSize ∧
      s.openDecodes order closed + n < s.maxBatchTokens ∧ n < s.maxPrefillTokens := by
  obtain ⟨hprefills, hlength, htotal⟩ := length_decoded order hkeyed closed c
  have hzero : (s.decoded order closed c).prefillTokens = 0 := rfl
  unfold RoomFor
  rw [hprefills, htotal, hlength, hzero, List.length_nil]
  omega

theorem letsIn_iff_letIn (front : List PendingRequest) :
    s.LetsIn (s.availableBlocks c) (s.underway order closed c) front ↔
      s.LetIn order closed c front := by
  have hcache : (s.underway order closed c).cache = c :=
    addChunks_invariant (P := fun st => st.cache = c) (fun _ _ hst => hst) rfl
  have hids : ∀ g ∈ s.begunIds order, ((s.decoded order closed c).active.lookup g).isSome := by
    intro g hg
    obtain ⟨seq, hseq, -⟩ := (mem_idsOf hkeyed order _).1 hg
    exact Option.isSome_of_eq_some hseq
  have hroom : ∀ k n, s.RoomFor (s.underway order closed c) k n ↔
      s.openDecodes order closed + (s.begunIds order).length + k < s.maxBatchSize ∧
      s.openDecodes order closed + (promptLeft s.active (s.begunIds order) + n) <
        s.maxBatchTokens ∧
      promptLeft s.active (s.begunIds order) + n < s.maxPrefillTokens := by
    intro k n
    have hactive : (s.decoded order closed c).active = s.active := rfl
    have hnodup : (s.begunIds order).Nodup := nodup_idsOf hkeyed order _
    rw [underway, roomFor_addChunks hnodup hids, roomFor_decoded hkeyed, hactive]
    omega
  constructor
  · intro h
    exact ⟨hcache ▸ h.blocks, h.needed, fun k hk => (hroom _ _).1 (h.room k hk)⟩
  · intro h
    exact ⟨hcache.symm ▸ h.blocks, h.needed, fun k hk => (hroom _ _).2 (h.room k hk)⟩

/-- **A call admits the first requests of the queue, as many as are let
in.** -/
theorem admitted_front :
    (s.admitted order closed c).map (·.1) <+: s.prefillQueue ∧
    ∀ front, front <+: s.prefillQueue →
      (front <+: (s.admitted order closed c).map (·.1) ↔ s.LetIn order closed c front) := by
  obtain ⟨hfirst, hiff⟩ := s.admissions_front (s.availableBlocks c) s.prefillQueue
    (s.underway order closed c)
  refine ⟨hfirst, fun front hfront => ?_⟩
  rw [← letsIn_iff_letIn hkeyed]
  exact hiff front hfront

omit hkeyed in
theorem neededBlocks_le_of_front {front' : List PendingRequest} (h : front <+: front') :
    neededBlocks front ≤ neededBlocks front' := by
  obtain ⟨rest, rfl⟩ := h
  rw [neededBlocks, neededBlocks, List.map_append, List.sum_append]
  exact Nat.le_add_right _ _

theorem fitsFree_iff : s.FitsFree order closed c ↔ s.Covered order closed c := by
  obtain ⟨hfirst, hiff⟩ := admitted_front hkeyed order closed c
  constructor
  · intro hfits front hfront hlet
    exact (neededBlocks_le_of_front ((hiff front hfront).2 hlet)).trans hfits
  · intro hcovered
    exact hcovered _ hfirst ((hiff _ hfirst).1 List.prefix_rfl)

/-- **Requests get in in the order of the queue.** The prompts of a decision
are those already begun, and then those of the first requests of the queue,
as many as are let in. -/
theorem prefills_in_order :
    ∃ front, front <+: s.prefillQueue ∧
      (s.schedule order closed c).1.prefills.map (·.seqId) =
        (s.underway order closed c).decision.prefills.map (·.seqId) ++ front.map (·.seqId) ∧
      ∀ more, more <+: s.prefillQueue → (more <+: front ↔ s.LetIn order closed c more) := by
  obtain ⟨hfirst, hiff⟩ := admitted_front hkeyed order closed c
  refine ⟨_, hfirst, ?_, hiff⟩
  rw [prefills_schedule, List.map_map]
  rfl

end Call

/-- Two requests, and nothing begun. -/
def pairQueued : BatchScheduler :=
  { BatchScheduler.new 8 8 8 fun _ => 0 with
    prefillQueue := [.greedy 7 [5] 4, .greedy 9 [6] 4] }

theorem prefills_in_order_pair :
    ∃ front, front <+: pairQueued.prefillQueue ∧
      (pairQueued.schedule .stored (fun _ => false) twoBlocks).1.prefills.map (·.seqId) =
        (pairQueued.underway .stored (fun _ => false) twoBlocks).decision.prefills.map (·.seqId) ++
          front.map (·.seqId) ∧
      ∀ more, more <+: pairQueued.prefillQueue →
        (more <+: front ↔ pairQueued.LetIn .stored (fun _ => false) twoBlocks more) :=
  prefills_in_order (s := pairQueued) (fun hseq => by cases hseq) .stored (fun _ => false) twoBlocks

/-- The loop over begun prompts changes nothing of what is owed. -/
theorem owed_underway (order : IterOrder) (closed : ℕ → Bool) (hhanded : Handed s.active c) :
    (s.underway order closed c).cache = c ∧ Handed (s.underway order closed c).active c ∧
      (∀ id, s.active.lookup id = none → (s.underway order closed c).active.lookup id = none) ∧
      owedBlocks (s.underway order closed c).active c = owedBlocks s.active c := by
  refine addChunks_invariant (P := fun st' => st'.cache = c ∧ Handed st'.active c ∧
      (∀ id, s.active.lookup id = none → st'.active.lookup id = none) ∧
      owedBlocks st'.active c = owedBlocks s.active c) ?_
    ⟨rfl, hhanded, fun _ hnone => hnone, rfl⟩
  rintro st' g seq hseq - ⟨hcache, hhanded', hnone, howed⟩
  unfold chunked
  generalize s.fitting st' seq.remainingPrefill.length = n
  refine ⟨hcache, fun {id seq'} hseq' => ?_, fun id hid => ?_, ?_⟩
  · rcases lookup_insert_eq_some.1 hseq' with ⟨-, rfl⟩ | ⟨-, hold⟩
    · exact (hhanded' hseq : seq.handle < c.nextId)
    · exact hhanded' hold
  · have hne : id ≠ g := by
      rintro rfl
      cases (hnone _ hid).symm.trans hseq
    exact (AList.lookup_insert_ne hne).trans (hnone id hid)
  · refine (total_insert_of_eq hseq ?_).trans howed
    -- what is run moves from the rest of the prompt to behind the position
    have hlength : (afterChunk seq n).currentPos + (afterChunk seq n).remainingPrefill.length =
        seq.currentPos + seq.remainingPrefill.length := by
      simp only [afterChunk, List.length_take, List.length_drop]
      omega
    rw [ActiveSequence.owed, ActiveSequence.owed, hlength]
    rfl

theorem backed_iff (hhoused : Housed s.active c) (hc : c.Accounted)
    (hwaiting : Waiting s.prefillQueue s.active) (order : IterOrder) (closed : ℕ → Bool) :
    s.Backed order closed c ↔ s.Solvent order closed c := by
  obtain ⟨hfirst, hiff⟩ := admitted_front hhoused.seqId order closed c
  obtain ⟨hcache, hhanded, hnone, howed⟩ := owed_underway order closed (handed_of_housed hhoused hc)
  have hchunked : ∀ {k p}, (s.admitted order closed c)[k]? = some p →
      (owedBlocks p.2.active p.2.cache ≤ s.availableBlocks p.2.cache ↔
        owedBlocks s.active c + promised (s.prefillQueue.take k) ≤
          c.numFreeBlocks - k - s.reservedBlocks c.pool.capacity) := by
    intro k p hp
    obtain ⟨hfree, hcapacity, howes⟩ := owed_admissions
      ⟨hwaiting.nodup, fun req hreq => hnone _ (hwaiting.notActive req hreq)⟩
      (by rwa [hcache]) hp
    rw [hcache] at hfree hcapacity howes
    rw [howes, howed, availableBlocks, hcapacity, ← hfree, Nat.add_sub_cancel]
  have hat : ∀ {k p}, (s.admitted order closed c)[k]? = some p →
      s.prefillQueue.take k ++ [p.1] <+: (s.admitted order closed c).map (·.1) := by
    intro k p hp
    have hk : ((s.admitted order closed c).map (·.1))[k]? = some p.1 := by
      rw [List.getElem?_map, hp]
      rfl
    have hlt := (List.getElem?_eq_some_iff.1 hk).1
    have htake : s.prefillQueue.take k = ((s.admitted order closed c).map (·.1)).take k := by
      obtain ⟨rest, hrest⟩ := hfirst
      rw [← hrest, List.take_append_of_le_length hlt.le]
    have hnext := List.take_prefix (k + 1) ((s.admitted order closed c).map (·.1))
    rwa [List.take_add_one, hk, Option.toList_some, ← htake] at hnext
  constructor
  · intro hbacked front req hfront hlet
    have hin := (hiff _ hfront).2 hlet
    have hk : ((s.admitted order closed c).map (·.1))[front.length]? = some req := by
      obtain ⟨rest, hrest⟩ := hin
      rw [← hrest]
      simp
    rw [List.getElem?_map, Option.map_eq_some_iff] at hk
    obtain ⟨p, hp, -⟩ := hk
    have htake : s.prefillQueue.take front.length = front := by
      obtain ⟨rest, hrest⟩ := hfront
      rw [← hrest, List.append_assoc, List.take_left]
    have hle := (hchunked hp).1 (hbacked p (List.mem_of_getElem? hp))
    rwa [htake] at hle
  · intro hsolvent p hp
    obtain ⟨k, hk⟩ := List.mem_iff_getElem?.1 hp
    have hin := hat hk
    have hfront := hin.trans hfirst
    have hle := hsolvent _ _ hfront ((hiff _ hfront).1 hin)
    have hlength : (s.prefillQueue.take k).length = k := by
      have hle := hfirst.length_le
      have hlt := (List.getElem?_eq_some_iff.1 hk).1
      rw [List.length_map] at hle
      rw [List.length_take]
      omega
    rw [hlength] at hle
    exact (hchunked hk).2 hle

end BatchScheduler

/-! ## Runs -/

/-- At each admission of a turn, the blocks still owed are free and not
reserved. -/
def Trace.Backed (tr : Trace R F) (t : Turn F) : Prop :=
  tr.state.poisoned = false → (tr.state.enqueued t).Backed t.order t.closed tr.state.cache

/-- A turn begins with enough blocks for what is owed and what the
requests it lets in are promised. -/
def Trace.Solvent (tr : Trace R F) (t : Turn F) : Prop :=
  tr.state.poisoned = false → (tr.state.enqueued t).Solvent t.order t.closed tr.state.cache

instance (tr : Trace R F) (t : Turn F) : Decidable (tr.Backed t) :=
  inferInstanceAs (Decidable (_ → _))

/-- **A call admits no more than is free exactly when those let in
together need no more, and the admissions of a run leave what is owed
exactly when every turn begins with enough for it.** -/
theorem admissions_backed_iff {s : BatchScheduler} (hkeyed : s.Keyed) (order : IterOrder)
    (closed : ℕ → Bool) (c : PagedKvCacheManager R) (e : Engine R W F)
    {fresh : ℕ → ℕ → Except FractureError (List R × List R)}
    {numBlocks numLayers numKvHeads headDim : ℕ} {cache : PagedKvCacheManager R}
    (hnew : PagedKvCacheManager.new fresh numBlocks numLayers numKvHeads headDim = .ok cache)
    (maxBatchSize maxBatchTokens maxPrefillTokens : ℕ) (reservedBlocks : ℕ → ℕ)
    (turns : List (Turn F)) (hids : ((turns.flatMap (·.submitted)).map (·.seqId)).Nodup) :
    (s.FitsFree order closed c ↔ s.Covered order closed c) ∧
    (Throughout (Trace.next e) Trace.Backed (Trace.start (.new maxBatchSize maxBatchTokens
        maxPrefillTokens reservedBlocks) cache) turns ↔
      Throughout (Trace.next e) Trace.Solvent (Trace.start (.new maxBatchSize maxBatchTokens
        maxPrefillTokens reservedBlocks) cache) turns) := by
  refine ⟨BatchScheduler.fitsFree_iff hkeyed order closed c, ?_⟩
  have hfresh := Trace.throughout_fresh e (Trace.start (.new maxBatchSize maxBatchTokens
    maxPrefillTokens reservedBlocks) cache) hids
  refine hfresh.iff Trace.Sane (Trace.sane_start hnew ..) (fun h h' => h.step e h') ?_
  intro tr t hsane hfresh
  refine imp_congr_right fun _ => ?_
  exact BatchScheduler.backed_iff (s := tr.state.enqueued t) hsane.state.toHoused
    hsane.state.accounted (waiting_enqueued hsane.state (hsane.fresh hfresh)) t.order t.closed

/-- Three prompts of three blocks each. -/
def threePrompts : List PendingRequest :=
  [.greedy 1 (List.replicate 33 5) 4, .greedy 2 (List.replicate 33 5) 4,
    .greedy 3 (List.replicate 33 5) 4]

/-- A cache of three blocks. -/
def threeBlocks : PagedKvCacheManager ℕ :=
  { twoBlocks with pool := { twoBlocks.pool with freeList := [0, 1, 2], capacity := 3 } }

/-- Three free blocks let in three prompts that need nine, and the third
comes in when four blocks are owed and one is free. -/
theorem three_prompts_admitted :
    (¬ { BatchScheduler.new 8 256 256 (fun _ => 0) with prefillQueue := threePrompts }.FitsFree
        .stored (fun _ => false) threeBlocks) ∧
    ¬ Throughout (Trace.next (referenceEngine 2)) Trace.Backed
        (Trace.start (.new 8 256 256 fun _ => 0) threeBlocks) [.quiet threePrompts 9] := by
  decide +kernel

/-- A prompt in pieces of sixteen tokens, and a second one that comes when
the first is begun. -/
def oneAfterAnother : List (Turn ℕ) :=
  [.quiet (threePrompts.take 1) 9, .quiet ((threePrompts.drop 1).take 1) 9]

theorem admissions_backed_pair :
    let begun := (Trace.serve (referenceEngine 2) (.new 8 256 16 fun _ => 0) threeBlocks
      (oneAfterAnother.take 1)).state
    let queued := { begun.scheduler with prefillQueue := (threePrompts.drop 1).take 1 }
    queued.active.keys = [1] ∧
    (queued.FitsFree .stored (fun _ => false) begun.cache ↔
      queued.Covered .stored (fun _ => false) begun.cache) ∧
    (Throughout (Trace.next (referenceEngine 2)) Trace.Backed
        (Trace.start (.new 8 256 16 fun _ => 0) threeBlocks) oneAfterAnother ↔
      Throughout (Trace.next (referenceEngine 2)) Trace.Solvent
        (Trace.start (.new 8 256 16 fun _ => 0) threeBlocks) oneAfterAnother) := by
  intro begun queued
  have hnew : PagedKvCacheManager.new
      (fun _ _ => .ok (List.replicate blockSize 0, List.replicate blockSize 0)) 3 2 1 1 =
      .ok threeBlocks := rfl
  have hids : ((oneAfterAnother.flatMap (·.submitted)).map (·.seqId)).Nodup := by decide
  have hfresh : Throughout _ Trace.Fresh _ oneAfterAnother := Trace.throughout_fresh
    (referenceEngine 2) (Trace.start (.new 8 256 16 fun _ => 0) threeBlocks) hids
  have hsane := (Trace.sane_start hnew 8 256 16 fun _ => 0).step (referenceEngine 2) hfresh.1
  have hkeyed : queued.Keyed := hsane.state.seqId
  exact ⟨by decide +kernel, admissions_backed_iff hkeyed .stored _ begun.cache
    (referenceEngine 2) hnew 8 256 16 _ oneAfterAnother hids⟩

end Fracture
