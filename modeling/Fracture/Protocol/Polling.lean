import Fracture.Common.Runs
import Fracture.Protocol.Connection

/-!
# Polls

The coordinator polls a worker's reader for 100 ms at a time. A poll is a
receive that is dropped when its time is up, wherever it is in its reads:
the bytes it has taken by then are gone, and the next receive starts with
the byte after them.

So the frames that are received are those that were sent exactly as long
as no poll is dropped with a part of a frame in its hands
(`received_iff_unhurried`).
-/

namespace Fracture

open Reading Runs

/-- A receive that waits for bytes. -/
structure Pending where
  /-- Whether it is a poll, whose time can be up. -/
  poll : Bool
  /-- The bytes it has taken. -/
  taken : List UInt8
  /-- The reads it has still to make. -/
  rest : Program UInt8 Received

/-- A worker's reader at the coordinator. -/
structure PolledReader where
  /-- What has arrived and was not taken by a receive. -/
  available : List UInt8
  /-- The receive that holds the reader. -/
  pending : Option Pending
  /-- What receives returned so far. -/
  results : List Received

inductive ReaderEvent
  /-- Bytes arrive from the worker. -/
  | arrive (bytes : List UInt8)
  /-- A poll or another receive takes the reader's lock, if it is free. -/
  | start (poll : Bool)
  /-- A poll's time is up. -/
  | timeout
deriving DecidableEq

def ReaderEvent.bytes : ReaderEvent → List UInt8
  | .arrive bytes => bytes
  | _ => []

/-- The bytes that arrive, in order. -/
def arrivals (events : List ReaderEvent) : List UInt8 := (events.map ReaderEvent.bytes).flatten

namespace PolledReader

def new : PolledReader := { available := [], pending := none, results := [] }

/-- The bytes that the receive under way has taken. -/
def taken (r : PolledReader) : List UInt8 := (r.pending.map Pending.taken).getD []

/-- The bytes that are lost if a poll's time is up now. -/
def atStake (r : PolledReader) : List UInt8 :=
  ((r.pending.filter Pending.poll).map Pending.taken).getD []

/-- A receive goes on with the bytes there are. -/
def advance (r : PolledReader) (p : Pending) : PolledReader :=
  match p.rest.feed r.available with
  | (.done result, left) =>
    { available := left, pending := none, results := r.results ++ [result] }
  | (rest, left) =>
    { r with
      available := left
      pending := some { p with taken := p.taken ++ r.available, rest } }

variable (crc32c : List UInt8 → UInt32)

def step (r : PolledReader) : ReaderEvent → PolledReader
  | .arrive bytes =>
    let r' := { r with available := r.available ++ bytes }
    match r.pending with
    | none => r'
    | some p => r'.advance p
  | .start poll =>
    match r.pending with
    | none => r.advance { poll, taken := [], rest := recvFrame crc32c }
    | some _ => r
  | .timeout => { r with pending := r.pending.filter fun p => !p.poll }

/-- No poll's time is up while it has a part of a frame. -/
def Unhurried (r : PolledReader) (e : ReaderEvent) : Prop := e = .timeout → r.atStake = []

instance (r : PolledReader) (e : ReaderEvent) : Decidable (r.Unhurried e) :=
  inferInstanceAs (Decidable (_ → _))

/-- A receive under way has made the reads that its bytes were enough for,
and has taken all there was. -/
def Sound (r : PolledReader) : Prop :=
  ∀ p, r.pending = some p → r.available = [] ∧ (recvFrame crc32c).feed p.taken = (p.rest, []) ∧
    p.rest.isDone = false

/-- Some of the frames were received, and the bytes of the others are those
taken, those at hand and those to come. -/
def Follows (frames : List Frame) (taken : List UInt8) (results : List Received)
    (ahead : List UInt8) : Prop :=
  ∃ received todo, frames = received ++ todo ∧
    results = received.map (fun f => .ok f.contents) ∧
    encodeFrames crc32c todo = taken ++ ahead

/-- How many bytes a receive's frame had. -/
def frameLength : Received → ℕ
  | .ok out => (encodeFrame crc32c out.1 out.2).length
  | .error _ => 0

/-- The bytes that are in received frames, taken or at hand. -/
def kept (r : PolledReader) : ℕ :=
  (r.results.map (frameLength crc32c)).sum + r.taken.length + r.available.length

variable {crc32c} {r : PolledReader} {p : Pending} {e : ReaderEvent}

theorem advance_of_done {result : Received} {left : List UInt8}
    (h : p.rest.feed r.available = (.done result, left)) :
    r.advance p = { available := left, pending := none, results := r.results ++ [result] } := by
  rw [advance, h]

theorem advance_of_waiting (h : (p.rest.feed r.available).1.isDone = false) :
    r.advance p = { r with
      available := []
      pending := some { p with
        taken := p.taken ++ r.available
        rest := (p.rest.feed r.available).1 } } := by
  have hleft := Program.feed_snd_of_not_done h
  unfold advance
  generalize p.rest.feed r.available = fed at h hleft
  obtain ⟨rest, left⟩ := fed
  cases rest with
  | done result => cases h
  | take n next =>
    dsimp only at hleft ⊢
    rw [hleft]

/-- A receive that goes on is the receive on all it will have taken. -/
theorem feed_taken_append (hp : (recvFrame crc32c).feed p.taken = (p.rest, []))
    (bytes : List UInt8) :
    (recvFrame crc32c).feed (p.taken ++ bytes) = p.rest.feed bytes := by
  rw [Program.feed_append, hp, List.nil_append]

/-- A receive that starts has made no read. -/
theorem recvFrame_feed_nil : (recvFrame crc32c).feed [] = (recvFrame crc32c, []) :=
  Program.feed_take_nil _ (by decide)

/-- A receive goes on as far as the bytes reach: it returns something, or it
has all of them and waits. -/
theorem sound_advance (hp : (recvFrame crc32c).feed p.taken = (p.rest, [])) :
    (r.advance p).Sound crc32c := by
  cases hdone : (p.rest.feed r.available).1.isDone with
  | true =>
    obtain ⟨result, left, hfeed⟩ := Program.exists_of_isDone hdone
    rw [advance_of_done hfeed]
    intro p' hp'
    cases hp'
  | false =>
    rw [advance_of_waiting hdone]
    intro p' hp'
    cases hp'
    refine ⟨rfl, ?_, hdone⟩
    rw [feed_taken_append hp, ← Program.feed_snd_of_not_done hdone]

/-- What a step does: a receive, new or under way, goes on with what is at
hand; or it waits for more, or nobody reads; or a poll is dropped. -/
inductive Goes (crc32c : List UInt8 → UInt32) (r : PolledReader) :
    ReaderEvent → PolledReader → Prop
  | on {e : ReaderEvent} {p : Pending} {available : List UInt8} (hcalm : e ≠ .timeout)
      (hav : available = r.available ++ e.bytes) (htaken : r.taken = p.taken)
      (hp : (recvFrame crc32c).feed p.taken = (p.rest, [])) :
      Goes crc32c r e (({ r with available } : PolledReader).advance p)
  | waits {e : ReaderEvent} {available : List UInt8} (hcalm : e ≠ .timeout)
      (hav : available = r.available ++ e.bytes) (hmore : r.pending = none ∨ e.bytes = []) :
      Goes crc32c r e { r with available }
  | dropped : Goes crc32c r .timeout { r with pending := r.pending.filter fun p => !p.poll }

theorem goes (h : r.Sound crc32c) (e : ReaderEvent) : r.Goes crc32c e (r.step crc32c e) := by
  cases e with
  | arrive bytes =>
    rw [step]
    split
    · next hpending => exact .waits nofun rfl (.inl hpending)
    · next p hpending => exact .on nofun rfl (by rw [taken, hpending]; rfl) (h p hpending).2.1
  | start poll =>
    rw [step]
    split
    · next hpending =>
      exact .on nofun (List.append_nil _).symm (by rw [taken, hpending]; rfl) recvFrame_feed_nil
    · exact .waits nofun (List.append_nil _).symm (.inr rfl)
  | timeout => exact .dropped

theorem sound_step (h : r.Sound crc32c) (e : ReaderEvent) : (r.step crc32c e).Sound crc32c := by
  have hgoes := goes h e
  generalize r.step crc32c e = r' at hgoes ⊢
  cases hgoes with
  | on _ _ _ hp => exact sound_advance hp
  | waits _ hav hmore =>
    intro p hp
    obtain ⟨hnone, hrest⟩ := h p hp
    rcases hmore with hidle | hmore
    · rw [hidle] at hp
      cases hp
    · refine ⟨?_, hrest⟩
      rw [hav, hnone, hmore, List.append_nil]
  | dropped =>
    intro p hp
    exact h p (Option.mem_filter_iff.1 hp).1

/-- A receive under way is not yet done with what it has taken. -/
theorem Sound.waiting (h : r.Sound crc32c) :
    ((recvFrame crc32c).feed r.taken).1.isDone = false := by
  unfold taken
  cases hpending : r.pending with
  | none => exact recvFrame_short (by decide)
  | some p =>
    obtain ⟨-, hfeed, hdone⟩ := h p hpending
    rw [Option.map_some, Option.getD_some, hfeed]
    exact hdone

/-! ## Without a loss the stream keeps its place -/

variable {frames : List Frame} {future : List UInt8}

/-- A receive that returns returns the next frame. -/
theorem follows_advance (hp : (recvFrame crc32c).feed p.taken = (p.rest, []))
    (h : Follows crc32c frames p.taken r.results (r.available ++ future)) :
    Follows crc32c frames (r.advance p).taken (r.advance p).results
      ((r.advance p).available ++ future) := by
  obtain ⟨received, todo, hframes, hresults, hbytes⟩ := h
  cases hdone : (p.rest.feed r.available).1.isDone with
  | false =>
    rw [advance_of_waiting hdone]
    refine ⟨received, todo, hframes, hresults, ?_⟩
    rw [hbytes, List.nil_append, ← List.append_assoc]
    rfl
  | true =>
    obtain ⟨result, left, hfeed⟩ := Program.exists_of_isDone hdone
    have hall : (recvFrame crc32c).feed (encodeFrames crc32c todo) =
        (.done result, left ++ future) := by
      rw [hbytes, feed_taken_append hp, Program.feed_append, hfeed, Program.feed_done]
    rw [advance_of_done hfeed]
    cases todo with
    | nil =>
      -- with no frame to come there is nothing to receive
      have hnil : encodeFrames crc32c [] = [] := rfl
      rw [hnil, recvFrame_feed_nil] at hall
      cases hall
    | cons f todo =>
      have hfront : encodeFrames crc32c (f :: todo) =
          f.encode crc32c ++ encodeFrames crc32c todo := rfl
      rw [hfront, feed_recvFrame_encode] at hall
      obtain ⟨hresult, hleft⟩ := Prod.mk.inj hall
      refine ⟨received ++ [f], todo, ?_, ?_, hleft⟩
      · rw [hframes, List.append_assoc, List.singleton_append]
      · rw [hresults, List.map_append, ← Program.done.inj hresult]
        rfl

theorem follows_step (hsound : r.Sound crc32c) (hcalm : r.Unhurried e)
    (h : Follows crc32c frames r.taken r.results (r.available ++ (e.bytes ++ future))) :
    Follows crc32c frames (r.step crc32c e).taken (r.step crc32c e).results
      ((r.step crc32c e).available ++ future) := by
  have hgoes := goes hsound e
  generalize r.step crc32c e = r' at hgoes ⊢
  cases hgoes with
  | on _ hav htaken hp =>
    rw [← List.append_assoc, ← hav, htaken] at h
    exact follows_advance hp h
  | waits _ hav =>
    rw [← List.append_assoc, ← hav] at h
    exact h
  | dropped =>
    -- what is dropped had taken nothing
    have hsame : ({ r with pending := r.pending.filter fun p => !p.poll } : PolledReader).taken =
        r.taken := by
      have hstake := hcalm rfl
      cases hpending : r.pending with
      | none => simp [taken, hpending]
      | some p =>
        cases hpoll : p.poll with
        | false => simp [taken, hpending, hpoll, Option.filter_some]
        | true =>
          simp only [atStake, hpending, Option.filter_some, hpoll, if_true, Option.map_some,
            Option.getD_some] at hstake
          simp [taken, hpending, hpoll, hstake, Option.filter_some]
    rw [hsame]
    exact h

variable {events : List ReaderEvent}

/-- **A run without a loss.** Everything received so far is a front of what
was sent, and the rest of it is still to be had. -/
theorem follows_run (hsound : r.Sound crc32c) (hcalm : Throughout (step crc32c) Unhurried r events)
    (h : Follows crc32c frames r.taken r.results (r.available ++ arrivals events)) :
    let r' := run (step crc32c) r events
    r'.Sound crc32c ∧ Follows crc32c frames r'.taken r'.results r'.available := by
  induction events generalizing r with
  | nil =>
    refine ⟨hsound, ?_⟩
    have hnone : arrivals [] = [] := rfl
    rw [hnone, List.append_nil] at h
    exact h
  | cons e events ih =>
    have harrivals : arrivals (e :: events) = e.bytes ++ arrivals events := rfl
    rw [harrivals] at h
    exact ih (sound_step hsound e) hcalm.2 (follows_step hsound hcalm.1 h)

/-! ## Counting bytes -/

theorem frameLength_le {bytes left : List UInt8} {result : Received}
    (h : (recvFrame crc32c).feed bytes = (.done result, left)) :
    frameLength crc32c result + left.length ≤ bytes.length := by
  obtain ⟨taken, hsplit, -⟩ := (recvFrame crc32c).exists_taken bytes
  rw [h] at hsplit
  obtain ⟨hwaits, hreturns⟩ := feed_recvFrame crc32c bytes
  have hwhole : ¬ Truncated bytes := by
    intro htrunc
    have hnot := (hwaits htrunc).1
    rw [h] at hnot
    cases hnot
  obtain ⟨rest, hfeed, hframe⟩ := hreturns hwhole
  rw [h] at hfeed
  cases hfeed
  cases hout : decodeFrameFromBytes crc32c bytes with
  | ok out =>
    obtain ⟨f, rfl, hbytes⟩ := hframe out hout
    rw [hbytes, List.length_append]
    exact Nat.le_refl _
  | error e =>
    rw [hsplit, List.length_append]
    simp only [frameLength]
    omega

/-- A receive that goes on gains no bytes. -/
theorem kept_advance_le (hp : (recvFrame crc32c).feed p.taken = (p.rest, [])) :
    (r.advance p).kept crc32c ≤
      (r.results.map (frameLength crc32c)).sum + p.taken.length + r.available.length := by
  cases hdone : (p.rest.feed r.available).1.isDone with
  | false =>
    rw [advance_of_waiting hdone]
    simp only [kept, taken, Option.map_some, Option.getD_some, List.length_append, List.length_nil]
    omega
  | true =>
    obtain ⟨result, left, hfeed⟩ := Program.exists_of_isDone hdone
    have hcount := frameLength_le ((feed_taken_append hp r.available).trans hfeed)
    rw [advance_of_done hfeed]
    simp only [kept, taken, Option.map_none, Option.getD_none, List.map_append, List.map_cons,
      List.map_nil, List.sum_append, List.sum_cons, List.sum_nil, List.length_append,
      List.length_nil] at hcount ⊢
    omega

/-- A step keeps at most what there was and what arrives, and a poll that is
dropped loses what it had. -/
theorem kept_step_le (hsound : r.Sound crc32c) (e : ReaderEvent) :
    (r.step crc32c e).kept crc32c + (if e = .timeout then r.atStake.length else 0) ≤
      r.kept crc32c + e.bytes.length := by
  have hgoes := goes hsound e
  generalize r.step crc32c e = r' at hgoes ⊢
  cases hgoes with
  | @on _ _ available hcalm hav htaken hp =>
    have hle := kept_advance_le (r := { r with available }) hp
    subst hav
    rw [← htaken, List.length_append, ← Nat.add_assoc] at hle
    rw [if_neg hcalm]
    exact hle
  | waits hcalm hav =>
    rw [if_neg hcalm]
    simp only [kept, taken, hav, List.length_append]
    omega
  | dropped =>
    rw [if_pos rfl]
    cases hpending : r.pending with
    | none => simp [kept, taken, atStake, hpending]
    | some p =>
      cases hpoll : p.poll with
      | false => simp [kept, taken, atStake, hpending, hpoll, Option.filter_some]
      | true =>
        simp [kept, taken, atStake, hpending, hpoll, Option.filter_some,
          ReaderEvent.bytes]
        omega

/-- **A run gains no bytes, and a loss is never made up for.** -/
theorem kept_run (hsound : r.Sound crc32c) :
    (run (step crc32c) r events).kept crc32c ≤ r.kept crc32c + (arrivals events).length ∧
      (¬ Throughout (step crc32c) Unhurried r events →
        (run (step crc32c) r events).kept crc32c < r.kept crc32c + (arrivals events).length) := by
  induction events generalizing r with
  | nil => exact ⟨Nat.le_refl _, fun h => absurd trivial h⟩
  | cons e events ih =>
    have hstep := kept_step_le hsound e
    obtain ⟨hrest, hlost⟩ := ih (sound_step hsound e)
    have hrun : run (step crc32c) r (e :: events) = run (step crc32c) (r.step crc32c e) events :=
      rfl
    have harrivals : (arrivals (e :: events)).length = e.bytes.length + (arrivals events).length :=
      List.length_append
    rw [hrun, harrivals]
    refine ⟨by omega, fun h => ?_⟩
    by_cases hnow : r.Unhurried e
    · have hlater := hlost fun hall => h ⟨hnow, hall⟩
      omega
    · -- this is where bytes are lost
      have hloss : e = .timeout ∧ r.atStake ≠ [] := Classical.not_imp.1 hnow
      have hpos : 0 < r.atStake.length := List.length_pos_of_ne_nil hloss.2
      rw [if_pos hloss.1] at hstep
      omega

theorem sum_frameLength (frames : List Frame) :
    ((frames.map fun f => (.ok f.contents : Received)).map (frameLength crc32c)).sum =
      (encodeFrames crc32c frames).length := by
  induction frames with
  | nil => rfl
  | cons f frames ih =>
    have hfront : encodeFrames crc32c (f :: frames) =
        f.encode crc32c ++ encodeFrames crc32c frames := rfl
    rw [List.map_cons, List.map_cons, List.sum_cons, ih, hfront, List.length_append]
    rfl

end PolledReader

open PolledReader

/-- **When polls do no harm.** A worker sends frames, its bytes arrive in any
pieces, and in between the coordinator polls and receives in any order until
nothing is left to be taken. What it receives is, in order, exactly what was
sent if and only if no poll's time is up while it has taken a part of a
frame. -/
theorem received_iff_unhurried (crc32c : List UInt8 → UInt32) (frames : List Frame)
    (events : List ReaderEvent) (harrive : arrivals events = encodeFrames crc32c frames)
    (hread : (run (step crc32c) new events).available = []) :
    (run (step crc32c) new events).results = frames.map (fun f => .ok f.contents) ↔
      Throughout (step crc32c) Unhurried new events := by
  have hnew : new.Sound crc32c := by
    intro p hp
    cases hp
  constructor
  · intro hall
    by_contra hloss
    have hfew := (kept_run hnew).2 hloss
    rw [harrive, kept, hall, sum_frameLength] at hfew
    have hnone : new.kept crc32c = 0 := rfl
    omega
  · intro hcalm
    have hstart : Follows crc32c frames new.taken new.results
        (new.available ++ arrivals events) := ⟨[], frames, rfl, rfl, harrive.symm⟩
    obtain ⟨hsound, received, todo, hframes, hresults, hbytes⟩ := follows_run hnew hcalm hstart
    -- a frame still to come would have been taken whole
    have hdone : todo = [] := by
      cases todo with
      | nil => rfl
      | cons f todo =>
        have hwaiting := hsound.waiting
        have hfront : (run (step crc32c) new events).taken =
            f.encode crc32c ++ encodeFrames crc32c todo := by
          rw [hread, List.append_nil] at hbytes
          exact hbytes.symm
        rw [hfront, feed_recvFrame_encode] at hwaiting
        cases hwaiting
    rw [hresults, hframes, hdone, List.append_nil]

/-- A poll is dropped after four bytes of a frame, and the receive after it
takes the header from the wrong place. -/
theorem cancelled_poll_desynchronises :
    let f : Frame := ⟨⟨.heartbeatAck, 7, 0⟩, [], rfl, by decide⟩
    let bytes := f.encode fun _ => 0
    (run (step fun _ => 0) new [.start true, .arrive (bytes.take 4), .timeout, .start false,
      .arrive (bytes.drop 4)]).results =
        [err (.protocol "invalid magic: 0x0000, expected 0x4652")] := by
  decide +kernel

/-- A poll that is dropped before a byte of the frame comes does no harm. -/
theorem received_after_idle_poll :
    let f : Frame := ⟨⟨.heartbeatAck, 7, 0⟩, [], rfl, by decide⟩
    let bytes := f.encode fun _ => 0
    (run (step fun _ => 0) new [.start true, .timeout, .start false, .arrive (bytes.take 4),
      .arrive (bytes.drop 4)]).results = [.ok f.contents] := by
  intro f bytes
  exact (received_iff_unhurried (fun _ => 0) [f] _ (by decide) (by decide)).2 (by decide)

end Fracture
