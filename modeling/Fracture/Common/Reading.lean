import Mathlib.Data.List.Basic

/-!
# Programs that read a stream

A reading program asks for exactly so many elements at a time and ends with
a result. `feed` gives it the elements there are: the program goes as far
as they reach, and what is left is either its result and the elements it
did not take, or a program that asks for the rest of what it was reading.
Since a program stopped half way is a program again, the elements may come
in any pieces (`feed_append`).

`drive` runs a program against a buffer and the reads of a source, and
`drive_eq_feed` says that it is `feed` on the stream they spell.
-/

namespace Reading

/-- A program that reads: it has its result, or it takes exactly so many
elements and goes on with them. -/
inductive Program (β ρ : Type*)
  | done (result : ρ)
  | take (count : ℕ) (next : List β → Program β ρ)

variable {β ρ : Type*}

namespace Program

/-- Whether a program has its result. -/
def isDone : Program β ρ → Bool
  | done _ => true
  | take _ _ => false

theorem exists_of_isDone {out : Program β ρ × List β} (h : out.1.isDone = true) :
    ∃ r rest, out = (done r, rest) := by
  obtain ⟨p, rest⟩ := out
  cases p with
  | done r => exact ⟨r, rest, rfl⟩
  | take n next => cases h

/-- A program after the elements there are, and those it left. -/
def feed : Program β ρ → List β → Program β ρ × List β
  | done r, xs => (done r, xs)
  | take n next, xs =>
    if n ≤ xs.length then (next (xs.take n)).feed (xs.drop n)
    else (take (n - xs.length) fun ys => next (xs ++ ys), [])

@[simp] theorem feed_done (r : ρ) (xs : List β) : (done r).feed xs = (done r, xs) := rfl

variable {n : ℕ} {xs : List β}

section

variable (next : List β → Program β ρ)

theorem feed_take_append (h : xs.length = n) (ys : List β) :
    (take n next).feed (xs ++ ys) = (next xs).feed ys := by
  subst h
  have hle : xs.length ≤ (xs ++ ys).length := by
    rw [List.length_append]
    omega
  rw [feed, if_pos hle, List.take_left, List.drop_left]

theorem feed_take_of_lt (h : xs.length < n) :
    (take n next).feed xs = (take (n - xs.length) fun ys => next (xs ++ ys), []) := by
  have hnot : ¬ n ≤ xs.length := by omega
  rw [feed, if_neg hnot]

theorem feed_take_nil (h : 0 < n) :
    (take n next).feed [] = (take n next, []) := feed_take_of_lt next h

end

/-- A program that is not done takes all there is. -/
theorem feed_snd_of_not_done {p : Program β ρ} (h : (p.feed xs).1.isDone = false) :
    (p.feed xs).2 = [] := by
  induction p generalizing xs with
  | done r => cases h
  | take n next ih =>
    rcases Nat.lt_or_ge xs.length n with hlt | hge
    · rw [feed_take_of_lt next hlt]
    · rw [feed, if_pos hge] at h ⊢
      exact ih _ h

/-- What a program is given may come in two pieces. -/
theorem feed_append (p : Program β ρ) (xs ys : List β) :
    p.feed (xs ++ ys) = (p.feed xs).1.feed ((p.feed xs).2 ++ ys) := by
  induction p generalizing xs with
  | done r => rfl
  | take n next ih =>
    rcases Nat.lt_or_ge xs.length n with hlt | hge
    · rw [feed_take_of_lt next hlt, List.nil_append]
      rcases Nat.lt_or_ge (xs ++ ys).length n with hshort | hlong
      · -- still not enough: the two pieces are asked for as one
        have hys : ys.length < n - xs.length := by
          rw [List.length_append] at hshort
          omega
        have hleft : n - (xs ++ ys).length = n - xs.length - ys.length := by
          rw [List.length_append]
          omega
        rw [feed_take_of_lt next hshort, feed_take_of_lt _ hys, hleft]
        simp only [List.append_assoc]
      · have hys : n - xs.length ≤ ys.length := by
          rw [List.length_append] at hlong
          omega
        rw [feed, if_pos hlong, feed, if_pos hys, List.take_append, List.drop_append,
          List.take_of_length_le (Nat.le_of_lt hlt), List.drop_eq_nil_of_le (Nat.le_of_lt hlt),
          List.nil_append]
    · have hlong : n ≤ (xs ++ ys).length := by
        rw [List.length_append]
        omega
      rw [feed, if_pos hlong, feed, if_pos hge, List.take_append_of_le_length hge,
        List.drop_append_of_le_length hge, ih]

/-- What a program leaves is the end of what it was given: the front of it
brings the program just as far. -/
theorem exists_taken (p : Program β ρ) (xs : List β) :
    ∃ taken, xs = taken ++ (p.feed xs).2 ∧ p.feed taken = ((p.feed xs).1, []) := by
  induction p generalizing xs with
  | done r => exact ⟨[], rfl, rfl⟩
  | take n next ih =>
    rcases Nat.lt_or_ge xs.length n with hlt | hge
    · refine ⟨xs, ?_, ?_⟩
      · rw [feed_take_of_lt next hlt, List.append_nil]
      · rw [feed_take_of_lt next hlt]
    · obtain ⟨taken, hsplit, hfeed⟩ := ih (xs.take n) (xs.drop n)
      have hlen : (xs.take n).length = n := List.length_take_of_le hge
      rw [feed, if_pos hge]
      refine ⟨xs.take n ++ taken, ?_, ?_⟩
      · rw [List.append_assoc, ← hsplit, List.take_append_drop]
      · rw [feed_take_append next hlen, hfeed]

end Program

open Program

/-- The stream that reads spell: a read of nothing is its end. -/
def stream : List (List β) → List β
  | [] => []
  | c :: reads => if c.isEmpty then [] else c ++ stream reads

/-- A program run against a buffer, which it reads first, and then against
one read after another: its result, unless the stream ended before it, with
the buffer and the reads it leaves. -/
def drive (p : Program β ρ) (buffer : List β) (reads : List (List β)) :
    Option ρ × List β × List (List β) :=
  match p.feed buffer with
  | (done r, rest) => (some r, rest, reads)
  | (take n next, _) =>
    match reads with
    | [] => (none, [], [])
    | c :: reads => if c.isEmpty then (none, [], c :: reads) else drive (take n next) c reads

variable {p : Program β ρ} {buffer : List β}

theorem drive_of_done {rest : List β} {r : ρ} (h : p.feed buffer = (done r, rest))
    (reads : List (List β)) : drive p buffer reads = (some r, rest, reads) := by
  rw [drive.eq_def, h]

theorem drive_nil (h : (p.feed buffer).1.isDone = false) : drive p buffer [] = (none, [], []) := by
  cases hfeed : p.feed buffer with
  | mk q rest =>
    cases q with
    | done r =>
      rw [hfeed] at h
      cases h
    | take n next => rw [drive.eq_def, hfeed]

/-- A buffer that is not enough is used up, and the next read is made. -/
theorem drive_cons (h : (p.feed buffer).1.isDone = false) (c : List β) (reads : List (List β)) :
    drive p buffer (c :: reads) =
      if c.isEmpty then (none, [], c :: reads) else drive (p.feed buffer).1 c reads := by
  cases hfeed : p.feed buffer with
  | mk q rest =>
    cases q with
    | done r =>
      rw [hfeed] at h
      cases h
    | take n next => rw [drive.eq_def, hfeed]

/-- **However a stream is cut into reads, a program does on it what it does
on the whole.** If the whole gives it a result it ends with that, and what
is left of the stream is what the program leaves; otherwise it meets the
end. -/
theorem drive_eq_feed (p : Program β ρ) (buffer : List β) (reads : List (List β)) :
    (∀ r rest, p.feed (buffer ++ stream reads) = (done r, rest) →
      (drive p buffer reads).1 = some r ∧
        (drive p buffer reads).2.1 ++ stream (drive p buffer reads).2.2 = rest) ∧
      ((p.feed (buffer ++ stream reads)).1.isDone = false → (drive p buffer reads).1 = none) := by
  induction reads generalizing p buffer with
  | nil =>
    rw [stream, List.append_nil]
    constructor
    · intro r rest h
      rw [drive_of_done h]
      exact ⟨rfl, List.append_nil rest⟩
    · intro h
      rw [drive_nil h]
  | cons c reads ih =>
    cases hdone : (p.feed buffer).1 with
    | done r =>
      -- the buffer was enough
      have hbuffer : p.feed buffer = (done r, (p.feed buffer).2) := by rw [← hdone]
      have hwhole : p.feed (buffer ++ stream (c :: reads)) =
          (done r, (p.feed buffer).2 ++ stream (c :: reads)) := by
        rw [feed_append, hdone, feed_done]
      rw [drive_of_done hbuffer, hwhole]
      constructor
      · rintro r' rest heq
        cases heq
        exact ⟨rfl, rfl⟩
      · intro h
        cases h
    | take n next =>
      have hnot : (p.feed buffer).1.isDone = false := by rw [hdone]; rfl
      have hleft := feed_snd_of_not_done hnot
      rw [drive_cons hnot, feed_append, hleft, List.nil_append]
      by_cases hc : c.isEmpty = true
      · rw [if_pos hc, stream, if_pos hc, hdone]
        have hnil : (take n next).feed ([] : List β) = (take n next, []) := by
          rw [← hdone]
          obtain ⟨taken, hsplit, hfeed⟩ := p.exists_taken buffer
          have hagain := feed_append p taken []
          rw [List.append_nil, hfeed, List.append_nil] at hagain
          exact hagain.symm
        rw [hnil]
        constructor
        · intro r rest heq
          cases heq
        · intro _
          rfl
      · rw [if_neg hc, stream, if_neg hc]
        exact ih _ _

end Reading
