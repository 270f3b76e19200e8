import Mathlib.Data.List.Basic

/-!
# Requests and answers on a connection

A client sends requests on a connection. The server takes them off the
wire and serves them in order, but may answer some as it takes them, past
the ones that wait. Answers come back in the order they were given.

Every request has tags that are due for it, and every answer has tags it
settles. What is owed on a connection are the tags of the answers that
are unread and those due for the requests under way. Serving leaves it
alone, so a client can tell from what it sent and read what comes next.
-/

namespace Session

variable {ρ ω τ : Type*}

/-- The two directions of a connection. -/
structure Channel (ρ ω : Type*) where
  /-- Sent and not taken by the server. -/
  wire : List ρ
  /-- Taken and waiting to be served. -/
  queue : List ρ
  /-- Answered and not read by the client. -/
  replies : List ω
deriving DecidableEq, Repr

namespace Channel

/-- A new connection. -/
def fresh : Channel ρ ω := ⟨[], [], []⟩

def send (l : Channel ρ ω) (r : ρ) : Channel ρ ω := { l with wire := l.wire ++ [r] }

/-- An answer, or a word of the server's own. -/
def reply (l : Channel ρ ω) (w : ω) : Channel ρ ω := { l with replies := l.replies ++ [w] }

/-- The connection breaks. What came back can still be read. -/
def cut (l : Channel ρ ω) : Channel ρ ω := { l with wire := [], queue := [] }

/-- The requests under way, in the order they were sent. -/
def requests (l : Channel ρ ω) : List ρ := l.queue ++ l.wire

/-- The tags still to be read, in order. -/
def owed (due : ρ → List τ) (mark : ω → List τ) (l : Channel ρ ω) : List τ :=
  l.replies.flatMap mark ++ l.requests.flatMap due

variable {due : ρ → List τ} {mark : ω → List τ} {l : Channel ρ ω} {r : ρ} {w : ω} {rest : List ρ}

@[simp] theorem requests_send : (l.send r).requests = l.requests ++ [r] :=
  (List.append_assoc ..).symm

@[simp] theorem requests_reply : (l.reply w).requests = l.requests := rfl

/-- What is sent adds what is due for it. -/
theorem owed_send : (l.send r).owed due mark = l.owed due mark ++ due r := by
  unfold owed
  rw [requests_send, List.flatMap_append, ← List.append_assoc, List.flatMap_singleton]
  rfl

/-- Taking a request off the wire changes nothing. -/
theorem requests_take (hwire : l.wire = r :: rest) :
    ({ l with wire := rest, queue := l.queue ++ [r] } : Channel ρ ω).requests = l.requests := by
  unfold requests
  rw [hwire, List.append_assoc]
  rfl

theorem owed_take (hwire : l.wire = r :: rest) :
    ({ l with wire := rest, queue := l.queue ++ [r] } : Channel ρ ω).owed due mark =
      l.owed due mark := by
  unfold owed
  rw [requests_take hwire]

/-- A request that is answered as it is taken. Nothing that waits may be
due then, unless the answer settles nothing. -/
theorem owed_aside (hwire : l.wire = r :: rest) (hmark : mark w = due r)
    (hwaits : due r = [] ∨ l.queue.flatMap due = []) :
    (({ l with wire := rest } : Channel ρ ω).reply w).owed due mark = l.owed due mark := by
  unfold owed requests reply
  rw [hwire, List.flatMap_append, List.flatMap_append, List.flatMap_append,
    List.flatMap_singleton, List.flatMap_cons, hmark]
  rcases hwaits with hnone | hempty
  · rw [hnone, List.append_nil, List.nil_append]
  · rw [hempty, List.nil_append, List.nil_append, List.append_assoc]

/-- Serving a request settles what is due for it. -/
theorem owed_serve (hqueue : l.queue = r :: rest) (hmark : mark w = due r) :
    (({ l with queue := rest } : Channel ρ ω).reply w).owed due mark = l.owed due mark := by
  unfold owed requests reply
  rw [hqueue, List.flatMap_append, List.flatMap_singleton, hmark, List.cons_append,
    List.flatMap_cons, List.append_assoc]

/-- A request for which nothing is due is served without an answer. -/
theorem owed_drop (hqueue : l.queue = r :: rest) (hdue : due r = []) :
    ({ l with queue := rest } : Channel ρ ω).owed due mark = l.owed due mark := by
  unfold owed requests
  rw [hqueue, List.cons_append, List.flatMap_cons, hdue, List.nil_append]

/-- One that settles nothing. -/
theorem owed_reply_of_nil (hmark : mark w = []) :
    (l.reply w).owed due mark = l.owed due mark := by
  unfold owed
  rw [requests_reply]
  unfold reply
  rw [List.flatMap_append, List.flatMap_singleton, hmark, List.append_nil]

/-- What is read is what is owed first. -/
theorem owed_read {more : List ω} (hreplies : l.replies = w :: more) :
    l.owed due mark = mark w ++ ({ l with replies := more } : Channel ρ ω).owed due mark := by
  unfold owed requests
  rw [hreplies, List.flatMap_cons, List.append_assoc]

/-- What is still to come of a broken connection was owed. -/
theorem owed_cut : l.cut.owed due mark <+: l.owed due mark := by
  refine ⟨l.requests.flatMap due, ?_⟩
  unfold owed cut requests
  simp only [List.append_nil, List.flatMap_nil]

end Channel

end Session
