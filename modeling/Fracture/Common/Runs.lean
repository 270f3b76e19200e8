import Mathlib.Logic.Function.Basic
import Mathlib.Data.List.Basic

/-!
# Runs

A system takes one step after another, each with an input from outside.
`run` is the state after some inputs. `Throughout` says a property of
every step of a run, told by the state before the step and its input.
-/

namespace Runs

variable {σ ι : Type*}

/-- The state after some inputs. -/
def run (step : σ → ι → σ) (s : σ) (inputs : List ι) : σ := inputs.foldl step s

/-- A property of every step of a run. -/
def Throughout (step : σ → ι → σ) (P : σ → ι → Prop) : σ → List ι → Prop
  | _, [] => True
  | s, a :: inputs => P s a ∧ Throughout step P (step s a) inputs

instance Throughout.decidable {step : σ → ι → σ} {P : σ → ι → Prop} [∀ s a, Decidable (P s a)] :
    ∀ s inputs, Decidable (Throughout step P s inputs)
  | _, [] => inferInstanceAs (Decidable True)
  | s, a :: inputs =>
    have : Decidable (Throughout step P (step s a) inputs) := Throughout.decidable _ inputs
    inferInstanceAs (Decidable (P s a ∧ Throughout step P (step s a) inputs))

variable {step : σ → ι → σ} {P Q : σ → ι → Prop} {s : σ} {inputs : List ι}

theorem throughout_concat {a : ι} :
    Throughout step P s (inputs ++ [a]) ↔
      Throughout step P s inputs ∧ P (run step s inputs) a := by
  induction inputs generalizing s with
  | nil => simp [Throughout, run]
  | cons b inputs ih => simp only [List.cons_append, Throughout, ih, run, List.foldl_cons, and_assoc]

/-- A property of the inputs alone. -/
theorem throughout_of_forall {p : ι → Prop} (h : ∀ a ∈ inputs, p a) :
    Throughout step (fun _ a => p a) s inputs := by
  induction inputs generalizing s with
  | nil => trivial
  | cons a inputs ih => exact ⟨h a (.head _), ih fun b hb => h b (.tail _ hb)⟩

/-- **What every step keeps, a run keeps.** -/
theorem Throughout.invariant (Inv : σ → Prop) (h : Throughout step P s inputs) (hstart : Inv s)
    (hstep : ∀ {s a}, Inv s → P s a → Inv (step s a)) : Inv (run step s inputs) := by
  induction inputs generalizing s with
  | nil => exact hstart
  | cons a inputs ih => exact ih h.2 (hstep hstart h.1)

/-- Inputs that are as good as others at every step give the same run. -/
theorem run_map {f : ι → ι} (h : Throughout step (fun s a => step s (f a) = step s a) s inputs) :
    run step s (inputs.map f) = run step s inputs := by
  induction inputs generalizing s with
  | nil => rfl
  | cons a inputs ih => exact (congrArg (run step · (inputs.map f)) h.1).trans (ih h.2)

/-- What every step keeps, with no more asked of the inputs. -/
theorem run_invariant (Inv : σ → Prop) (hstart : Inv s) (hstep : ∀ s a, Inv s → Inv (step s a))
    (inputs : List ι) : Inv (run step s inputs) := by
  induction inputs generalizing s with
  | nil => exact hstart
  | cons a inputs ih => exact ih (hstep s a hstart)

section

variable (Inv : σ → Prop) (h : Throughout step P s inputs) (hstart : Inv s)
  (hstep : ∀ {s a}, Inv s → P s a → Inv (step s a))
include h hstart hstep

/-- Under an invariant, one property of every step gives another. -/
theorem Throughout.imp (himp : ∀ {s a}, Inv s → P s a → Q s a) : Throughout step Q s inputs := by
  induction inputs generalizing s with
  | nil => trivial
  | cons a inputs ih => exact ⟨himp hstart h.1, ih h.2 (hstep hstart h.1)⟩

/-- Two properties that agree at every step under an invariant agree over
the run. -/
theorem Throughout.iff {Q' : σ → ι → Prop} (hiff : ∀ {s a}, Inv s → P s a → (Q s a ↔ Q' s a)) :
    Throughout step Q s inputs ↔ Throughout step Q' s inputs := by
  induction inputs generalizing s with
  | nil => exact Iff.rfl
  | cons a inputs ih => exact and_congr (hiff hstart h.1) (ih h.2 (hstep hstart h.1))

end

theorem Throughout.and (h : Throughout step P s inputs) (h' : Throughout step Q s inputs) :
    Throughout step (fun s a => P s a ∧ Q s a) s inputs := by
  induction inputs generalizing s with
  | nil => trivial
  | cons a inputs ih => exact ⟨⟨h.1, h'.1⟩, ih h.2 h'.2⟩

end Runs

/-!
## Asynchronous message passing

Nodes change state on events of their own and on the messages they
receive, and send messages as they do. A message stays in flight until it
is delivered, in any order and once. Messages are never lost or made up.
-/

namespace Async

/-- A message on its way. -/
structure Envelope (ι μ : Type*) where
  sender : ι
  dest : ι
  message : μ
deriving DecidableEq, Repr

/-- The nodes and the messages they have not received yet. -/
structure World (ι α μ : Type*) where
  nodes : ι → α
  inFlight : List (Envelope ι μ)

/-- What a node does on an event of its own and on a message: its next
state and what it sends. -/
structure Protocol (ι α μ ε : Type*) where
  act : ι → ε → α → α × List (Envelope ι μ)
  receive : Envelope ι μ → α → α × List (Envelope ι μ)

/-- A node has an event, or the `k`-th message in flight is delivered. -/
inductive Event (ι ε : Type*) where
  | act (node : ι) (event : ε)
  | deliver (k : ℕ)
deriving DecidableEq, Repr

variable {ι α μ ε : Type*}

/-- The `k`-th message in flight is taken out. -/
def World.pick (w : World ι α μ) (k : ℕ) : World ι α μ :=
  { w with inFlight := w.inFlight.eraseIdx k }

section

variable {w : World ι α μ} {e e' : Envelope ι μ} {k : ℕ}

theorem World.mem_of_mem_pick (h : e ∈ (w.pick k).inFlight) : e ∈ w.inFlight :=
  List.mem_of_mem_eraseIdx h

/-- A message in flight is the one delivered or stays in flight. -/
theorem World.eq_or_mem_pick (hk : w.inFlight[k]? = some e) (h : e' ∈ w.inFlight) :
    e' = e ∨ e' ∈ (w.pick k).inFlight := by
  obtain ⟨m, hm⟩ := List.mem_iff_getElem?.mp h
  by_cases hmk : m = k
  · left
    rw [hmk, hk] at hm
    exact (Option.some.inj hm).symm
  · exact .inr (List.mem_eraseIdx_iff_getElem?.mpr ⟨m, hmk, hm⟩)

end

variable [DecidableEq ι]

/-- One node takes its next state and sends. -/
def World.take (w : World ι α μ) (i : ι) (next : α × List (Envelope ι μ)) : World ι α μ :=
  ⟨Function.update w.nodes i next.1, w.inFlight ++ next.2⟩

/-- One event of the network. -/
def Protocol.step (p : Protocol ι α μ ε) (w : World ι α μ) : Event ι ε → World ι α μ
  | .act i event => w.take i (p.act i event (w.nodes i))
  | .deliver k =>
    match w.inFlight[k]? with
    | none => w
    | some e => (w.pick k).take e.dest (p.receive e (w.nodes e.dest))

section

variable {w : World ι α μ} {i j : ι} {next : α × List (Envelope ι μ)} {e : Envelope ι μ}

@[simp] theorem World.take_nodes_self : (w.take i next).nodes i = next.1 :=
  Function.update_self ..

theorem World.take_nodes_of_ne (h : j ≠ i) : (w.take i next).nodes j = w.nodes j :=
  Function.update_of_ne h ..

@[simp] theorem World.mem_take_inFlight :
    e ∈ (w.take i next).inFlight ↔ e ∈ w.inFlight ∨ e ∈ next.2 := List.mem_append

/-- A property of each node carries through one node's move. -/
theorem World.take_forall (P : ι → α → Prop) (h : ∀ j, P j (w.nodes j)) (hi : P i next.1) :
    ∀ j, P j ((w.take i next).nodes j) := by
  intro j
  by_cases hj : j = i
  · subst hj
    rwa [World.take_nodes_self]
  · rw [World.take_nodes_of_ne hj]
    exact h j

variable (p : Protocol ι α μ ε) (w : World ι α μ)

theorem Protocol.step_act (i : ι) (event : ε) :
    p.step w (.act i event) = w.take i (p.act i event (w.nodes i)) := rfl

/-- **What a delivery is**: nothing, or one message in flight received by
the node it is for. -/
theorem Protocol.step_deliver (k : ℕ) :
    w.inFlight[k]? = none ∧ p.step w (.deliver k) = w ∨
      ∃ e, w.inFlight[k]? = some e ∧ e ∈ w.inFlight ∧
        p.step w (.deliver k) = (w.pick k).take e.dest (p.receive e (w.nodes e.dest)) := by
  cases hk : w.inFlight[k]? with
  | none => exact .inl ⟨rfl, by simp only [Protocol.step, hk]⟩
  | some e =>
    exact .inr ⟨e, rfl, List.mem_of_getElem? hk, by simp only [Protocol.step, hk]⟩

end

end Async
