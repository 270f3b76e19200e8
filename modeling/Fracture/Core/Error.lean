import Mathlib.Algebra.GroupWithZero.Nat

/-!
# Errors and panics

A call of the engine either returns, returns an error, or panics. The
last two are kept apart: an error is a value the caller goes on with, a
panic unwinds the task that made the call. `Fault` is either of them.
-/

namespace Fracture

/-- The error type every fallible call returns. -/
inductive FractureError
  | backend (msg : String)
  | outOfMemory (requested available : ℕ)
  | invalidShape (msg : String)
  | tensorNotFound (msg : String)
  | modelConfig (msg : String)
  | ggufParse (msg : String)
  | weightLoad (msg : String)
  | kvCache (msg : String)
  | generation (msg : String)
  | tokenizer (msg : String)
  | server (msg : String)
  | pipeline (msg : String)
  | protocol (msg : String)
  | unsupportedDType (msg : String)
  | io (msg : String)
  deriving DecidableEq, Repr

/-- The text of an error, as it is put into a client's event. -/
def FractureError.display : FractureError → String
  | .backend m => s!"backend error: {m}"
  | .outOfMemory r a =>
    s!"out of device memory: requested {r} bytes, available {a} bytes"
  | .invalidShape m => s!"invalid tensor shape: {m}"
  | .tensorNotFound m => s!"tensor not found: {m}"
  | .modelConfig m => s!"model config error: {m}"
  | .ggufParse m => s!"GGUF parse error: {m}"
  | .weightLoad m => s!"weight loading error: {m}"
  | .kvCache m => s!"KV cache error: {m}"
  | .generation m => s!"generation error: {m}"
  | .tokenizer m => s!"tokenizer error: {m}"
  | .server m => s!"server error: {m}"
  | .pipeline m => s!"pipeline error: {m}"
  | .protocol m => s!"protocol error: {m}"
  | .unsupportedDType m => s!"unsupported dtype: {m}"
  | .io m => s!"io error: {m}"

/-- Why a call panicked. -/
inductive Panic
  /-- A vector was indexed past its end. -/
  | indexOutOfBounds
  /-- A `usize` subtraction went below zero. -/
  | subtractOverflow
  /-- A `usize` sum did not fit, where that is checked. -/
  | addOverflow
  /-- A `usize` product did not fit, where that is checked. -/
  | multiplyOverflow
  /-- A recursion went deeper than the stack. -/
  | stackOverflow
  /-- A map was indexed with a key it does not have. -/
  | entryNotFound
  deriving DecidableEq, Repr

/-- How a call fails to return a value. -/
inductive Fault
  | error (e : FractureError)
  | panicked (why : Panic)
  deriving DecidableEq, Repr

/-- The text of a fault: an error's own, or the message a panic unwinds with. -/
def Fault.display : Fault → String
  | .error e => e.display
  | .panicked .indexOutOfBounds => "index out of bounds"
  | .panicked .subtractOverflow => "attempt to subtract with overflow"
  | .panicked .addOverflow => "attempt to add with overflow"
  | .panicked .multiplyOverflow => "attempt to multiply with overflow"
  | .panicked .stackOverflow => "stack overflow"
  | .panicked .entryNotFound => "no entry found for key"

/-- An error as a result. -/
def err {α : Type} (e : FractureError) : Except Fault α := .error (.error e)

/-- A vector access: the element, or a panic past the end. -/
def index {α : Type} (xs : List α) (i : ℕ) : Except Fault α :=
  match xs[i]? with
  | some x => .ok x
  | none => .error (.panicked .indexOutOfBounds)

/-- A `usize` subtraction: the difference, or a panic below zero. -/
def checkedSub (a b : ℕ) : Except Fault ℕ :=
  if b ≤ a then .ok (a - b) else .error (.panicked .subtractOverflow)

theorem index_eq_ok {α : Type} {xs : List α} {i : ℕ} {x : α} :
    index xs i = .ok x ↔ xs[i]? = some x := by
  unfold index
  cases xs[i]? <;> simp

theorem checkedSub_eq_ok {a b c : ℕ} : checkedSub a b = .ok c ↔ b ≤ a ∧ c = a - b := by
  unfold checkedSub
  by_cases h : b ≤ a
  · simp [h, eq_comm]
  · simp [h]

/-- The computation does not panic. -/
def Returns {α : Type} (x : Except Fault α) : Prop := ∀ why, x ≠ .error (.panicked why)

namespace Returns

variable {α β : Type} {x : Except Fault α}

theorem ok (a : α) : Returns (.ok a : Except Fault α) := by
  intro why h
  cases h

theorem err (e : FractureError) : Returns (err e : Except Fault α) := by
  intro why h
  cases h

theorem bind {f : α → Except Fault β} (hx : Returns x) (hf : ∀ a, Returns (f a)) :
    Returns (x >>= f) := by
  intro why h
  cases x with
  | error e =>
    cases h
    exact hx why rfl
  | ok a => exact hf a why h

/-- It returns a value or an error. -/
theorem cases (hx : Returns x) : (∃ a, x = .ok a) ∨ ∃ e, x = Fracture.err e := by
  cases x with
  | ok a => exact .inl ⟨a, rfl⟩
  | error fault =>
    cases fault with
    | error e => exact .inr ⟨e, rfl⟩
    | panicked why => exact absurd rfl (hx why)

/-- A computation that goes through its first part without a panic. -/
theorem of_bind {f : α → Except Fault β} (h : Returns (x >>= f)) : Returns x := by
  rintro why rfl
  exact h why rfl

end Returns

/-- The computation returns no error: if anything stops it, it is a panic. -/
def OnlyPanics {α : Type} (x : Except Fault α) : Prop := ∀ e, x ≠ err e

namespace OnlyPanics

variable {α β : Type} {x : Except Fault α}

theorem ok (a : α) : OnlyPanics (.ok a : Except Fault α) := by
  intro e h
  cases h

theorem panicked (why : Panic) : OnlyPanics (.error (.panicked why) : Except Fault α) := by
  intro e h
  cases h

theorem bind {f : α → Except Fault β} (hx : OnlyPanics x) (hf : ∀ a, OnlyPanics (f a)) :
    OnlyPanics (x >>= f) := by
  intro e h
  cases x with
  | error fault =>
    cases h
    exact hx e rfl
  | ok a => exact hf a e h

theorem foldlM {σ : Type} {f : σ → α → Except Fault σ} (hf : ∀ s a, OnlyPanics (f s a))
    (xs : List α) (s : σ) : OnlyPanics (xs.foldlM f s) := by
  induction xs generalizing s with
  | nil => exact .ok s
  | cons a xs ih => exact (hf s a).bind ih

/-- Where it does not panic either, there is a value. -/
theorem exists_ok (hx : OnlyPanics x) (hreturns : Returns x) : ∃ a, x = .ok a := by
  rcases hreturns.cases with hok | ⟨e, he⟩
  · exact hok
  · exact absurd he (hx e)

end OnlyPanics

end Fracture
