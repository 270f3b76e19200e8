import Fracture.Common.Rows
import Mathlib.Order.Defs.Unbundled

/-!
# Computations that may stop half way

`EStateM ε σ` is a computation on a state `σ` that may stop with an
error and then leaves the state as it was at that point. Two ways of
reading such a computation carry the proofs above it:

* it **succeeded**, so every step of it did, and each step's result and
  state can be named (`bind_eq_ok`, `lift_eq_ok`);
* however it **ended**, it only moved the state along a relation
  (`Within`), which composes as long as the relation is a preorder, and
  an error it ended with is one of those its steps can raise (`Raises`).

`Within` is what an invariant, a frame property and a monotone counter
have in common, so each is an instance of `Within`.
-/

namespace Effect

variable {ε σ α β : Type}

/-- A result with no effect on the state. -/
instance monadLiftExcept : MonadLift (Except ε) (EStateM ε σ) where
  monadLift x := fun s => match x with
    | .ok a => .ok a s
    | .error e => .error e s

/-- The state a result carries, whether it is a success or an error. -/
def state : EStateM.Result ε σ α → σ
  | .ok _ s => s
  | .error _ s => s

@[simp] theorem state_ok (a : α) (s : σ) : state (.ok a s : EStateM.Result ε σ α) = s := rfl

@[simp] theorem state_error (e : ε) (s : σ) : state (.error e s : EStateM.Result ε σ α) = s := rfl

/-- Whether a result is a success. -/
def isOk : EStateM.Result ε σ α → Bool
  | .ok _ _ => true
  | .error _ _ => false

variable {r : EStateM.Result ε σ α}

theorem exists_of_isOk (h : isOk r = true) : ∃ a s, r = .ok a s := by
  cases r with
  | ok a s => exact ⟨a, s, rfl⟩
  | error e s => cases h

/-- What a call that succeeded returned, with the state it left. -/
def ok? : EStateM.Result ε σ α → Option (α × σ)
  | .ok a s => some (a, s)
  | .error _ _ => none

theorem eq_ok_of_isOk {r : EStateM.Result ε σ Unit} (h : isOk r = true) : r = .ok () (state r) := by
  cases r with
  | ok u s => rfl
  | error e s => cases h

/-- The error a result carries, if it is one. -/
def error? : EStateM.Result ε σ α → Option ε
  | .ok _ _ => none
  | .error e _ => some e

variable {e : ε}

theorem eq_error_of_error? (h : error? r = some e) : r = .error e (state r) := by
  cases r with
  | ok a s => cases h
  | error e' s =>
    cases h
    rfl

/-! ## Running a sequence -/

variable {s s' : σ} {a : α} {m : EStateM ε σ α} {k : α → EStateM ε σ β}

theorem bind_of_ok (h : m s = .ok a s') (f : α → EStateM ε σ β) : (m >>= f) s = f a s' := by
  change EStateM.bind m f s = _
  rw [EStateM.bind, h]

theorem bind_of_error (h : m s = .error e s') (f : α → EStateM ε σ β) :
    (m >>= f) s = .error e s' := by
  change EStateM.bind m f s = _
  rw [EStateM.bind, h]

variable {x : Except ε α}

theorem lift_bind_of_ok (h : x = .ok a) (f : α → EStateM ε σ β) (s : σ) :
    ((liftM x : EStateM ε σ α) >>= f) s = f a s := by
  subst h
  rfl

theorem lift_bind_of_error (h : x = .error e) (f : α → EStateM ε σ β) (s : σ) :
    ((liftM x : EStateM ε σ α) >>= f) s = .error e s := by
  subst h
  rfl

/-- Forgetting a result does not touch the state. -/
theorem state_bind_pure (x : EStateM ε σ α) (b : β) (s : σ) :
    state ((x >>= fun _ => pure b) s) = state (x s) := by
  cases h : x s with
  | ok a s' => rw [bind_of_ok h]; rfl
  | error e s' => rw [bind_of_error h]; rfl

/-! ## Success, step by step -/

variable {b : β} {s'' : σ}

/-- A sequence of two steps succeeds exactly when both do. -/
theorem bind_eq_ok :
    (m >>= k) s = .ok b s'' ↔ ∃ a s', m s = .ok a s' ∧ k a s' = .ok b s'' := by
  change EStateM.bind m k s = _ ↔ _
  unfold EStateM.bind
  cases m s with
  | ok a s' =>
    constructor
    · intro h
      exact ⟨a, s', rfl, h⟩
    · rintro ⟨_, _, h, hk⟩
      cases h
      exact hk
  | error e s' => simp

theorem pure_eq_ok {b : α} : (pure a : EStateM ε σ α) s = .ok b s' ↔ a = b ∧ s = s' := by
  change EStateM.Result.ok a s = _ ↔ _
  simp

/-- A lifted result succeeds when the result does, and leaves the state. -/
theorem lift_eq_ok : (liftM x : EStateM ε σ α) s = .ok a s' ↔ x = .ok a ∧ s' = s := by
  cases x with
  | ok a' =>
    change EStateM.Result.ok a' s = _ ↔ _
    simp [eq_comm]
  | error e =>
    simp

theorem lift_bind_eq_ok :
    ((liftM x : EStateM ε σ α) >>= k) s = .ok b s' ↔ ∃ a, x = .ok a ∧ k a s = .ok b s' := by
  rw [bind_eq_ok]
  constructor
  · rintro ⟨a, s₁, hx, hk⟩
    obtain ⟨hok, rfl⟩ := lift_eq_ok.1 hx
    exact ⟨a, hok, hk⟩
  · rintro ⟨a, hx, hk⟩
    exact ⟨a, s, lift_eq_ok.2 ⟨hx, rfl⟩, hk⟩

theorem unit_bind_eq_ok {x : EStateM ε σ Unit} {f : Unit → EStateM ε σ β} :
    (x >>= f) s = .ok b s'' ↔ ∃ s', x s = .ok () s' ∧ f () s' = .ok b s'' := by
  rw [bind_eq_ok]
  constructor
  · rintro ⟨⟨⟩, s', hx, hf⟩
    exact ⟨s', hx, hf⟩
  · rintro ⟨s', hx, hf⟩
    exact ⟨(), s', hx, hf⟩

theorem get_bind (f : σ → EStateM ε σ β) (s : σ) :
    ((get : EStateM ε σ σ) >>= f) s = f s s := rfl

@[simp] theorem except_ok_bind (a : α) (f : α → Except ε β) : (.ok a >>= f) = f a := rfl

@[simp] theorem except_error_bind (e : ε) (f : α → Except ε β) :
    ((.error e : Except ε α) >>= f) = .error e := rfl

theorem except_ok_of_isOk (h : x.isOk = true) : ∃ a, x = .ok a := by
  cases x with
  | ok a => exact ⟨a, rfl⟩
  | error e => cases h

theorem except_toOption_eq_some : x.toOption = some a ↔ x = .ok a := by
  cases x with
  | ok b => simp [Except.toOption]
  | error e => simp [Except.toOption]

variable {f : α → Except ε β}

/-- A pure sequence of two steps succeeds exactly when both do. -/
theorem except_bind_eq_ok : (x >>= f) = .ok b ↔ ∃ a, x = .ok a ∧ f a = .ok b := by
  cases x with
  | ok a => simp [bind, Except.bind]
  | error e => simp [bind, Except.bind]

/-- A check that was passed did not hold. -/
theorem except_guard_eq_ok {p : Prop} [Decidable p] :
    (if p then .error e else x) = .ok a ↔ ¬ p ∧ x = .ok a := by
  by_cases hp : p <;> simp [hp]

variable {xs : List α}

/-- A loop without a result succeeds only if every turn of it does. -/
theorem except_forM_eq_ok {f : α → Except ε Unit} (h : xs.forM f = .ok ()) :
    ∀ x ∈ xs, f x = .ok () := by
  induction xs with
  | nil => simp
  | cons x xs ih =>
    obtain ⟨⟨⟩, hx, hxs⟩ := except_bind_eq_ok.1 h
    intro y hy
    rcases List.mem_cons.1 hy with rfl | hy
    · exact hx
    · exact ih hxs y hy

/-- A loop without a result succeeds if every turn of it does. -/
theorem except_forM_ok {f : α → Except ε Unit} (h : ∀ x ∈ xs, f x = .ok ()) :
    xs.forM f = .ok () := by
  induction xs with
  | nil => rfl
  | cons x xs ih =>
    exact except_bind_eq_ok.2 ⟨(), h x List.mem_cons_self,
      ih (List.forall_mem_cons.1 h).2⟩

variable {ys : List β}

/-- A loop succeeds with the results of its turns, each of which succeeds. -/
theorem except_mapM_eq_ok : xs.mapM f = .ok ys ↔ List.Forall₂ (fun x y => f x = .ok y) xs ys := by
  induction xs generalizing ys with
  | nil => exact ⟨fun h => by cases h; exact .nil, fun h => by cases h; rfl⟩
  | cons x xs ih =>
    rw [List.mapM_cons, List.forall₂_cons_left_iff, except_bind_eq_ok]
    constructor
    · rintro ⟨y, hy, h⟩
      obtain ⟨more, hmore, h⟩ := except_bind_eq_ok.1 h
      cases h
      exact ⟨y, more, hy, ih.1 hmore, rfl⟩
    · rintro ⟨y, more, hy, hmore, rfl⟩
      exact ⟨y, hy, except_bind_eq_ok.2 ⟨more, ih.2 hmore, rfl⟩⟩

/-- A loop whose turns all succeed collects their results. -/
theorem except_mapM_ok {g : α → β} (h : ∀ x ∈ xs, f x = .ok (g x)) :
    xs.mapM f = .ok (xs.map g) :=
  except_mapM_eq_ok.2 (List.forall₂_map_right_iff.2 (List.forall₂_same.2 h))

/-- A loop that succeeds has one result for each turn. -/
theorem length_of_except_mapM (h : xs.mapM f = .ok ys) : ys.length = xs.length :=
  (except_mapM_eq_ok.1 h).length_eq.symm

/-- A loop that succeeds, turn by turn. -/
theorem getElem?_of_except_mapM (h : xs.mapM f = .ok ys) {i : Nat} {x : α} (hx : xs[i]? = some x) :
    ∃ y, ys[i]? = some y ∧ f x = .ok y :=
  Rows.getElem?_right (except_mapM_eq_ok.1 h) hx

theorem exists_of_mem_except_mapM (h : xs.mapM f = .ok ys) {y : β} (hy : y ∈ ys) :
    ∃ x ∈ xs, f x = .ok y :=
  Rows.exists_left (except_mapM_eq_ok.1 h) hy

/-- A loop over the inputs of an earlier loop paired with its results, where
the two turns for an input together leave one possible result. -/
theorem eq_map_of_except_mapM_zip {γ : Type} {g : α × β → Except ε γ} {value : α → γ}
    (hvalue : ∀ x ∈ xs, ∀ y z, f x = .ok y → g (x, y) = .ok z → z = value x) {zs : List γ}
    (hf : xs.mapM f = .ok ys) (hg : (xs.zip ys).mapM g = .ok zs) : zs = xs.map value := by
  rw [except_mapM_eq_ok] at hf hg
  induction hf generalizing zs with
  | nil =>
    cases hg
    rfl
  | cons hy _ ih =>
    obtain _ | ⟨hz, hzs⟩ := hg
    rw [List.map_cons, hvalue _ List.mem_cons_self _ _ hy hz,
      ih (fun x hx => hvalue x (List.mem_cons_of_mem _ hx)) hzs]

/-- Two loops with the same turns. -/
theorem except_mapM_congr {g : α → Except ε β} (h : ∀ x ∈ xs, f x = g x) :
    xs.mapM f = xs.mapM g := by
  induction xs with
  | nil => rfl
  | cons x xs ih =>
    rw [List.mapM_cons, List.mapM_cons, h x List.mem_cons_self,
      ih (List.forall_mem_cons.1 h).2]

/-! ## Every outcome -/

/-- However `x` ends, it moves the state along `R`. -/
def Within (R : σ → σ → Prop) (x : EStateM ε σ α) : Prop :=
  ∀ s, R s (state (x s))

namespace Within

variable {R : σ → σ → Prop}

theorem pure [Std.Refl R] (a : α) : Within R (pure a : EStateM ε σ α) :=
  fun s => refl_of R s

theorem lift [Std.Refl R] (x : Except ε α) : Within R (liftM x : EStateM ε σ α) := by
  intro s
  cases x with
  | ok a => exact refl_of R s
  | error e => exact refl_of R s

theorem get [Std.Refl R] : Within R (get : EStateM ε σ σ) :=
  fun s => refl_of R s

/-- A sequence moves the state along `R` when each of its steps does. -/
theorem bind [IsTrans σ R] (hm : Within R m) (hk : ∀ a, Within R (k a)) :
    Within R (m >>= k) := by
  intro s
  change R s (state (EStateM.bind m k s))
  have hs := hm s
  unfold EStateM.bind
  cases hms : m s with
  | ok a s' =>
    rw [hms] at hs
    exact IsTrans.trans _ _ _ hs (hk a s')
  | error e s' =>
    rw [hms] at hs
    exact hs

/-- After a lifted result, the rest runs only with the value it gave. -/
theorem lift_bind [Std.Refl R] (hk : ∀ a, x = .ok a → Within R (k a)) :
    Within R (liftM x >>= k) := by
  intro s
  cases x with
  | ok a => exact hk a rfl s
  | error e => exact refl_of R s

end Within

/-! ## The errors a computation can end with -/

/-- Every error `x` ends with satisfies `P`. -/
def Raises (P : ε → Prop) (x : EStateM ε σ α) : Prop :=
  ∀ s e s', x s = .error e s' → P e

namespace Raises

variable {P : ε → Prop}

theorem pure (a : α) : Raises P (pure a : EStateM ε σ α) := by
  intro s e s' h
  cases h

theorem lift (hx : ∀ e, x = .error e → P e) : Raises P (liftM x : EStateM ε σ α) := by
  intro s e s' h
  cases x with
  | ok a => cases h
  | error e' =>
    cases h
    exact hx _ rfl

theorem bind (hm : Raises P m) (hk : ∀ a, Raises P (k a)) : Raises P (m >>= k) := by
  intro s e s' h
  cases hms : m s with
  | ok a s₁ =>
    rw [bind_of_ok hms] at h
    exact hk a s₁ e s' h
  | error e₁ s₁ =>
    rw [bind_of_error hms] at h
    cases h
    exact hm s e s' hms

end Raises

end Effect

/-!
## Counting loops

A loop over the numbers below a bound, whose body may fail, is a fold over
a range. What the body keeps from each number to the next the loop keeps
from the first to the last; and a loop that succeeded ran its body at every
number.
-/

namespace Loops

open Effect

variable {ε σ : Type} {f : σ → ℕ → Except ε σ}

theorem foldlM_range_succ (n : ℕ) (s : σ) :
    (List.range (n + 1)).foldlM f s = ((List.range n).foldlM f s >>= fun s' => f s' n) := by
  rw [List.range_succ, List.foldlM_append]
  simp

/-- **The loop invariant.** -/
theorem exists_of_invariant (Inv : ℕ → σ → Prop) {n : ℕ} {s : σ} (hstart : Inv 0 s)
    (hbody : ∀ k < n, ∀ s, Inv k s → ∃ s', f s k = .ok s' ∧ Inv (k + 1) s') :
    ∃ s', (List.range n).foldlM f s = .ok s' ∧ Inv n s' := by
  induction n with
  | zero => exact ⟨s, rfl, hstart⟩
  | succ n ih =>
    obtain ⟨mid, hmid, hinv⟩ := ih fun k hk => hbody k (Nat.lt_succ_of_lt hk)
    obtain ⟨s', hs', hinv'⟩ := hbody n (Nat.lt_succ_self n) mid hinv
    refine ⟨s', ?_, hinv'⟩
    rw [foldlM_range_succ, hmid, except_ok_bind, hs']

/-- A loop that succeeded ran its body at each number. -/
theorem exists_step {n : ℕ} {s s' : σ} (h : (List.range n).foldlM f s = .ok s') {k : ℕ}
    (hk : k < n) : ∃ before after, f before k = .ok after := by
  induction n generalizing s' with
  | zero => exact absurd hk (Nat.not_lt_zero k)
  | succ n ih =>
    rw [foldlM_range_succ] at h
    obtain ⟨mid, hmid, hlast⟩ := except_bind_eq_ok.1 h
    rcases Nat.lt_or_ge k n with hlt | hge
    · exact ih hmid hlt
    · have hkn : k = n := by omega
      subst hkn
      exact ⟨mid, s', hlast⟩

end Loops
