import Fracture.Common.Effect

/-!
# Two computations that succeed together

`Related E Q x y` says that `x` and `y` either both succeed, with values
that `Q` relates, or both fail, with errors that `E` relates. It is how
two programs over different states are compared: each step of one is
matched with a step of the other, `Related.bind` chains the matches, and
`Q` carries the relation between the two states along.

A stateful computation is brought in through `outcome`, which makes the
state it ends in part of its value. What it leaves behind when it fails
is not looked at.
-/

namespace Effect

variable {ε ε' ε'' σ α β γ α' β' : Type}

/-- Both succeed with related values, or both fail with related errors. -/
inductive Related (E : ε → ε' → Prop) (Q : α → β → Prop) : Except ε α → Except ε' β → Prop
  | ok {a : α} {b : β} (h : Q a b) : Related E Q (.ok a) (.ok b)
  | error {e : ε} {e' : ε'} (h : E e e') : Related E Q (.error e) (.error e')

namespace Related

variable {E : ε → ε' → Prop} {Q : α → β → Prop} {x : Except ε α} {y : Except ε' β}
  {f : α → Except ε α'}

/-- **Matched steps make matched sequences.** -/
theorem bind {Q' : α' → β' → Prop} {g : β → Except ε' β'} (hxy : Related E Q x y)
    (hfg : ∀ a b, Q a b → Related E Q' (f a) (g b)) : Related E Q' (x >>= f) (y >>= g) := by
  cases hxy with
  | ok h => exact hfg _ _ h
  | error h => exact .error h

/-- A step that is the same on both sides. -/
theorem bind_same {E : ε → ε → Prop} {Q' : α' → β' → Prop} {g : α → Except ε β'} (hE : ∀ e, E e e)
    (hfg : ∀ a, x = .ok a → Related E Q' (f a) (g a)) : Related E Q' (x >>= f) (x >>= g) := by
  cases x with
  | ok a => exact hfg a rfl
  | error e => exact .error (hE e)

/-- A step on the left that goes through and has no counterpart. -/
theorem bind_left {Q' : α' → β → Prop} {a : α} (hx : x = .ok a) (hf : Related E Q' (f a) y) :
    Related E Q' (x >>= f) y := by
  subst hx
  exact hf

/-- A last step on the left that always goes through. -/
theorem then_left {Q' : α' → β → Prop} (hxy : Related E Q x y)
    (hf : ∀ a b, Q a b → ∃ a', f a = .ok a' ∧ Q' a' b) : Related E Q' (x >>= f) y := by
  cases hxy with
  | ok h =>
    obtain ⟨a', hfa, hQ'⟩ := hf _ _ h
    rw [except_ok_bind, hfa]
    exact .ok hQ'
  | error h => exact .error h

/-- A value that is only repackaged on the right. -/
theorem map_right {Q' : α → β' → Prop} {g : β → β'} (hxy : Related E Q x y)
    (hQ : ∀ a b, Q a b → Q' a (g b)) : Related E Q' x (y >>= fun b => pure (g b)) := by
  cases hxy with
  | ok h => exact .ok (hQ _ _ h)
  | error h => exact .error h

theorem mono {E' : ε → ε' → Prop} {Q' : α → β → Prop} (h : Related E Q x y)
    (hE : ∀ e e', E e e' → E' e e') (hQ : ∀ a b, Q a b → Q' a b) : Related E' Q' x y := by
  cases h with
  | ok h => exact .ok (hQ _ _ h)
  | error h => exact .error (hE _ _ h)

/-- The right side's success can be kept at hand. -/
theorem with_right (h : Related E Q x y) : Related E (fun a b => Q a b ∧ y = .ok b) x y := by
  cases h with
  | ok h => exact .ok ⟨h, rfl⟩
  | error h => exact .error h

/-- The left side's success can be kept at hand. -/
theorem with_left (h : Related E Q x y) : Related E (fun a b => Q a b ∧ x = .ok a) x y := by
  cases h with
  | ok h => exact .ok ⟨h, rfl⟩
  | error h => exact .error h

theorem symm (h : Related E Q x y) : Related (fun e e' => E e' e) (fun b a => Q a b) y x := by
  cases h with
  | ok h => exact .ok h
  | error h => exact .error h

theorem trans {E' : ε' → ε'' → Prop} {Q' : β → γ → Prop} {z : Except ε'' γ}
    (hxy : Related E Q x y) (hyz : Related E' Q' y z) :
    Related (fun e e'' => ∃ e', E e e' ∧ E' e' e'') (fun a c => ∃ b, Q a b ∧ Q' b c) x z := by
  cases hxy with
  | ok h =>
    cases hyz with
    | ok h' => exact .ok ⟨_, h, h'⟩
  | error h =>
    cases hyz with
    | error h' => exact .error ⟨_, h, h'⟩

/-- Related computations give the same where the relation says so. -/
theorem map_eq {y : Except ε β} {f : α → γ} {g : β → γ} (h : Related Eq Q x y)
    (hQ : ∀ a b, Q a b → f a = g b) : x.map f = y.map g := by
  cases h with
  | ok h => exact congrArg Except.ok (hQ _ _ h)
  | error h => exact congrArg Except.error h

/-- If the right side succeeds, so does the left. -/
theorem ok_right {b : β} (h : Related E Q x (.ok b)) : ∃ a, x = .ok a ∧ Q a b := by
  cases h with
  | ok h => exact ⟨_, rfl, h⟩

theorem error_right {e : ε} (h : Related Eq Q x (.error e)) : x = .error e := by
  cases h with
  | error h => rw [h]

end Related

/-! ## One computation against two -/

/-- Both of two computations; which of two errors is reported does not
matter to what follows. -/
def both (x : Except ε α) (y : Except ε β) : Except ε (α × β) := do
  let a ← x
  let b ← y
  return (a, b)

/-- Two computations that succeed together, whatever errors they end with. -/
abbrev Together (Q : α → β → Prop) (x : Except ε α) (y : Except ε' β) : Prop :=
  Related (fun _ _ => True) Q x y

/-- The errors can be left out of account. -/
theorem Related.together {E : ε → ε' → Prop} {Q : α → β → Prop} {x : Except ε α}
    {y : Except ε' β} (h : Related E Q x y) : Together Q x y :=
  h.mono (fun _ _ _ => trivial) fun _ _ hQ => hQ

/-- `x` succeeds exactly when `y` and `z` do, with a value that `Q`
relates to theirs. -/
def Splits (Q : γ → α → β → Prop) (x : Except ε γ) (y : Except ε' α) (z : Except ε' β) : Prop :=
  Together (fun c p => Q c p.1 p.2) x (both y z)

namespace Splits

variable {Q : γ → α → β → Prop} {x : Except ε γ} {y : Except ε' α} {z : Except ε' β}

theorem ok {c : γ} {a : α} {b : β} (h : Q c a b) :
    Splits Q (.ok c : Except ε γ) (.ok a : Except ε' α) (.ok b) :=
  Related.ok h

/-- **Steps of one computation matched with pairs of steps.** One step of
the left side stands for one step of each computation on the right. -/
theorem bind {γ' : Type} {Q' : γ' → α' → β' → Prop} {f : γ → Except ε γ'}
    {g : α → Except ε' α'} {k : β → Except ε' β'} (hxyz : Splits Q x y z)
    (hfgk : ∀ c a b, Q c a b → y = .ok a → z = .ok b → Splits Q' (f c) (g a) (k b)) :
    Splits Q' (x >>= f) (y >>= g) (z >>= k) := by
  cases y with
  | error e =>
    cases hxyz with
    | error => exact .error trivial
  | ok a =>
    cases z with
    | error e =>
      cases hxyz with
      | error =>
        rw [except_ok_bind, except_error_bind, except_error_bind, Splits, both]
        cases g a with
        | ok a' => exact .error trivial
        | error e' => exact .error trivial
    | ok b =>
      cases hxyz with
      | ok h => exact hfgk _ a b h rfl rfl

/-- The two parts can be replaced by computations they succeed together with. -/
theorem trans {Q₁ : α → α' → Prop} {Q₂ : β → β' → Prop} {y' : Except ε'' α'} {z' : Except ε'' β'}
    (h : Splits Q x y z) (hy : Together Q₁ y y') (hz : Together Q₂ z z') :
    Splits (fun c a' b' => ∃ a b, Q c a b ∧ y = .ok a ∧ z = .ok b ∧ Q₁ a a' ∧ Q₂ b b') x y' z' := by
  cases hy with
  | error =>
    cases h with
    | error => exact .error trivial
  | @ok a a' ha =>
    cases hz with
    | error =>
      cases h with
      | error => exact .error trivial
    | @ok b b' hb =>
      cases h with
      | ok hQ => exact .ok ⟨a, b, hQ, rfl, rfl, ha, hb⟩

/-- A computation that splits into the first turn of a loop and the rest. -/
theorem mapM_cons {δ : Type} {f : δ → Except ε' α} {s : δ} {rest : List δ}
    {Q : γ → α → List α → Prop} (h : Splits Q x (f s) (rest.mapM f)) :
    Together (fun c rs => ∃ r more, rs = r :: more ∧ Q c r more) x ((s :: rest).mapM f) := by
  have hcons : (s :: rest).mapM f = both (f s) (rest.mapM f) >>= fun p => pure (p.1 :: p.2) := by
    simp only [List.mapM_cons, both, bind_assoc, pure_bind]
  rw [hcons]
  exact h.map_right fun _ _ hQ => ⟨_, _, rfl, hQ⟩

/-- A loop that makes the turns of two others, the second one's moved. -/
theorem mapM_append {δ δ' : Type} {f g : δ → Except ε α} {k : δ' → Except ε α} {move : δ' → δ}
    {xs : List δ} {ys : List δ'} (hleft : ∀ x ∈ xs, f x = g x)
    (hright : ∀ y ∈ ys, f (move y) = k y) :
    Splits (fun t s u => t = s ++ u) ((xs ++ ys.map move).mapM f) (xs.mapM g) (ys.mapM k) := by
  rw [List.mapM_append, except_mapM_congr hleft, List.mapM_map,
    except_mapM_congr (f := f ∘ move) hright]
  cases xs.mapM g with
  | error e => exact .error trivial
  | ok s =>
    cases ys.mapM k with
    | error e => exact .error trivial
    | ok u => exact .ok rfl

end Splits

/-- Two loops over the same turns in a different order succeed together,
with the same result for each turn. -/
theorem together_mapM_perm {xs ys : List α} (h : xs.Perm ys) (f : α → Except ε β) :
    Together (fun rs rs' => (xs.zip rs).Perm (ys.zip rs')) (xs.mapM f) (ys.mapM f) := by
  induction h with
  | nil => exact .ok .nil
  | cons x h ih =>
    rw [List.mapM_cons, List.mapM_cons]
    refine Related.bind_same (fun _ => trivial) fun r _ => ih.bind fun rs rs' hperm => ?_
    exact .ok (hperm.cons _)
  | swap x y xs =>
    simp only [List.mapM_cons]
    cases f x with
    | error e =>
      cases f y with
      | error e' => exact .error trivial
      | ok s => exact .error trivial
    | ok r =>
      cases f y with
      | error e' => exact .error trivial
      | ok s =>
        cases xs.mapM f with
        | error e' => exact .error trivial
        | ok rs => exact .ok (.swap _ _ _)
  | trans _ _ ih₁ ih₂ =>
    refine (ih₁.trans ih₂).mono (fun _ _ _ => trivial) ?_
    rintro rs rs'' ⟨rs', h₁, h₂⟩
    exact h₁.trans h₂

/-- The value a stateful computation ends with, together with its state. -/
def outcome : EStateM.Result ε σ α → Except ε (α × σ)
  | .ok a s => .ok (a, s)
  | .error e _ => .error e

theorem outcome_bind (x : EStateM ε σ α) (f : α → EStateM ε σ β) (s : σ) :
    outcome ((x >>= f) s) = outcome (x s) >>= fun r => outcome (f r.1 r.2) := by
  cases h : x s with
  | ok a s' => rw [bind_of_ok h]; rfl
  | error e s' => rw [bind_of_error h]; rfl

theorem outcome_lift (x : Except ε α) (s : σ) :
    outcome ((liftM x : EStateM ε σ α) s) = x >>= fun a => .ok (a, s) := by
  cases x with
  | ok a => rfl
  | error e => rfl

theorem outcome_lift_bind (x : Except ε α) (f : α → EStateM ε σ β) (s : σ) :
    outcome (((liftM x : EStateM ε σ α) >>= f) s) = x >>= fun a => outcome (f a s) := by
  cases x with
  | ok a => rfl
  | error e => rfl

theorem outcome_get_bind (f : σ → EStateM ε σ β) (s : σ) :
    outcome (((get : EStateM ε σ σ) >>= f) s) = outcome (f s s) := rfl

/-! ## Histories -/

section Histories

variable {τ op : Type}

/-- The results of operations served one after the other, up to the first
error. -/
def serveAll (serve : op → σ → Except ε (α × σ)) : List op → σ → Except ε (List α × σ)
  | [], s => .ok ([], s)
  | o :: ops, s => do
    let (a, s) ← serve o s
    let (as, s) ← serveAll serve ops s
    return (a :: as, s)

/-- A condition on each operation and the two states it finds, along a
history that two sides serve. -/
def Along (P : op → σ → τ → Prop) (f : op → σ → Except ε (α × σ)) (g : op → τ → Except ε (α × τ)) :
    List op → σ → τ → Prop
  | [], _, _ => True
  | o :: ops, s, t => P o s t ∧
      match f o s, g o t with
      | .ok (_, s'), .ok (_, t') => Along P f g ops s' t'
      | _, _ => True

instance Along.decidable {P : op → σ → τ → Prop} [∀ o s t, Decidable (P o s t)]
    {f : op → σ → Except ε (α × σ)} {g : op → τ → Except ε (α × τ)} :
    ∀ ops s t, Decidable (Along P f g ops s t)
  | [], _, _ => .isTrue trivial
  | o :: ops, s, t => by
    refine @instDecidableAnd _ _ inferInstance ?_
    split
    · exact Along.decidable ops _ _
    · exact .isTrue trivial

/-- **Simulation along a history.** If serving one operation keeps two
states in relation and gives the same result, so does a history. -/
theorem serveAll_related {E : ε → ε → Prop} {P : op → σ → τ → Prop}
    {f : op → σ → Except ε (α × σ)} {g : op → τ → Except ε (α × τ)} {Inv : σ → τ → Prop}
    (hstep : ∀ {o s t}, Inv s t → P o s t →
      Related E (fun r r' => r.1 = r'.1 ∧ Inv r.2 r'.2) (f o s) (g o t))
    {ops : List op} {s : σ} {t : τ} (hinv : Inv s t) (halong : Along P f g ops s t) :
    Related E (fun r r' => r.1 = r'.1 ∧ Inv r.2 r'.2) (serveAll f ops s) (serveAll g ops t) := by
  induction ops generalizing s t with
  | nil => exact .ok ⟨rfl, hinv⟩
  | cons o ops ih =>
    obtain ⟨hP, hrest⟩ := halong
    refine (hstep hinv hP).with_left.with_right.bind ?_
    rintro ⟨a, s'⟩ ⟨b, t'⟩ ⟨⟨⟨heq, hinv'⟩, hs⟩, ht⟩
    subst heq
    rw [hs, ht] at hrest
    refine (ih hinv' hrest).bind ?_
    rintro ⟨as, s''⟩ ⟨bs, t''⟩ ⟨heq, hinv''⟩
    exact .ok ⟨congrArg _ heq, hinv''⟩

end Histories

end Effect
