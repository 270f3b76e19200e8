import Mathlib.Algebra.GroupWithZero.Nat
import Mathlib.Data.List.AList

/-!
# What a finite map holds in total

Each entry of a finite map contributes a list, and `collect` is all of
them together. Replacing or removing one entry changes the collection by
that entry's list only; and when the collection has no repetition, the
lists of two entries have nothing in common. In the same way each entry
has a weight, and `total` is the sum of them.
-/

namespace Assoc

variable {α β γ : Type*} (f : β → List γ)

/-- The lists of all entries together. -/
def collect (s : AList fun _ : α => β) : List γ :=
  s.entries.flatMap fun e => f e.2

theorem collect_empty : collect f (∅ : AList fun _ : α => β) = [] := rfl

variable [DecidableEq α]
variable {f} {s : AList fun _ : α => β} {a a' : α} {b b' : β} {x : γ}

theorem mem_collect : x ∈ collect f s ↔ ∃ a b, s.lookup a = some b ∧ x ∈ f b := by
  simp only [collect, List.mem_flatMap]
  constructor
  · rintro ⟨⟨a, b⟩, hmem, hx⟩
    exact ⟨a, b, AList.mem_lookup_iff.2 hmem, hx⟩
  · rintro ⟨a, b, hb, hx⟩
    exact ⟨⟨a, b⟩, AList.mem_lookup_iff.1 hb, hx⟩

/-- An entry's list, and those of the other entries. -/
theorem collect_perm (h : s.lookup a = some b) :
    (collect f s).Perm (f b ++ collect f (s.erase a)) := by
  have hmem : a ∈ s.entries.keys := by
    rw [← AList.keys, ← AList.mem_keys, ← AList.lookup_isSome, h]
    rfl
  obtain ⟨b', l₁, l₂, -, hl, hkerase⟩ := List.exists_of_kerase hmem
  have hb : b' = b := by
    have hb' : s.lookup a = some b' :=
      AList.mem_lookup_iff.2 (by rw [hl]; exact List.mem_append_right _ List.mem_cons_self)
    exact Option.some.inj (hb'.symm.trans h)
  subst hb
  change (s.entries.flatMap fun e => f e.2).Perm
    (f b' ++ (List.kerase a s.entries).flatMap fun e => f e.2)
  rw [hkerase, hl]
  simp only [List.flatMap_append, List.flatMap_cons]
  exact List.perm_append_comm_assoc _ _ _

theorem collect_insert : collect f (s.insert a b) = f b ++ collect f (s.erase a) := by
  simp only [collect, AList.entries_insert, List.flatMap_cons]
  rfl

theorem collect_insert_of_notMem (h : a ∉ s) : collect f (s.insert a b) = f b ++ collect f s := by
  simp only [collect, AList.entries_insert_of_notMem h, List.flatMap_cons]

/-- Moving items between a stock and one entry's list keeps the total. -/
theorem perm_insert_of_perm {stock stock' total : List γ} (h : s.lookup a = some b)
    (hmove : (stock' ++ f b').Perm (stock ++ f b)) (htotal : (stock ++ collect f s).Perm total) :
    (stock' ++ collect f (s.insert a b')).Perm total := by
  rw [collect_insert, ← List.append_assoc]
  refine (hmove.append_right _).trans ?_
  rw [List.append_assoc]
  exact ((collect_perm h).symm.append_left stock).trans htotal

/-- Without repetition, two entries share nothing. -/
theorem notMem_of_ne (hnd : (collect f s).Nodup) (h : s.lookup a = some b)
    (h' : s.lookup a' = some b') (hne : a' ≠ a) (hx : x ∈ f b) : x ∉ f b' := by
  have hnd' := (collect_perm (f := f) h).nodup_iff.1 hnd
  intro hx'
  have hlook : (s.erase a).lookup a' = some b' := by rw [AList.lookup_erase_ne hne, h']
  exact (List.nodup_append.1 hnd').2.2 x hx x (mem_collect.2 ⟨a', b', hlook, hx'⟩) rfl

/-- What is found after an insertion: the new value, or an old one. -/
theorem lookup_insert_eq_some {m : AList fun _ : α => β} :
    (m.insert a b).lookup a' = some b' ↔ a' = a ∧ b' = b ∨ a' ≠ a ∧ m.lookup a' = some b' := by
  by_cases h : a' = a
  · subst h
    simp [AList.lookup_insert, eq_comm]
  · simp [AList.lookup_insert_ne h, h]

/-- What is found after a removal: an old value under another key. -/
theorem lookup_erase_eq_some {m : AList fun _ : α => β} :
    (m.erase a).lookup a' = some b' ↔ a' ≠ a ∧ m.lookup a' = some b' := by
  by_cases h : a' = a
  · subst h
    simp [AList.lookup_erase]
  · simp [AList.lookup_erase_ne h, h]

/-- What holds of an entry and of the others holds of all. -/
theorem forall_insert {P : α → β → Prop} (hnew : P a b)
    (hold : ∀ {a b}, s.lookup a = some b → P a b) (h : (s.insert a b).lookup a' = some b') :
    P a' b' := by
  rcases lookup_insert_eq_some.1 h with ⟨rfl, rfl⟩ | ⟨-, h⟩
  · exact hnew
  · exact hold h

/-! ## Weights -/

section Total

variable {w w' : α → β → ℕ} {m m' : AList fun _ : α => β}

/-- The weights of all entries together. -/
def total (w : α → β → ℕ) (m : AList fun _ : α => β) : ℕ :=
  (m.entries.map fun e => w e.1 e.2).sum

omit [DecidableEq α] in
@[simp] theorem total_empty : total w ∅ = 0 := rfl

theorem total_insert : total w (m.insert a b) = w a b + total w (m.erase a) := by
  simp only [total, AList.entries_insert, List.map_cons, List.sum_cons]
  rfl

/-- An entry's weight, and those of the other entries. -/
theorem total_of_lookup (h : m.lookup a = some b) :
    total w m = w a b + total w (m.erase a) := by
  have hmem : a ∈ m.entries.keys := by
    rw [← AList.keys, ← AList.mem_keys, ← AList.lookup_isSome, h]
    rfl
  obtain ⟨b', l₁, l₂, -, hl, hkerase⟩ := List.exists_of_kerase hmem
  have hb : m.lookup a = some b' :=
    AList.mem_lookup_iff.2 (by rw [hl]; exact List.mem_append_right _ List.mem_cons_self)
  obtain rfl := Option.some.inj (hb.symm.trans h)
  change (m.entries.map fun e => w e.1 e.2).sum =
    w a b' + ((List.kerase a m.entries).map fun e => w e.1 e.2).sum
  rw [hkerase, hl]
  simp only [List.map_append, List.map_cons, List.sum_append, List.sum_cons]
  omega

theorem total_insert_of_notMem (h : a ∉ m) : total w (m.insert a b) = w a b + total w m := by
  simp only [total, AList.entries_insert_of_notMem h, List.map_cons, List.sum_cons]

/-- Entries that are in another map too, with weights that are no less
there. -/
theorem total_le_total
    (h : ∀ {a b}, m.lookup a = some b → ∃ b', m'.lookup a = some b' ∧ w a b ≤ w' a b') :
    total w m ≤ total w' m' := by
  induction m using AList.insertRec generalizing m' with
  | H0 => exact Nat.zero_le _
  | IH a b m hnew ih =>
    obtain ⟨b', hb', hle⟩ := h (AList.lookup_insert m)
    rw [total_insert_of_notMem hnew, total_of_lookup hb']
    refine Nat.add_le_add hle (ih fun {k v} hk => ?_)
    have hne : k ≠ a := by
      rintro rfl
      exact hnew (AList.lookup_isSome.1 (by rw [hk]; rfl))
    obtain ⟨v', hv', hkle⟩ := h ((AList.lookup_insert_ne hne).trans hk)
    exact ⟨v', lookup_erase_eq_some.2 ⟨hne, hv'⟩, hkle⟩

/-- Weights that agree on every entry. -/
theorem total_congr (h : ∀ {a b}, m.lookup a = some b → w a b = w' a b) :
    total w m = total w' m := by
  refine Nat.le_antisymm (total_le_total fun {a b} hb => ?_) (total_le_total fun {a b} hb => ?_)
  · exact ⟨b, hb, Nat.le_of_eq (h hb)⟩
  · exact ⟨b, hb, Nat.le_of_eq (h hb).symm⟩

/-- An entry is replaced by one of the same weight. -/
theorem total_insert_of_eq (h : m.lookup a = some b) (hw : w a b' = w a b) :
    total w (m.insert a b') = total w m := by
  rw [total_insert, total_of_lookup h, hw]

/-- If one weight is less, or its entry gone, so is the total. -/
theorem total_lt_total
    (h : ∀ {a b}, m.lookup a = some b → ∃ b', m'.lookup a = some b' ∧ w a b ≤ w' a b')
    (ha : m'.lookup a = some b) (hpos : 0 < w' a b)
    (hlt : ∀ {c}, m.lookup a = some c → w a c < w' a b) : total w m < total w' m' := by
  have hrest : total w (m.erase a) ≤ total w' (m'.erase a) := by
    refine total_le_total fun {k v} hk => ?_
    obtain ⟨hne, hk⟩ := lookup_erase_eq_some.1 hk
    obtain ⟨v', hv', hle⟩ := h hk
    exact ⟨v', lookup_erase_eq_some.2 ⟨hne, hv'⟩, hle⟩
  rw [total_of_lookup ha]
  cases hc : m.lookup a with
  | none =>
    have hsame : m.erase a = m := by
      refine AList.ext ?_
      exact List.kerase_of_notMem_keys fun hmem => by
        have hsome := AList.lookup_isSome.2 (AList.mem_keys.2 hmem)
        rw [hc] at hsome
        cases hsome
    rw [hsame] at hrest
    omega
  | some c =>
    rw [total_of_lookup hc]
    have hless := hlt hc
    omega

end Total

/-- Items picked from a list and keyed as they were have their keys in order. -/
theorem sublist_map_filterMap {κ δ ι : Type*} {pick : κ → Option δ} (key : κ → ι) {key' : δ → ι}
    (h : ∀ {x y}, pick x = some y → key' y = key x) (xs : List κ) :
    ((xs.filterMap pick).map key').Sublist (xs.map key) := by
  induction xs with
  | nil => exact List.Sublist.slnil
  | cons x xs ih =>
    rw [List.filterMap_cons, List.map_cons]
    cases hx : pick x with
    | none => exact ih.cons _
    | some y =>
      rw [List.map_cons, h hx]
      exact ih.cons_cons _

section

variable {κ δ : Type*} [DecidableEq κ] {key : δ → κ} {xs : List δ}

theorem filter_key_eq_nil {k : κ} (h : k ∉ xs.map key) : xs.filter (key · = k) = [] := by
  refine List.filter_eq_nil_iff.2 fun x hx heq => h ?_
  exact List.mem_map.2 ⟨x, hx, by simpa using heq⟩

/-- Among items of different keys, each is the only one of its key. -/
theorem filter_key_eq_singleton (hnodup : (xs.map key).Nodup) {x : δ} (hx : x ∈ xs) :
    xs.filter (key · = key x) = [x] := by
  induction xs with
  | nil => cases hx
  | cons y xs ih =>
    obtain ⟨hnew, hnodup⟩ := List.nodup_cons.1 hnodup
    rcases List.mem_cons.1 hx with rfl | hx
    · rw [List.filter_cons_of_pos (by simp), filter_key_eq_nil hnew]
    · have hne : key y ≠ key x := fun heq => hnew (heq ▸ List.mem_map_of_mem hx)
      rw [List.filter_cons_of_neg (by simpa using hne)]
      exact ih hnodup hx

end

end Assoc
