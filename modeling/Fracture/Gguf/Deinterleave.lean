import Fracture.Core.Usize
import Fracture.Gguf.Parser
import Mathlib.Data.Fintype.EquivFin

/-!
# Undoing the interleaving of query and key rows

The converter that writes model files interleaves the rows of each head of
the query and key projections: row `i` of a head's first half is stored at
`2i` and row `i` of its second half at `2i + 1`. `reverseQkPermutation`
moves the rows back, head by head, by byte offsets.
-/

namespace Fracture.Gguf

open Effect Rows

section

variable (build : Build) (data : List UInt8)

/-- A row of a head copied from where the file has it to its own place. -/
def moveRow (rowBytes headStart : ℕ) (out : List UInt8) (stored original : ℕ) :
    Except Fault (List UInt8) := do
  let src ← build.mul stored rowBytes >>= build.add headStart
  let dst ← build.mul original rowBytes >>= build.add headStart
  let dstEnd ← build.add dst rowBytes
  let _ ← slice out dst dstEnd
  let srcEnd ← build.add src rowBytes
  let row ← slice data src srcEnd
  .ok (overwrite out dst row)

/-- The two rows of a head that the body of the inner loop moves. -/
def moveRows (half rowBytes headStart : ℕ) (out : List UInt8) (i : ℕ) : Except Fault (List UInt8) :=
    do
  -- even row (2 * i) in the file, row i in the original
  let out ← moveRow build data rowBytes headStart out (2 * i) i
  -- odd row (2 * i + 1) in the file, row i + half in the original
  moveRow build data rowBytes headStart out (2 * i + 1) (i + half)

def moveHead (half rowBytes headBytes : ℕ) (out : List UInt8) (h : ℕ) : Except Fault (List UInt8) :=
    do
  let headStart ← build.mul h headBytes
  (List.range half).foldlM (moveRows build data half rowBytes headStart) out

/-- The rows of each head in their original order, for elements of two bytes. -/
def reverseQkPermutation (numHeads headDim hidden : ℕ) :
    Except Fault (List UInt8) := do
  let half := headDim / 2
  let rowBytes ← build.mul hidden 2
  let headBytes ← build.mul headDim rowBytes
  (List.range numHeads).foldlM (moveHead build data half rowBytes headBytes)
    (List.replicate data.length 0)

end

/-- The row of the file where a row of the original is stored. -/
def storedAt (headDim r : ℕ) : ℕ :=
  let half := headDim / 2
  let j := r % headDim
  r / headDim * headDim + if j < half then 2 * j else 2 * (j - half) + 1

/-! ## Moving one row -/

theorem slice_eq_window {xs : List UInt8} {start n : ℕ} (h : start + n ≤ xs.length) :
    slice xs start (start + n) = .ok (window xs start n) := by
  rw [slice, if_pos ⟨Nat.le_add_right start n, h⟩, window, List.drop_take,
    Nat.add_sub_cancel_left]

/-- A window of data that is the same byte throughout. -/
theorem window_replicate {n off w : ℕ} (b : UInt8) (h : off + w ≤ n) :
    window (List.replicate n b) off w = List.replicate w b := by
  rw [window, List.drop_replicate, List.take_replicate, Nat.min_eq_left (by omega)]

section

variable {build : Build} {data : List UInt8} {headDim w : ℕ}

/-- What the loops keep: the rows done are those of the file, the others
are still zero. -/
structure Placed (data : List UInt8) (headDim w : ℕ) (done : ℕ → Prop) (out : List UInt8) :
    Prop where
  length_eq : out.length = data.length
  moved : ∀ r, done r → r * w + w ≤ data.length →
    window out (r * w) w = window data (storedAt headDim r * w) w
  untouched : ∀ r, ¬ done r → r * w + w ≤ data.length →
    window out (r * w) w = List.replicate w 0

theorem placed_start : Placed data headDim w (fun _ => False) (List.replicate data.length 0) where
  length_eq := List.length_replicate
  moved _ h := h.elim
  untouched _ _ hr := window_replicate 0 hr

variable {done : ℕ → Prop} {out : List UInt8} (h : Placed data headDim w done out)
include h

theorem Placed.congr {done' : ℕ → Prop} (hiff : ∀ r, done' r ↔ done r) :
    Placed data headDim w done' out where
  length_eq := h.length_eq
  moved r hr := h.moved r ((hiff r).1 hr)
  untouched r hr := h.untouched r fun hdone => hr ((hiff r).2 hdone)

/-- **One row copied.** -/
theorem Placed.copy {d : ℕ} (hd : d * w + w ≤ data.length)
    (hs : storedAt headDim d * w + w ≤ data.length) :
    Placed data headDim w (fun r => done r ∨ r = d)
      (overwrite out (d * w) (window data (storedAt headDim d * w) w)) := by
  have hrow := length_window hs
  have hdst : d * w ≤ out.length := by
    rw [h.length_eq]
    omega
  -- rows do not overlap, so every other row reads as before
  have hother : ∀ r, r ≠ d →
      window (overwrite out (d * w) (window data (storedAt headDim d * w) w)) (r * w) w =
        window out (r * w) w := by
    intro r hr
    rcases Nat.lt_or_gt_of_ne hr with hlt | hgt
    · have hbefore : r * w + w ≤ d * w := by
        rw [← Nat.succ_mul]
        exact Nat.mul_le_mul_right w hlt
      exact window_overwrite_of_le hdst hbefore
    · have hbehind : d * w + w ≤ r * w := by
        rw [← Nat.succ_mul]
        exact Nat.mul_le_mul_right w hgt
      exact window_overwrite_of_ge hdst (by rw [hrow]; exact hbehind)
  refine ⟨?_, ?_, ?_⟩
  · rw [length_overwrite (by rw [hrow, h.length_eq]; exact hd), h.length_eq]
  · intro r hr hin
    by_cases hrd : r = d
    · have hself : window (overwrite out (d * w) (window data (storedAt headDim d * w) w))
          (d * w) (window data (storedAt headDim d * w) w).length =
          window data (storedAt headDim d * w) w := window_overwrite_self hdst
      rw [hrow] at hself
      rw [hrd, hself]
    · rw [hother r hrd]
      exact h.moved r (hr.resolve_right hrd) hin
  · intro r hr hin
    rw [hother r fun hrd => hr (.inr hrd)]
    exact h.untouched r (fun hdone => hr (.inl hdone)) hin

end

/-! ## The loops -/

variable {headDim : ℕ}

theorem storedAt_of_lt {j : ℕ} (h : ℕ) (hj : j < headDim) :
    storedAt headDim (h * headDim + j) =
      h * headDim + if j < headDim / 2 then 2 * j else 2 * (j - headDim / 2) + 1 := by
  have hdiv : (h * headDim + j) / headDim = h := by
    rw [Nat.mul_comm, Nat.mul_add_div (by omega), Nat.div_eq_of_lt hj, Nat.add_zero]
  have hmod : (h * headDim + j) % headDim = j := by
    rw [Nat.mul_comm, Nat.mul_add_mod, Nat.mod_eq_of_lt hj]
  rw [storedAt, hdiv, hmod]

theorem storedAt_first {i : ℕ} (h : ℕ) (hi : i < headDim / 2) :
    storedAt headDim (h * headDim + i) = h * headDim + 2 * i := by
  rw [storedAt_of_lt h (by omega), if_pos hi]

theorem storedAt_second {i : ℕ} (h : ℕ) (hi : i < headDim / 2) :
    storedAt headDim (h * headDim + (i + headDim / 2)) = h * headDim + (2 * i + 1) := by
  rw [storedAt_of_lt h (by omega), if_neg (by omega), Nat.add_sub_cancel]

/-- The heads' rows lie within so many bytes, and no offset on the way
leaves the range of a `usize`. -/
structure HeadsFit (numHeads headDim hidden len : ℕ) : Prop where
  row : hidden * 2 < 2 ^ 64
  head : headDim * (hidden * 2) < 2 ^ 64
  start : ∀ h < numHeads, h * (headDim * (hidden * 2)) < 2 ^ 64
  within : ∀ h < numHeads, 0 < headDim / 2 →
    h * (headDim * (hidden * 2)) + 2 * (headDim / 2) * (hidden * 2) ≤ len

section

variable {build : Build} {data out : List UInt8} {headDim w h : ℕ} {done : ℕ → Prop}
  (hp : Placed data headDim w done out) (hlen : data.length < 2 ^ 64)
include hp hlen

/-- One of the two copies of a turn, at the offsets the code computes. -/
theorem Placed.moveRow {stored original : ℕ}
    (hstored : storedAt headDim (h * headDim + original) = h * headDim + stored)
    (hdst : h * (headDim * w) + original * w + w ≤ data.length)
    (hsrc : h * (headDim * w) + stored * w + w ≤ data.length) :
    ∃ out', Gguf.moveRow build data w (h * (headDim * w)) out stored original = .ok out' ∧
      Placed data headDim w (fun r => done r ∨ r = h * headDim + original) out' := by
  have hd : (h * headDim + original) * w = h * (headDim * w) + original * w := by ring
  have hs : storedAt headDim (h * headDim + original) * w = h * (headDim * w) + stored * w := by
    rw [hstored]
    ring
  have hdst' : h * (headDim * w) + original * w + w ≤ out.length := by
    rw [hp.length_eq]
    exact hdst
  refine ⟨_, ?_, hp.copy (by omega) (by omega)⟩
  rw [Gguf.moveRow, Build.mul_of_lt (by omega), except_ok_bind, Build.add_of_lt (by omega),
    except_ok_bind, Build.mul_of_lt (by omega), except_ok_bind, Build.add_of_lt (by omega),
    except_ok_bind, Build.add_of_lt (by omega), except_ok_bind, slice_eq_window hdst',
    except_ok_bind, Build.add_of_lt (by omega), except_ok_bind, slice_eq_window hsrc,
    except_ok_bind, hd, hs]

/-- **One turn of the inner loop.** -/
theorem Placed.moveRows {i : ℕ} (hi : i < headDim / 2)
    (hwithin : h * (headDim * w) + 2 * (headDim / 2) * w ≤ data.length) :
    ∃ out', Gguf.moveRows build data (headDim / 2) w (h * (headDim * w)) out i = .ok out' ∧
      Placed data headDim w
        (fun r => (done r ∨ r = h * headDim + i) ∨ r = h * headDim + (i + headDim / 2)) out' := by
  -- every row of the turn is among the first `2 * half` of the head
  have hrow : ∀ j < 2 * (headDim / 2), h * (headDim * w) + j * w + w ≤ data.length := by
    intro j hj
    have hmul : (j + 1) * w ≤ 2 * (headDim / 2) * w := Nat.mul_le_mul_right w hj
    have hsucc : (j + 1) * w = j * w + w := Nat.succ_mul j w
    omega
  obtain ⟨mid, hmid, hfirst⟩ := hp.moveRow hlen (storedAt_first h hi)
    (hrow i (by omega)) (hrow (2 * i) (by omega))
  obtain ⟨out', hout', hsecond⟩ := hfirst.moveRow hlen (storedAt_second h hi)
    (hrow (i + headDim / 2) (by omega)) (hrow (2 * i + 1) (by omega))
  refine ⟨out', ?_, hsecond⟩
  rw [Gguf.moveRows, hmid, except_ok_bind, hout']

/-- **One turn of the outer loop**: the rows of a head. -/
theorem Placed.moveHead (hstart : h * (headDim * w) < 2 ^ 64)
    (hwithin : 0 < headDim / 2 → h * (headDim * w) + 2 * (headDim / 2) * w ≤ data.length) :
    ∃ out', Gguf.moveHead build data (headDim / 2) w (headDim * w) out h = .ok out' ∧
      Placed data headDim w
        (fun r => done r ∨ ∃ j < 2 * (headDim / 2), r = h * headDim + j) out' := by
  -- after `i` turns the rows below `i` of both halves are done
  obtain ⟨out', hout', hdone⟩ := Loops.exists_of_invariant
    (f := Gguf.moveRows build data (headDim / 2) w (h * (headDim * w)))
    (fun i => Placed data headDim w fun r => done r ∨
      ∃ j < i, r = h * headDim + j ∨ r = h * headDim + (j + headDim / 2))
    (hp.congr fun r => by simp) fun i hi out hinv => by
      obtain ⟨out', hout', hnext⟩ := hinv.moveRows hlen hi (hwithin (by omega))
      refine ⟨out', hout', hnext.congr fun r => ?_⟩
      rw [Nat.exists_lt_succ_right, or_assoc, or_assoc]
  refine ⟨out', ?_, hdone.congr fun r => or_congr_right ⟨?_, ?_⟩⟩
  · rw [Gguf.moveHead, Build.mul_of_lt hstart, except_ok_bind, hout']
  · rintro ⟨j, hj, rfl⟩
    rcases Nat.lt_or_ge j (headDim / 2) with hlt | hge
    · exact ⟨j, hlt, .inl rfl⟩
    · exact ⟨j - headDim / 2, by omega, .inr (by omega)⟩
  · rintro ⟨j, hj, rfl | rfl⟩
    · exact ⟨j, by omega, rfl⟩
    · exact ⟨j + headDim / 2, by omega, rfl⟩

end

variable {data : List UInt8} {numHeads hidden : ℕ}

/-- **What `reverseQkPermutation` returns.** Where the heads fit, every row
of every head but the last of an odd number is the row the file has for it;
the others are zero. -/
theorem exists_reverseQkPermutation (build : Build) (hlen : data.length < 2 ^ 64)
    (hfit : HeadsFit numHeads headDim hidden data.length) :
    ∃ out, reverseQkPermutation build data numHeads headDim hidden = .ok out ∧
      Placed data headDim (hidden * 2)
        (fun r => ∃ h < numHeads, ∃ j < 2 * (headDim / 2), r = h * headDim + j) out := by
  obtain ⟨out, hout, hdone⟩ := Loops.exists_of_invariant
    (f := moveHead build data (headDim / 2) (hidden * 2) (headDim * (hidden * 2)))
    (fun n => Placed data headDim (hidden * 2) fun r =>
      ∃ h < n, ∃ j < 2 * (headDim / 2), r = h * headDim + j)
    (placed_start.congr fun r => by simp) fun n hn out hinv => by
      obtain ⟨out', hout', hnext⟩ := hinv.moveHead hlen (hfit.start n hn) (hfit.within n hn)
      exact ⟨out', hout', hnext.congr fun r => Nat.exists_lt_succ_right⟩
  refine ⟨out, ?_, hdone⟩
  rw [reverseQkPermutation, Build.mul_of_lt hfit.row, except_ok_bind, Build.mul_of_lt hfit.head,
    except_ok_bind, hout]

/-! ## What a successful run tells -/

theorem within_of_slice {xs ys : List UInt8} {start stop : ℕ} (h : slice xs start stop = .ok ys) :
    stop ≤ xs.length := by
  unfold slice at h
  split at h
  case isTrue hin => exact hin.2
  case isFalse => cases h

theorem within_of_moveRow {out out' : List UInt8} {w headStart stored original : ℕ}
    (h : moveRow .debug data w headStart out stored original = .ok out') :
    headStart + stored * w + w ≤ data.length := by
  obtain ⟨src, hsrc, h⟩ := except_bind_eq_ok.1 h
  obtain ⟨m, hm, hsrc⟩ := except_bind_eq_ok.1 hsrc
  obtain ⟨-, rfl⟩ := Build.debug_mul_eq_ok.1 hm
  obtain ⟨-, rfl⟩ := Build.debug_add_eq_ok.1 hsrc
  obtain ⟨dst, -, h⟩ := except_bind_eq_ok.1 h
  obtain ⟨dstEnd, -, h⟩ := except_bind_eq_ok.1 h
  obtain ⟨_, -, h⟩ := except_bind_eq_ok.1 h
  obtain ⟨srcEnd, hend, h⟩ := except_bind_eq_ok.1 h
  obtain ⟨-, rfl⟩ := Build.debug_add_eq_ok.1 hend
  obtain ⟨row, hrow, -⟩ := except_bind_eq_ok.1 h
  exact within_of_slice hrow

/-- In a debug build nothing but fitting heads comes through. -/
theorem headsFit_of_debug {out : List UInt8}
    (h : reverseQkPermutation .debug data numHeads headDim hidden = .ok out) :
    HeadsFit numHeads headDim hidden data.length := by
  obtain ⟨w, hw, h⟩ := except_bind_eq_ok.1 h
  obtain ⟨hrow, rfl⟩ := Build.debug_mul_eq_ok.1 hw
  obtain ⟨headBytes, hmul, h⟩ := except_bind_eq_ok.1 h
  obtain ⟨hhead, rfl⟩ := Build.debug_mul_eq_ok.1 hmul
  refine ⟨hrow, hhead, ?_, ?_⟩
  · intro k hk
    obtain ⟨before, after, hmove⟩ := Loops.exists_step h hk
    obtain ⟨headStart, hstart, -⟩ := except_bind_eq_ok.1 hmove
    exact (Build.debug_mul_eq_ok.1 hstart).1
  · intro k hk hhalf
    obtain ⟨before, after, hmove⟩ := Loops.exists_step h hk
    obtain ⟨headStart, hstart, hrows⟩ := except_bind_eq_ok.1 hmove
    obtain ⟨-, rfl⟩ := Build.debug_mul_eq_ok.1 hstart
    -- the last turn of the head reads its highest row
    have hlast : headDim / 2 - 1 < headDim / 2 := by omega
    obtain ⟨before, after, hturn⟩ := Loops.exists_step hrows hlast
    obtain ⟨mid, -, hsecond⟩ := except_bind_eq_ok.1 hturn
    have hin := within_of_moveRow hsecond
    have hrows : 2 * (headDim / 2) = 2 * (headDim / 2 - 1) + 1 + 1 := by omega
    rw [hrows, Nat.succ_mul, ← Nat.add_assoc]
    exact hin

theorem onlyPanics_slice (xs : List UInt8) (start stop : ℕ) : OnlyPanics (slice xs start stop) := by
  unfold slice
  split
  · exact .ok _
  · exact .panicked _

theorem onlyPanics_moveRow (build : Build) (data out : List UInt8)
    (w headStart stored original : ℕ) :
    OnlyPanics (moveRow build data w headStart out stored original) := by
  have hoffset : ∀ r, OnlyPanics (build.mul r w >>= build.add headStart) := by
    intro r
    exact (build.onlyPanics_mul r w).bind fun m => build.onlyPanics_add headStart m
  refine (hoffset stored).bind fun src => (hoffset original).bind fun dst => ?_
  refine (build.onlyPanics_add dst w).bind fun dstEnd => ?_
  refine (onlyPanics_slice out dst dstEnd).bind fun _ => ?_
  refine (build.onlyPanics_add src w).bind fun srcEnd => ?_
  exact (onlyPanics_slice data src srcEnd).bind fun row => .ok _

/-- The permutation reports no errors. -/
theorem onlyPanics_reverseQkPermutation (build : Build) (data : List UInt8)
    (numHeads headDim hidden : ℕ) :
    OnlyPanics (reverseQkPermutation build data numHeads headDim hidden) := by
  refine (build.onlyPanics_mul hidden 2).bind fun w => ?_
  refine (build.onlyPanics_mul headDim w).bind fun headBytes => ?_
  refine OnlyPanics.foldlM (fun out h => ?_) _ _
  refine (build.onlyPanics_mul h headBytes).bind fun headStart => ?_
  refine OnlyPanics.foldlM (fun out i => ?_) _ _
  exact (onlyPanics_moveRow build data out w headStart (2 * i) i).bind fun mid =>
    onlyPanics_moveRow build data mid w headStart (2 * i + 1) (i + headDim / 2)

/-! ## A permutation of the rows -/

section

variable {numHeads headDim r : ℕ}

section

variable (heven : Even headDim) (hr : r < numHeads * headDim)
include heven hr

/-- A row of an even head is stored in the same head. -/
theorem exists_storedAt :
    ∃ h < numHeads, ∃ j < headDim, r = h * headDim + j ∧
      2 * (headDim / 2) = headDim ∧
      storedAt headDim r =
        h * headDim + if j < headDim / 2 then 2 * j else 2 * (j - headDim / 2) + 1 := by
  have hpos : 0 < headDim := Nat.pos_of_lt_mul_left hr
  have hj : r % headDim < headDim := Nat.mod_lt r hpos
  have hsplit : r = r / headDim * headDim + r % headDim := (Nat.div_add_mod' r headDim).symm
  refine ⟨r / headDim, Nat.div_lt_of_lt_mul (by rwa [Nat.mul_comm]), r % headDim, hj, hsplit,
    Nat.two_mul_div_two_of_even heven, ?_⟩
  rw [← storedAt_of_lt _ hj, ← hsplit]

theorem storedAt_div :
    storedAt headDim r / headDim = r / headDim := by
  obtain ⟨h, -, j, hj, rfl, htwo, hstored⟩ := exists_storedAt heven hr
  have hj' : (if j < headDim / 2 then 2 * j else 2 * (j - headDim / 2) + 1) < headDim := by
    split <;> omega
  have hpos : 0 < headDim := by omega
  rw [hstored, Nat.mul_comm, Nat.mul_add_div hpos, Nat.mul_add_div hpos, Nat.div_eq_of_lt hj,
    Nat.div_eq_of_lt hj']

theorem storedAt_lt :
    storedAt headDim r < numHeads * headDim := by
  have hpos : 0 < headDim := Nat.pos_of_lt_mul_left hr
  rw [← Nat.div_lt_iff_lt_mul hpos, storedAt_div heven hr, Nat.div_lt_iff_lt_mul hpos]
  exact hr

end

theorem storedAt_injective (heven : Even headDim) {r' : ℕ} (hr : r < numHeads * headDim)
    (hr' : r' < numHeads * headDim) (heq : storedAt headDim r = storedAt headDim r') : r = r' := by
  have hhead : r / headDim = r' / headDim := by
    rw [← storedAt_div heven hr, heq, storedAt_div heven hr']
  have hpos : 0 < headDim := Nat.pos_of_lt_mul_left hr
  have htwo : 2 * (headDim / 2) = headDim := Nat.two_mul_div_two_of_even heven
  have hj : r % headDim < headDim := Nat.mod_lt r hpos
  have hj' : r' % headDim < headDim := Nat.mod_lt r' hpos
  -- within a head, even places hold the first half and odd places the second
  have hmod : r % headDim = r' % headDim := by
    simp only [storedAt, hhead] at heq
    have hplace := Nat.add_left_cancel heq
    split at hplace <;> split at hplace <;> omega
  rw [← Nat.div_add_mod r headDim, ← Nat.div_add_mod r' headDim, hhead, hmod]

/-- The rows of all heads, each taken to where it is stored. -/
noncomputable def storedPerm (heven : Even headDim) : Equiv.Perm (Fin (numHeads * headDim)) :=
  Equiv.ofBijective (fun r => ⟨storedAt headDim r, storedAt_lt heven r.isLt⟩)
    (Finite.injective_iff_bijective.1 fun r r' heq =>
      Fin.ext (storedAt_injective heven r.isLt r'.isLt (congrArg Fin.val heq)))

@[simp] theorem storedPerm_val (heven : Even headDim) (r : Fin (numHeads * headDim)) :
    (storedPerm heven r).val = storedAt headDim r := rfl

end

/-- `reverseQkPermutation` on data of all heads' rows is a permutation of the
rows that stays within each head and undoes the interleaving: `σ` takes a row
of the original to the row of the file that holds it. -/
def UndoesInterleaving (build : Build) (numHeads headDim hidden : ℕ) : Prop :=
  ∃ σ : Equiv.Perm (Fin (numHeads * headDim)),
    (∀ r, (σ r).val / headDim = r.val / headDim) ∧
    (∀ h < numHeads, ∀ i < headDim / 2, ∀ r,
      (r.val = h * headDim + i → (σ r).val = h * headDim + 2 * i) ∧
      (r.val = h * headDim + (i + headDim / 2) → (σ r).val = h * headDim + (2 * i + 1))) ∧
    ∀ data : List UInt8, data.length = numHeads * headDim * (hidden * 2) →
      ∃ out, reverseQkPermutation build data numHeads headDim hidden = .ok out ∧
        out.length = data.length ∧
        ∀ r, window out (r.val * (hidden * 2)) (hidden * 2) =
          window data ((σ r).val * (hidden * 2)) (hidden * 2)

/-- Data of all the rows has room for every head. -/
theorem headsFit_of_rows {len : ℕ} (hrow : hidden * 2 < 2 ^ 64) (hheads : 0 < numHeads)
    (hrows : numHeads * headDim * (hidden * 2) ≤ len) (hlen : len < 2 ^ 64) :
    HeadsFit numHeads headDim hidden len := by
  have hhead : ∀ h < numHeads,
      h * (headDim * (hidden * 2)) + headDim * (hidden * 2) ≤ len := by
    intro h hh
    have hmul : (h + 1) * (headDim * (hidden * 2)) ≤ numHeads * (headDim * (hidden * 2)) :=
      Nat.mul_le_mul_right _ hh
    rw [Nat.succ_mul, ← Nat.mul_assoc numHeads] at hmul
    exact Nat.le_trans hmul hrows
  refine ⟨hrow, ?_, ?_, ?_⟩
  · have := hhead 0 hheads
    omega
  · intro h hh
    have := hhead h hh
    omega
  · intro h hh _
    have hhalf : 2 * (headDim / 2) * (hidden * 2) ≤ headDim * (hidden * 2) :=
      Nat.mul_le_mul_right _ (Nat.mul_div_le headDim 2)
    have := hhead h hh
    omega

/-- The part of the check on a configuration that speaks of heads. -/
theorem ModelConfig.pos_of_validate {F : Type} {f64 : F64 F} {c : ModelConfig F}
    (h : c.validate f64 = .ok ()) : 0 < c.hiddenSize ∧ 0 < c.numQHeads ∧ 0 < c.numKvHeads := by
  obtain ⟨hhidden, h⟩ := except_guard_eq_ok.1 h
  obtain ⟨-, h⟩ := except_guard_eq_ok.1 h
  obtain ⟨hq, h⟩ := except_guard_eq_ok.1 h
  obtain ⟨hkv, -⟩ := except_guard_eq_ok.1 h
  exact ⟨Nat.pos_of_ne_zero hhidden, Nat.pos_of_ne_zero hq, Nat.pos_of_ne_zero hkv⟩

/-- **Undoing the interleaving.** On data of all the rows of a checked
configuration's heads, the rows are permuted back exactly where a head has
an even number of them. -/
theorem undoesInterleaving_iff_even {F : Type} {f64 : F64 F} {c : ModelConfig F}
    (hvalid : c.validate f64 = .ok ()) {numHeads : ℕ}
    (hheads : numHeads = c.numQHeads ∨ numHeads = c.numKvHeads)
    (hlen : numHeads * c.headDim * (c.hiddenSize * 2) < 2 ^ 64) :
    (∀ build, UndoesInterleaving build numHeads c.headDim c.hiddenSize) ↔
      Even c.headDim ∧ c.hiddenSize * 2 < 2 ^ 64 := by
  obtain ⟨hhidden, hq, hkv⟩ := ModelConfig.pos_of_validate hvalid
  have hpos : 0 < numHeads := by omega
  constructor
  · intro h
    obtain ⟨σ, -, -, hall⟩ := h .debug
    obtain ⟨out, hout, -, hrows⟩ := hall
      (List.replicate (numHeads * c.headDim * (c.hiddenSize * 2)) 1) List.length_replicate
    have hfit := headsFit_of_debug hout
    refine ⟨?_, hfit.row⟩
    by_contra hodd
    rw [Nat.not_even_iff_odd] at hodd
    have htwo : 2 * (c.headDim / 2) + 1 = c.headDim := Nat.two_mul_div_two_add_one_of_odd hodd
    -- the last row of the first head is never written
    have hlast : c.headDim - 1 < numHeads * c.headDim := by
      have := Nat.le_mul_of_pos_left c.headDim hpos
      omega
    obtain ⟨out', hout', hplaced⟩ :=
      exists_reverseQkPermutation .debug (by rwa [List.length_replicate]) hfit
    obtain rfl : out = out' := Except.ok.inj (hout.symm.trans hout')
    have hinside : ∀ r < numHeads * c.headDim, r * (c.hiddenSize * 2) + c.hiddenSize * 2 ≤
        numHeads * c.headDim * (c.hiddenSize * 2) := by
      intro r hr
      rw [← Nat.succ_mul]
      exact Nat.mul_le_mul_right _ hr
    have hzero := hplaced.untouched (c.headDim - 1) (by
      rintro ⟨h, -, j, hj, heq⟩
      rcases Nat.eq_zero_or_pos h with rfl | hh
      · omega
      · have := Nat.le_mul_of_pos_left c.headDim hh
        omega) (by rw [List.length_replicate]; exact hinside _ hlast)
    have hone := hrows ⟨c.headDim - 1, hlast⟩
    rw [hzero, window_replicate 1 (hinside _ (σ _).isLt)] at hone
    have hsame := List.eq_of_mem_replicate
      (hone ▸ List.mem_replicate.2 ⟨by omega, rfl⟩ : (0 : UInt8) ∈ List.replicate _ 1)
    exact absurd hsame (by decide)
  · rintro ⟨heven, hrow⟩ build
    refine ⟨storedPerm heven, fun r => storedAt_div heven r.isLt, ?_, ?_⟩
    · intro h hh i hi r
      refine ⟨fun hr => ?_, fun hr => ?_⟩
      · rw [storedPerm_val, hr, storedAt_first h hi]
      · rw [storedPerm_val, hr, storedAt_second h hi]
    · intro data hdata
      have hfit := headsFit_of_rows hrow hpos (Nat.le_of_eq hdata.symm) (hdata ▸ hlen)
      obtain ⟨out, hout, hplaced⟩ :=
        exists_reverseQkPermutation build (hdata ▸ hlen) hfit
      refine ⟨out, hout, hplaced.length_eq, fun r => hplaced.moved r.val ?_ ?_⟩
      · obtain ⟨h, hh, j, hj, hr, htwo, -⟩ := exists_storedAt heven r.isLt
        exact ⟨h, hh, j, by omega, hr⟩
      · rw [hdata, ← Nat.succ_mul]
        exact Nat.mul_le_mul_right _ r.isLt

theorem undoesInterleaving_small :
    ModelConfig.validate F64.exact ⟨8, 1, 2, 2, 4, 8, 4, 500000, 1, 8192⟩ = .ok () ∧
      ∀ build, UndoesInterleaving build 2 4 8 := by
  have hvalid : ModelConfig.validate F64.exact ⟨8, 1, 2, 2, 4, 8, 4, 500000, 1, 8192⟩ = .ok () := by
    decide +kernel
  exact ⟨hvalid, (undoesInterleaving_iff_even hvalid (.inl rfl) (by decide)).2
    ⟨⟨2, rfl⟩, by decide⟩⟩

/-- With three rows to a head the check passes and the last row is lost. -/
theorem odd_head_loses_row :
    ModelConfig.validate F64.exact ⟨3, 1, 1, 1, 3, 8, 4, 500000, 1, 8192⟩ = .ok () ∧
      reverseQkPermutation .release
        [1, 1, 1, 1, 1, 1, 2, 2, 2, 2, 2, 2, 3, 3, 3, 3, 3, 3] 1 3 3 =
        .ok [1, 1, 1, 1, 1, 1, 2, 2, 2, 2, 2, 2, 0, 0, 0, 0, 0, 0] := by
  decide +kernel

end Fracture.Gguf
