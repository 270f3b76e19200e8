import Fracture.Registry.Steps

/-!
# Workers that leave

A worker that has announced to leave is marked draining and shut down
when no sequence is active. Until then it is still in the pipeline, and
it is still among the workers the scheduler is given. So it is left alone
as long as no sequence is admitted to a pipeline that has it and no
schedule names it; nothing in the coordinator sees to either.
-/

namespace Fracture

open Effect Layers Runs

variable {F : Type}

namespace Coordinator

open PeerRegistry

variable {cfg : CoordinatorConfig F} {links : String → Link} {st : Coordinator F} {w : String}

/-- A worker may be scheduled without being asked for again, but not while
it is draining. -/
def Spares (cfg : CoordinatorConfig F) (skip : List String) (st : Coordinator F)
    (reg : PeerRegistry F) : Prop :=
  ∀ w, st.registry.status w = some .draining →
    w ∉ scheduledIds cfg.f32 (scheduleInput cfg skip reg)

section

variable (hw : st.registry.status w = some .draining)
include hw

end

variable [DecidableEq F]

/-- Only a ready worker's own leave touches it. -/
theorem untouched_leave {id : String} (h : st.registry.status w = some .ready → w ≠ id) :
    Untouched w st (st.step cfg (.leave id)) := by
  refine untouched_of_status ?_
  by_cases hself : w = id
  · subst hself
    refine status_modify fun e hget => if_neg fun hready => h ?_ rfl
    rw [PeerRegistry.status, hget, Option.map_some, hready]
  · exact status_of_get_eq (get_modify_of_ne hself)

/-- Layers shared out evenly. -/
def evenly : CoordinatorConfig ℚ := ⟨F32.exact, fourLayers, .equalSplit, 64, true⟩

/-- Two workers that serve half of the layers each. -/
def bothServing : Coordinator ℚ :=
  { registry := twoReady, pipelineOrder := ["w1", "w2"], published := none, sent := [],
    processes := fun id => .serving (some (if id = "w1" then ⟨0, 2⟩ else ⟨2, 4⟩)) }

end Coordinator

end Fracture
