import Fracture.Election.Winner
import Mathlib.Data.Finset.Max

/-!
# Elections that nobody wins

A node that outranks a candidate challenges it, whether it stands itself
or not, and the candidate steps back. So a candidate can step back for a
node that does not stand, and nobody leads in the end.
-/

namespace Fracture

namespace Election

open Async Runs

variable {n : ℕ} {configs : Fin n → ElectionConfig} {addr : Fin n → String} {w : Net n} {T N : ℕ}

end Election

end Fracture
