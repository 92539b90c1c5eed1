import Mathlib.Tactic

/-!
# Extents

An extent is a piece of memory: an address and a length. A list of extents is
inside a buffer when each of their bytes is.
-/

namespace MemEC.Lib

/-- The `length` bytes from `address` on. -/
structure Extent where
  address : ℕ
  length : ℕ
deriving DecidableEq

variable {size : ℕ} {e : Extent} {l l' : List Extent}

end MemEC.Lib
