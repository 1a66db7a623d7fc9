import Mathlib.Data.PNat.Basic
import Mathlib.Tactic.Common

/-!
# Error values

Functions return the negative of an error number: of `errno`, which a call that fails
sets to a positive value (`ℕ+`), or of a number of their own.
-/

namespace Monolinux

/-- The library's own error number. -/
def EGENERAL : ℤ := 1000

def EPROTO : ℤ := 71

def ETIMEDOUT : ℤ := 110

theorem neg_errno_neg (errno : ℕ+) : -(errno : ℤ) < 0 := by
  have := errno.pos
  omega

end Monolinux
