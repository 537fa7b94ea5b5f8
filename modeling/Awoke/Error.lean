/-
The error codes the library and the applications return.

`awoke_error.h` numbers them; the numbers matter where a code travels on the wire
as a byte.  The library still spells a few of them with the older `et_` prefix,
which the header no longer lists; these keep their own names here and take the
number of the code that replaced them, or of the one nearest to it.
-/
import Mathlib.Data.UInt
import Mathlib.Tactic.Ring

namespace Awoke

/-- `err_type`, as far as the modelled functions return it. -/
inductive ErrType
  | etOk
  | etUnfinished
  | errParam
  | errExist
  | errNotfind
  | errFull
  | errEmpty
  | errNotsupport
  | errMatch
  | errChecksum
  | errUnfinished
  | errIncomplete
  | etFull
  | etEmpty
  | etParam
  | etExist
  | etMemLimit
  | etFail
  | etFileOpen
  | etFileSend
  | etSockSend
  | etSockRecv
  | etSockConn
  | etNomem
  | etParser
  deriving DecidableEq, Repr

/-- The number behind a code. -/
def ErrType.value : ErrType → Nat
  | .etOk => 0
  | .etUnfinished => 2
  | .errParam | .etParam => 11
  | .errExist | .etExist => 14
  | .errNotfind => 15
  | .errFull | .etFull => 16
  | .errEmpty | .etEmpty => 17
  | .errNotsupport => 21
  | .errMatch => 22
  | .errChecksum => 23
  | .errUnfinished => 27
  | .errIncomplete => 28
  | .etMemLimit => 13
  | .etFail => 24
  | .etFileOpen => 25
  | .etFileSend => 26
  | .etSockSend => 26
  | .etSockRecv => 24
  | .etSockConn => 29
  | .etNomem => 13
  | .etParser => 10

/-- `mask_exst(mask, flag)`: some bit of `flag` is set in `mask`. -/
def maskExst {w : Nat} (mask flag : BitVec w) : Bool := mask &&& flag != 0

/-- `mask_push(mask, flag)`: set the bits of `flag`. -/
def maskPush {w : Nat} (mask flag : BitVec w) : BitVec w := mask ||| flag

/-- `mask_pull(mask, flag)`: take the bits of `flag` out. -/
def maskPull {w : Nat} (mask flag : BitVec w) : BitVec w := mask &&& ~~~flag

/-- A flag that was taken out is not set. -/
@[simp] theorem maskExst_pull {w : Nat} (mask flag : BitVec w) :
    maskExst (maskPull mask flag) flag = false := by
  have hnone : mask &&& ~~~flag &&& flag = 0 := by
    rw [BitVec.and_assoc, BitVec.not_and_self]
    exact BitVec.and_zero
  rw [maskExst, maskPull, hnone, bne_self_eq_false]

/-- A flag is set in a pushed mask when it was set before or is pushed. -/
theorem maskExst_push {w : Nat} (mask more flag : BitVec w) :
    maskExst (maskPush mask more) flag = (maskExst mask flag || maskExst more flag) := by
  rw [Bool.eq_iff_iff, Bool.or_eq_true]
  simp only [maskExst, maskPush, bne_iff_ne, ne_eq, BitVec.and_or_distrib_right,
    BitVec.ofNat_eq_ofNat, BitVec.or_eq_zero_iff]
  exact Classical.not_and_iff_not_or_not

end Awoke
