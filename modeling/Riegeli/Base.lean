import Mathlib.Order.Basic
import Mathlib.Data.List.Basic
import Mathlib.Algebra.Group.Nat.Basic

/-! Positions, statuses and windows of a flat byte string, shared by every model below.
Positions are `Nat`; the 64-bit limits of the code are named constants, and every
place where the code guards against overflow compares against them explicitly. -/
namespace Riegeli

/-- `std::numeric_limits<Position>::max()`, also the largest `size_t`. -/
def maxPosition : Nat := 2 ^ 64 - 1

/-- `std::numeric_limits<std::streamoff>::max()`, equally `INT64_MAX`. -/
def maxStreamOff : Nat := 2 ^ 63 - 1

def saturatingAdd (a b : Nat) : Nat := min (a + b) maxPosition

/-- Canonical error kinds that the modelled code produces. -/
inductive StatusCode
  | invalidArgument
  | unimplemented
  | resourceExhausted
  | unknown
  /-- `ErrnoToCanonicalStatus(errno, _)` for a nonzero `errno`. -/
  | ofErrno (errno : Nat)
  deriving DecidableEq, Repr

inductive Status
  | ok
  | failed (code : StatusCode) (message : String)
  deriving DecidableEq, Repr

/-- Modelled from the spec: `FailOverflow()` is not under src/; the spec gives its kind,
resource-exhausted, for an overflow of 64-bit position arithmetic. -/
def Status.overflow : Status := .failed .resourceExhausted "Position overflow"

/-- `S[a, b)`: the bytes of `S` from position `a` up to position `b`. -/
def slice (S : List Char) (a b : Nat) : List Char := (S.drop a).take (b - a)

section Slice
variable {S : List Char} {a b c n : Nat}

@[simp] theorem length_slice : (slice S a b).length = min (b - a) (S.length - a) := by
  simp [slice]

@[simp] theorem slice_self : slice S a a = [] := by simp [slice]

theorem slice_append_slice (hab : a ≤ b) (hbc : b ≤ c) :
    slice S a b ++ slice S b c = slice S a c := by
  have hc : c - a = (b - a) + (c - b) := by omega
  have hb : b = a + (b - a) := by omega
  rw [slice, slice, slice, hc, List.take_add, List.drop_drop, ← hb]

theorem drop_slice : (slice S a b).drop n = slice S (a + n) b := by
  simp only [slice, List.drop_take, List.drop_drop, Nat.sub_sub]

theorem take_slice : (slice S a b).take n = slice S a (a + min n (b - a)) := by
  simp only [slice, List.take_take, Nat.add_sub_cancel_left]

theorem slice_min_length : slice S a (min b S.length) = slice S a b := by
  simp only [slice]
  rcases le_total b S.length with h | h
  · rw [min_eq_left h]
  · rw [min_eq_right h, List.take_of_length_le (by simp),
      List.take_of_length_le (by simp; omega)]

end Slice

end Riegeli
