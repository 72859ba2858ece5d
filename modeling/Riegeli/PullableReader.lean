import Riegeli.Base

/-! `PullableReader` of `pullable_reader.cc`: the scratch layer that serves contiguous
views across a fragmented source. Buffer pointers are an index model (`buffer` is
`[start, limit)`, `cursor` is `start_to_cursor()`). The subclass below the scratch layer
is a source exposing one fragment per `PullBehindScratch()`. Each hook first checks the
precondition the code asserts; a failed check sets the ghost flag `hookFault`, where a
debug build would abort and a release build goes on. -/
namespace Riegeli

/-- The subclass under the scratch layer: at limit position `p` `PullBehindScratch()` exposes
`data[p, p + max 1 (fragment p))`, so every partition of `data` into fragments is one. -/
structure Source where
  data : List Char
  fragment : Nat → Nat
  supportsRandomAccess : Bool

structure Config where
  maxBytesToCopy : Nat
  maxBufferSize : Nat
  maxBufferSize_pos : 0 < maxBufferSize
  /-- Length of the span `AppendBuffer(min, recommended, max)` of the scratch buffer. -/
  scratchAppend : Nat → Nat → Nat → Nat
  chainAppend : Nat → Nat → Nat → Nat
  /-- `Buffer::Reset(n)` followed by `capacity()`. -/
  bufferCapacity : Nat → Nat

/-- An `AppendBuffer` span length, within the `[min, max]` that `AppendBuffer` guarantees. -/
def appendLength (f : Nat → Nat → Nat → Nat) (minLength recommendedLength maxLength : Nat) : Nat :=
  max minLength (min (f minLength recommendedLength maxLength) maxLength)

/-- `PullableReader::Scratch`; a cleared scratch, never read until refilled, is `none`. -/
structure Scratch where
  buffer : List Char
  originalStart : List Char
  originalStartToCursor : Nat
  deriving DecidableEq, Repr

structure PullableReader where
  /-- `[start, limit)`. -/
  buffer : List Char
  /-- `start_to_cursor()`. -/
  cursor : Nat
  limitPos : Nat
  scratch : Option Scratch
  status : Status
  isOpen : Bool
  /-- Ghost: some hook was entered with its asserted precondition false. -/
  hookFault : Bool
  deriving DecidableEq, Repr

namespace PullableReader

def fresh : PullableReader :=
  { buffer := [], cursor := 0, limitPos := 0, scratch := none, status := .ok, isOpen := true,
    hookFault := false }

def available (r : PullableReader) : Nat := r.buffer.length - r.cursor
def pos (r : PullableReader) : Nat := r.limitPos - r.available
def startPos (r : PullableReader) : Nat := r.limitPos - r.buffer.length
/-- The contiguous view `[cursor, limit)`. -/
def view (r : PullableReader) : List Char := r.buffer.drop r.cursor
def healthy (r : PullableReader) : Bool := r.status = .ok
/-- Modelled from the spec: scratch is used iff `start` points into `scratch.buffer`. -/
def scratchUsed (r : PullableReader) : Bool := r.scratch.isSome

def moveCursor (n : Nat) (r : PullableReader) : PullableReader := { r with cursor := r.cursor + n }

/-- `set_cursor(limit() - (limit_pos() - new_pos))`: the cursor at position `new_pos`. -/
def seekInBuffer (newPos : Nat) (r : PullableReader) : PullableReader :=
  { r with cursor := r.buffer.length - (r.limitPos - newPos) }

/-- Modelled from the spec: a terminal failure keeps `pos()` and empties the buffer. -/
def fail (status : Status) (r : PullableReader) : PullableReader :=
  { r with status := status, buffer := [], cursor := 0, limitPos := r.pos }

/-- A hook's precondition assertion. -/
def checkHook (pre : Prop) [Decidable pre] (r : PullableReader) : PullableReader :=
  { r with hookFault := r.hookFault || !decide pre }

@[simp] theorem length_view (r : PullableReader) : r.view.length = r.available := List.length_drop _ _

@[simp] theorem moveCursor_buffer (n : Nat) (r : PullableReader) : (r.moveCursor n).buffer = r.buffer := rfl
@[simp] theorem moveCursor_cursor (n : Nat) (r : PullableReader) :
    (r.moveCursor n).cursor = r.cursor + n := rfl
@[simp] theorem moveCursor_limitPos (n : Nat) (r : PullableReader) :
    (r.moveCursor n).limitPos = r.limitPos := rfl
@[simp] theorem moveCursor_scratch (n : Nat) (r : PullableReader) :
    (r.moveCursor n).scratch = r.scratch := rfl
@[simp] theorem moveCursor_status (n : Nat) (r : PullableReader) :
    (r.moveCursor n).status = r.status := rfl
@[simp] theorem moveCursor_hookFault (n : Nat) (r : PullableReader) :
    (r.moveCursor n).hookFault = r.hookFault := rfl
@[simp] theorem checkHook_buffer (p : Prop) [Decidable p] (r : PullableReader) :
    (r.checkHook p).buffer = r.buffer := rfl
@[simp] theorem checkHook_cursor (p : Prop) [Decidable p] (r : PullableReader) :
    (r.checkHook p).cursor = r.cursor := rfl
@[simp] theorem checkHook_limitPos (p : Prop) [Decidable p] (r : PullableReader) :
    (r.checkHook p).limitPos = r.limitPos := rfl
@[simp] theorem checkHook_scratch (p : Prop) [Decidable p] (r : PullableReader) :
    (r.checkHook p).scratch = r.scratch := rfl
@[simp] theorem checkHook_status (p : Prop) [Decidable p] (r : PullableReader) :
    (r.checkHook p).status = r.status := rfl
@[simp] theorem checkHook_hookFault (p : Prop) [Decidable p] (r : PullableReader) :
    (r.checkHook p).hookFault = false ↔ r.hookFault = false ∧ p := by
  simp [checkHook]

/-- `SyncScratch()`: leave scratch for the underlying buffer, at the end of the scratch. -/
def syncScratch (r : PullableReader) : PullableReader :=
  match r.scratch with
  | some sc =>
    let r := { r with scratch := none, buffer := sc.originalStart, cursor := sc.originalStartToCursor }
    { r with limitPos := r.limitPos + r.available }
  | none => r

/-- `ScratchEnds()`: leave scratch, rewinding onto the unread bytes if the buffer still has them. -/
def scratchEnds (r : PullableReader) : Bool × PullableReader :=
  match r.scratch with
  | some sc =>
    if r.available ≤ sc.originalStartToCursor then
      let u := syncScratch r
      (true, { u with cursor := u.cursor - r.available })
    else (false, r)
  | none => (false, r)

/-- `scratch_used() && !ScratchEnds()`, with the side effect of `ScratchEnds()`. -/
def scratchPending (r : PullableReader) : Bool × PullableReader :=
  if r.scratchUsed then
    let (ends, r) := scratchEnds r
    (!ends, r)
  else (false, r)

/-- `BehindScratch::Enter()`: hide the scratch, keeping it with `read_from_scratch_`. -/
def behindScratchEnter (r : PullableReader) : Option (Scratch × Nat) × PullableReader :=
  match r.scratch with
  | some sc =>
    let u := { r with scratch := none, buffer := sc.originalStart, cursor := sc.originalStartToCursor }
    (some (sc, r.cursor), { u with limitPos := u.limitPos + u.available })
  | none => (none, r)

/-- The common tail of `PullSlow()` and `BehindScratch::Leave()`: serve `buffer` from scratch. -/
def installScratch (buffer : List Char) (cursor : Nat) (r : PullableReader) : PullableReader :=
  let r := { r with limitPos := r.pos }
  let sc : Scratch := { buffer := buffer, originalStart := r.buffer, originalStartToCursor := r.cursor }
  { r with buffer := buffer, cursor := cursor, scratch := some sc }

def behindScratchLeave (saved : Scratch × Nat) (r : PullableReader) : PullableReader :=
  installScratch saved.1.buffer saved.2 r

def behindScratch (hook : PullableReader → PullableReader) (r : PullableReader) : PullableReader :=
  match behindScratchEnter r with
  | (some saved, u) => behindScratchLeave saved (hook u)
  | (none, u) => u

end PullableReader

end Riegeli
