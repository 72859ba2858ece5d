import Riegeli.Base
import Mathlib.Algebra.Group.Int

/-! The `fopencookie()` callbacks of `writer_cfile.cc`. The cookie drives a `Writer`, and the
`Reader` its `ReadMode()` returns, through the operations of `Backend`, whose answers are
oracles. `errno` is the last value a callback stored. An `int64_t` offset is an integer in
`[minInt64, maxInt64]`, and the one `int64_t` expression that can overflow, `-offset`, is
evaluated by `negInt64`, which reports the overflow. -/
namespace Riegeli
namespace WriterCFile

def maxInt64 : Nat := 2 ^ 63 - 1

def minInt64 : Int := -2 ^ 63

/-- Values the callbacks store in `errno`. -/
inductive Errno
  | einval
  | espipe
  /-- `StatusCodeToErrno(code)`. -/
  | ofStatus (code : StatusCode)
  deriving DecidableEq, Repr

inductive Whence
  | seekSet
  | seekCur
  | seekEnd
  deriving DecidableEq, Repr

/-- `-x` on `int64_t`: `none` where the negation overflows, which is undefined behaviour. -/
def negInt64 (x : Int) : Option Int := if x = minInt64 then none else some (-x)

@[simp] theorem negInt64_minInt64 : negInt64 minInt64 = none := if_pos rfl

theorem negInt64_of_ne {x : Int} (h : x ≠ minInt64) : negInt64 x = some (-x) := if_neg h

inductive SeekTarget
  | target (newPos : Nat)
  | rejected (errno : Errno)
  | undefined
  deriving DecidableEq, Repr

def seekSetTarget (offset : Int) : SeekTarget :=
  if offset < 0 then .rejected .einval else .target offset.toNat

def seekCurTarget (offset : Int) (current : Nat) : SeekTarget :=
  if offset < 0 then
    match negInt64 offset with
    | none => .undefined
    | some m =>
      if current < m.toNat then .rejected .einval
      else if maxInt64 < current - m.toNat then .rejected .einval
      else .target (current - m.toNat)
  else if maxInt64 < current ∨ maxInt64 - current < offset.toNat then .rejected .einval
  else .target (current + offset.toNat)

def seekEndTarget (offset : Int) (size : Nat) : SeekTarget :=
  if 0 < offset then .rejected .einval
  else
    match negInt64 offset with
    | none => .undefined
    | some m =>
      if size < m.toNat then .rejected .einval
      else if maxInt64 < size - m.toNat then .rejected .einval
      else .target (size - m.toNat)

/-- The operations of the `Writer` under the cookie, and of the `Reader` of its `ReadMode()`. -/
structure Backend (W R : Type) where
  writerPos : W → Nat
  writerOk : W → Bool
  writerCode : W → StatusCode
  writerSeek : Nat → W → Bool × W
  writerWrite : List Char → W → Bool × W
  writerFlush : W → Bool × W
  writerSize : W → Option Nat × W
  readMode : Nat → W → Option R × W
  supportsRandomAccess : W → Bool
  supportsReadMode : W → Bool
  writerSupportsSize : W → Bool
  readerPos : R → Nat
  readerOk : R → Bool
  readerCode : R → StatusCode
  available : R → Nat
  pull : Nat → Nat → R → Bool × R
  readerRead : Nat → R → Bool × List Char × R
  readerSeek : Nat → R → Bool × R
  readerSize : R → Option Nat × R
  readerSupportsSize : R → Bool

/-- `WriterCFileCookieBase`, with `errno`. -/
structure Cookie (W R : Type) where
  writer : W
  reader : Option R
  flushes : Bool
  errno : Option Errno

variable {W R : Type} (B : Backend W R)

/-- `errno` for a failed operation: from the status when not `ok()`, else `EINVAL`. -/
def failureErrno (ok : Bool) (code : StatusCode) : Errno := if ok then .einval else .ofStatus code

def readFrom (length : Nat) (r : R) (c : Cookie W R) : Int × List Char × Cookie W R :=
  match B.pull 1 length r with
  | (false, r) => (0, [], { c with reader := some r })
  | (true, r) =>
    let length := min length (B.available r)
    let posBefore := B.readerPos r
    match B.readerRead length r with
    | (true, out, r) => (length, out, { c with reader := some r })
    | (false, out, r) =>
      let c := { c with reader := some r }
      let lengthRead := B.readerPos r - posBefore
      if 0 < lengthRead then (lengthRead, out, c)
      else if ¬B.readerOk r then (-1, out, { c with errno := some (.ofStatus (B.readerCode r)) })
      else (0, out, c)

/-- `Read(dest, length)`: enter read mode at the writer's position first. -/
def read (length : Nat) (c : Cookie W R) : Int × List Char × Cookie W R :=
  match c.reader with
  | some r => readFrom B length r c
  | none =>
    let pos := B.writerPos c.writer
    match B.readMode pos c.writer with
    | (none, w) => (-1, [], { c with writer := w, errno := some (.ofStatus (B.writerCode w)) })
    | (some r, w) =>
      let c := { c with writer := w, reader := some r }
      if B.readerPos r ≠ pos then
        (-1, [], { c with errno := some (failureErrno (B.readerOk r) (B.readerCode r)) })
      else readFrom B length r c

/-- The start of `Write(src, length)`: leave read mode, moving the writer to the reader's position. -/
def leaveReadMode (c : Cookie W R) : Bool × Cookie W R :=
  match c.reader with
  | none => (true, c)
  | some r =>
    let c := { c with reader := none }
    match B.writerSeek (B.readerPos r) c.writer with
    | (true, w) => (true, { c with writer := w })
    | (false, w) => (false, { c with writer := w, errno := some (failureErrno (B.writerOk w) (B.writerCode w)) })

def writeThenFlush (src : List Char) (c : Cookie W R) : Int × Cookie W R :=
  match B.writerWrite src c.writer with
  | (false, w) => (0, { c with writer := w, errno := some (.ofStatus (B.writerCode w)) })
  | (true, w) =>
    if c.flushes then
      match B.writerFlush w with
      | (false, w) => (0, { c with writer := w, errno := some (.ofStatus (B.writerCode w)) })
      | (true, w) => (src.length, { c with writer := w })
    else (src.length, { c with writer := w })

def write (src : List Char) (c : Cookie W R) : Int × Cookie W R :=
  let (ok, c) := leaveReadMode B c
  if ¬ok then (0, c) else writeThenFlush B src c

/-- `reader_ != nullptr ? reader_->pos() : writer.pos()`. -/
def effectivePos (c : Cookie W R) : Nat :=
  match c.reader with
  | some r => B.readerPos r
  | none => B.writerPos c.writer

def querySize (c : Cookie W R) : Except Errno Nat × Cookie W R :=
  match c.reader with
  | some r =>
    if ¬B.readerSupportsSize r then (.error .espipe, c)
    else
      match B.readerSize r with
      | (none, r) => (.error (.ofStatus (B.readerCode r)), { c with reader := some r })
      | (some size, r) => (.ok size, { c with reader := some r })
  | none =>
    if ¬B.writerSupportsSize c.writer then (.error .espipe, c)
    else
      match B.writerSize c.writer with
      | (none, w) => (.error (.ofStatus (B.writerCode w)), { c with writer := w })
      | (some size, w) => (.ok size, { c with writer := w })

/-- The `switch (whence)` of `Seek()`, and the cookie after a size query. -/
def seekTarget (offset : Int) (whence : Whence) (c : Cookie W R) : SeekTarget × Cookie W R :=
  match whence with
  | .seekSet => (seekSetTarget offset, c)
  | .seekCur => (seekCurTarget offset (effectivePos B c), c)
  | .seekEnd =>
    match querySize B c with
    | (.error e, c) => (.rejected e, c)
    | (.ok size, c) => (seekEndTarget offset size, c)

/-- The rest of `Seek()`; its `return -1;` converts to an `absl::optional<int64_t>` holding `-1`. -/
def seekTo (newPos : Nat) (c : Cookie W R) : Option Int × Cookie W R :=
  if newPos = effectivePos B c then (some newPos, c)
  else
    match c.reader with
    | some r =>
      match B.readerSeek newPos r with
      | (false, r) =>
        (some (-1), { c with reader := some r, errno := some (failureErrno (B.readerOk r) (B.readerCode r)) })
      | (true, r) => (some newPos, { c with reader := some r })
    | none =>
      if B.supportsRandomAccess c.writer then
        match B.writerSeek newPos c.writer with
        | (false, w) =>
          (some (-1), { c with writer := w, errno := some (failureErrno (B.writerOk w) (B.writerCode w)) })
        | (true, w) => (some newPos, { c with writer := w })
      else if ¬B.supportsReadMode c.writer then (some (-1), { c with errno := some .espipe })
      else
        match B.readMode newPos c.writer with
        | (none, w) => (some (-1), { c with writer := w, errno := some (.ofStatus (B.writerCode w)) })
        | (some r, w) =>
          let c := { c with writer := w, reader := some r }
          if B.readerPos r ≠ newPos then
            (some (-1), { c with errno := some (failureErrno (B.readerOk r) (B.readerCode r)) })
          else (some newPos, c)

/-- `Seek(offset, whence)`: `none` when it evaluates an undefined expression. -/
def seek (offset : Int) (whence : Whence) (c : Cookie W R) : Option (Option Int × Cookie W R) :=
  match seekTarget B offset whence c with
  | (.undefined, _) => none
  | (.rejected e, c) => some (none, { c with errno := some e })
  | (.target newPos, c) => some (seekTo B newPos c)

/-- `WriterCFileSeek(cookie, offset, whence)`: the value returned, `*offset`, and the cookie. -/
def writerCFileSeek (offset : Int) (whence : Whence) (c : Cookie W R) :
    Option (Int × Int × Cookie W R) :=
  match seek B offset whence c with
  | none => none
  | some (none, c) => some (-1, -1, c)
  | some (some newPos, c) => some (0, newPos, c)

/-- `WriterCFileClose(cookie)` once `Close()` returned `result`: the value returned and `errno`. -/
def writerCFileClose (result : Int) : Int × Option Int :=
  if result ≠ 0 then (-1, some result) else (0, none)

end WriterCFile
end Riegeli
