import Riegeli.Base

/-! `BufferedWriter` of `buffered_writer.cc`. The buffer is an index model: `buffer` holds
`[start, cursor)`, the bytes written and not yet handed on, and `startToLimit` is
`start_to_limit()`. The destination is a sink whose `WriteInternal()` appends to `dest` or
fails. The inline fast paths of `Writer`, `Writer::WriteSlow()` and `Fail()` are not under
src/ and are modelled from the spec. -/
namespace Riegeli

/-- Constants and allocator answers of code not under src/, with what the code relies on. -/
structure WriterConfig where
  maxBytesToCopy : Nat
  arrayOfZerosSize : Nat
  arrayOfZerosSize_pos : 0 < arrayOfZerosSize
  bufferLength : Nat → Nat → Nat → Nat → Nat
  le_bufferLength : ∀ m b h p, m ≤ bufferLength m b h p
  /-- `Buffer::Reset(n)` followed by `capacity()`. -/
  capacity : Nat → Nat
  le_capacity : ∀ n, n ≤ capacity n

/-- The destination: `WriteInternal(src)` at `start_pos` succeeds, or fails with a status. -/
structure Sink where
  failure : Nat → List Char → Option (StatusCode × String)

def Sink.appending : Sink := ⟨fun _ _ => none⟩

structure BufferedWriter where
  /-- `[start, cursor)`: the bytes written and not yet handed to the destination. -/
  buffer : List Char
  startToLimit : Nat
  startPos : Nat
  status : Status
  isOpen : Bool
  sizeHint : Nat
  bufferSize : Nat
  dest : List Char
  /-- Ghost: `WriteInternal()` was invoked while the writer was failed. -/
  writeFault : Bool
  deriving DecidableEq, Repr

namespace BufferedWriter

def fresh (pos sizeHint bufferSize : Nat) : BufferedWriter :=
  { buffer := [], startToLimit := 0, startPos := pos, status := .ok, isOpen := true,
    sizeHint := sizeHint, bufferSize := bufferSize, dest := [], writeFault := false }

def available (w : BufferedWriter) : Nat := w.startToLimit - w.buffer.length
def pos (w : BufferedWriter) : Nat := w.startPos + w.buffer.length
def limitPos (w : BufferedWriter) : Nat := w.startPos + w.startToLimit
def healthy (w : BufferedWriter) : Bool := w.status = .ok

def setBuffer (w : BufferedWriter) : BufferedWriter := { w with buffer := [], startToLimit := 0 }

def copy (src : List Char) (w : BufferedWriter) : BufferedWriter := { w with buffer := w.buffer ++ src }

/-- Modelled from the spec: `Fail()` keeps the first status and `pos()`, and drops the buffer. -/
def fail (status : Status) (w : BufferedWriter) : BufferedWriter :=
  { w with status := if w.healthy then status else w.status, startPos := w.pos, buffer := [],
           startToLimit := 0 }

@[simp] theorem setBuffer_buffer (w : BufferedWriter) : w.setBuffer.buffer = [] := rfl
@[simp] theorem setBuffer_startToLimit (w : BufferedWriter) : w.setBuffer.startToLimit = 0 := rfl
@[simp] theorem setBuffer_startPos (w : BufferedWriter) : w.setBuffer.startPos = w.startPos := rfl
@[simp] theorem setBuffer_status (w : BufferedWriter) : w.setBuffer.status = w.status := rfl
@[simp] theorem setBuffer_dest (w : BufferedWriter) : w.setBuffer.dest = w.dest := rfl
@[simp] theorem setBuffer_writeFault (w : BufferedWriter) : w.setBuffer.writeFault = w.writeFault := rfl
@[simp] theorem copy_buffer (src : List Char) (w : BufferedWriter) :
    (w.copy src).buffer = w.buffer ++ src := rfl
@[simp] theorem copy_startToLimit (src : List Char) (w : BufferedWriter) :
    (w.copy src).startToLimit = w.startToLimit := rfl
@[simp] theorem copy_startPos (src : List Char) (w : BufferedWriter) :
    (w.copy src).startPos = w.startPos := rfl
@[simp] theorem copy_status (src : List Char) (w : BufferedWriter) : (w.copy src).status = w.status := rfl
@[simp] theorem copy_dest (src : List Char) (w : BufferedWriter) : (w.copy src).dest = w.dest := rfl
@[simp] theorem copy_writeFault (src : List Char) (w : BufferedWriter) :
    (w.copy src).writeFault = w.writeFault := rfl
@[simp] theorem fail_buffer (s : Status) (w : BufferedWriter) : (w.fail s).buffer = [] := rfl
@[simp] theorem fail_startToLimit (s : Status) (w : BufferedWriter) : (w.fail s).startToLimit = 0 := rfl
@[simp] theorem fail_dest (s : Status) (w : BufferedWriter) : (w.fail s).dest = w.dest := rfl
@[simp] theorem fail_writeFault (s : Status) (w : BufferedWriter) :
    (w.fail s).writeFault = w.writeFault := rfl

@[simp] theorem healthy_fail {c : StatusCode} {m : String} (w : BufferedWriter) :
    (w.fail (.failed c m)).healthy = false := by
  unfold fail healthy; split <;> simp_all

variable (cfg : WriterConfig) (sink : Sink)

def writeInternal (src : List Char) (w : BufferedWriter) : Bool × BufferedWriter :=
  let w := { w with writeFault := w.writeFault || !w.healthy }
  match sink.failure w.startPos src with
  | none => (true, { w with dest := w.dest ++ src, startPos := w.startPos + src.length })
  | some (code, message) => (false, w.fail (.failed code message))

def syncBuffer (w : BufferedWriter) : Bool × BufferedWriter :=
  let data := w.buffer
  let w := w.setBuffer
  if data = [] then (true, w)
  else if ¬w.healthy then (false, w)
  else writeInternal sink data w

def lengthToWriteDirectly (w : BufferedWriter) : Nat :=
  if w.pos < w.sizeHint ∧ (w.buffer.length = 0 ∨ w.limitPos < w.sizeHint) then
    min w.bufferSize (w.sizeHint - w.pos)
  else w.bufferSize

/-- `PushSlow(min_length, recommended_length)`; the code ignores `recommended_length`. -/
def pushSlow (minLength _recommendedLength : Nat) (w : BufferedWriter) : Bool × BufferedWriter :=
  match syncBuffer sink w with
  | (false, w) => (false, w)
  | (true, w) =>
    if ¬w.healthy then (false, w)
    else if maxPosition - w.startPos < minLength then (false, w.fail .overflow)
    else
      let bufferLength := cfg.bufferLength minLength w.bufferSize w.sizeHint w.startPos
      (true, { w with
        startToLimit := min (cfg.capacity bufferLength)
          (min (saturatingAdd bufferLength bufferLength) (maxPosition - w.startPos)) })

/-- Modelled from the spec: `Push(min_length, recommended_length)`. -/
def push (minLength recommendedLength : Nat) (w : BufferedWriter) : Bool × BufferedWriter :=
  if minLength ≤ w.available then (true, w) else pushSlow cfg sink minLength recommendedLength w

@[simp] theorem buffer_syncBuffer (w : BufferedWriter) : (syncBuffer sink w).2.buffer = [] := by
  unfold syncBuffer writeInternal
  dsimp only
  split
  · rfl
  split
  · rfl
  split <;> rfl

@[simp] theorem setBuffer_syncBuffer (w : BufferedWriter) :
    (syncBuffer sink w).2.setBuffer = (syncBuffer sink w).2 := by
  unfold syncBuffer writeInternal
  dsimp only
  split
  · rfl
  split
  · rfl
  split <;> rfl

theorem pushSlow_true {minLength n : Nat} {w w' : BufferedWriter}
    (h : pushSlow cfg sink minLength n w = (true, w')) :
    w'.buffer = [] ∧ minLength ≤ w'.startToLimit ∧ minLength ≤ maxPosition - w'.startPos ∧
      w'.startToLimit ≤ maxPosition - w'.startPos := by
  unfold pushSlow at h
  have hb := buffer_syncBuffer sink w
  generalize syncBuffer sink w = s at h hb
  obtain ⟨_ | _, w1⟩ := s
  · cases h
  · dsimp only at h hb
    split at h
    · cases h
    split at h
    · cases h
    · cases h
      rename_i hfit
      have := cfg.le_bufferLength minLength w1.bufferSize w1.sizeHint w1.startPos
      have := cfg.le_capacity (cfg.bufferLength minLength w1.bufferSize w1.sizeHint w1.startPos)
      refine ⟨hb, ?_, ?_, ?_⟩ <;> simp only [saturatingAdd] <;> omega

theorem push_true {minLength n : Nat} {w w' : BufferedWriter}
    (h : push cfg sink minLength n w = (true, w')) : minLength ≤ w'.available := by
  unfold push at h
  split at h
  · cases h; assumption
  · have := pushSlow_true cfg sink h
    simp only [available, this.1, List.length_nil, Nat.sub_zero]; exact this.2.1

/-- Modelled from the spec: `Writer::WriteSlow(src)`, filling and pushing buffers until it fits. -/
def writerWriteSlow (src : List Char) (w : BufferedWriter) : Bool × BufferedWriter :=
  let w1 := w.copy (src.take w.available)
  let rest := src.drop w.available
  match _h : push cfg sink 1 rest.length w1 with
  | (false, w2) => (false, w2)
  | (true, w2) => if rest.length ≤ w2.available then (true, w2.copy rest) else writerWriteSlow rest w2
termination_by 2 * src.length + (if w.available = 0 then 1 else 0)
decreasing_by
  have := push_true cfg sink _h
  simp only [rest, List.length_drop] at *
  split <;> split <;> omega

def writeSlow (src : List Char) (w : BufferedWriter) : Bool × BufferedWriter :=
  if lengthToWriteDirectly w ≤ src.length then
    match syncBuffer sink w with
    | (false, w) => (false, w)
    | (true, w) => if ¬w.healthy then (false, w) else writeInternal sink src w
  else writerWriteSlow cfg sink src w

/-- Modelled from the spec: `Write(src)`. -/
def write (src : List Char) (w : BufferedWriter) : Bool × BufferedWriter :=
  if src.length ≤ w.available then (true, w.copy src) else writeSlow cfg sink src w

def zeros (length : Nat) : List Char := List.replicate length (Char.ofNat 0)

def writeZerosSlow (length : Nat) (w : BufferedWriter) : Bool × BufferedWriter :=
  if cfg.arrayOfZerosSize < length then
    match write cfg sink (zeros cfg.arrayOfZerosSize) w with
    | (false, w) => (false, w)
    | (true, w) => writeZerosSlow (length - cfg.arrayOfZerosSize) w
  else write cfg sink (zeros length) w
termination_by length
decreasing_by have := cfg.arrayOfZerosSize_pos; omega

/-- Modelled from the spec: `WriteZeros(length)`. -/
def writeZeros (length : Nat) (w : BufferedWriter) : Bool × BufferedWriter :=
  if length ≤ min w.available cfg.maxBytesToCopy then (true, w.copy (zeros length))
  else writeZerosSlow cfg sink length w

def flushBehindBuffer (src : List Char) (w : BufferedWriter) : Bool × BufferedWriter :=
  if ¬w.healthy then (false, w)
  else if src = [] then (true, w)
  else writeInternal sink src w

def flushImpl (w : BufferedWriter) : Bool × BufferedWriter :=
  flushBehindBuffer sink w.buffer w.setBuffer

/-- The default `…BehindBuffer()` of an operation the destination does not support. -/
def unsupported (message : String) (w : BufferedWriter) : BufferedWriter :=
  w.fail (.failed .unimplemented message)

def seekBehindBuffer (_newPos : Nat) (w : BufferedWriter) : Bool × BufferedWriter :=
  (false, unsupported "Writer::Seek() not supported" w)

def sizeBehindBuffer (w : BufferedWriter) : Option Nat × BufferedWriter :=
  (none, unsupported "Writer::Size() not supported" w)

def truncateBehindBuffer (_newSize : Nat) (w : BufferedWriter) : Bool × BufferedWriter :=
  (false, unsupported "Writer::Truncate() not supported" w)

/-- `ReadModeBehindBuffer(initial_pos)`: `false` stands for `nullptr`. -/
def readModeBehindBuffer (_initialPos : Nat) (w : BufferedWriter) : Bool × BufferedWriter :=
  (false, unsupported "Writer::ReadMode() not supported" w)

/-- `if (!SyncBuffer()) return failure; return behind();`, shared by four `…Impl()`s. -/
def syncThen {α : Type} (failure : α) (behind : BufferedWriter → α × BufferedWriter)
    (w : BufferedWriter) : α × BufferedWriter :=
  match syncBuffer sink w with
  | (false, w) => (failure, w)
  | (true, w) => behind w

def seekSlow (newPos : Nat) : BufferedWriter → Bool × BufferedWriter :=
  syncThen sink false (seekBehindBuffer newPos)

/-- `SizeImpl()`: its `return false;` converts to an `absl::optional<Position>` holding 0. -/
def sizeImpl : BufferedWriter → Option Nat × BufferedWriter :=
  syncThen sink (some 0) sizeBehindBuffer

def truncateImpl (newSize : Nat) : BufferedWriter → Bool × BufferedWriter :=
  syncThen sink false (truncateBehindBuffer newSize)

/-- `ReadModeImpl(initial_pos)`: `false` stands for `nullptr`. -/
def readModeImpl (initialPos : Nat) : BufferedWriter → Bool × BufferedWriter :=
  syncThen sink false (readModeBehindBuffer initialPos)

/-- Modelled from the spec: `Seek(new_pos)` stays when the position is unchanged. -/
def seek (newPos : Nat) (w : BufferedWriter) : Bool × BufferedWriter :=
  if newPos = w.pos then (true, w) else seekSlow sink newPos w

def doneBehindBuffer (src : List Char) (w : BufferedWriter) : BufferedWriter :=
  (flushBehindBuffer sink src w).2

/-- `Done()`; modelled from the spec, `Writer::Done()` closes the writer. -/
def done (w : BufferedWriter) : BufferedWriter :=
  { doneBehindBuffer sink w.buffer w.setBuffer with isOpen := false }

inductive Op
  | write (src : List Char)
  /-- `Push(min_length, recommended_length)`, then as much of `fill` as fits at the cursor. -/
  | push (minLength recommendedLength : Nat) (fill : List Char)
  | writeZeros (length : Nat)
  | flush
  | seek (newPos : Nat)
  | size
  | truncate (newSize : Nat)
  | readMode (initialPos : Nat)
  deriving DecidableEq, Repr

def step : Op → BufferedWriter → List Char × BufferedWriter
  | .write src, w => (src, (write cfg sink src w).2)
  | .push m n fill, w =>
    match push cfg sink m n w with
    | (true, w) => (fill.take w.available, w.copy (fill.take w.available))
    | (false, w) => ([], w)
  | .writeZeros n, w => (zeros n, (writeZeros cfg sink n w).2)
  | .flush, w => ([], (flushImpl sink w).2)
  | .seek p, w => ([], (seek sink p w).2)
  | .size, w => ([], (sizeImpl sink w).2)
  | .truncate n, w => ([], (truncateImpl sink n w).2)
  | .readMode p, w => ([], (readModeImpl sink p w).2)

def run : List Op → BufferedWriter → List Char × BufferedWriter
  | [], w => ([], w)
  | op :: ops, w =>
    let (b, w) := step cfg sink op w
    let (bs, w) := run ops w
    (b ++ bs, w)

end BufferedWriter
end Riegeli
