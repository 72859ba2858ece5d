import Riegeli.PullableReader

/-! The operations of `PullableReader`: `PullSlow()` with its scratch-filling loop, the
default `…BehindScratch()` methods, the slow paths that leave scratch before calling them,
and the inline fast paths of `Reader` in front of the slow paths. Destination writers of
`Copy()` accept every write. -/
namespace Riegeli
namespace PullableReader

variable (cfg : Config) (src : Source)

def fragmentEnd (p : Nat) : Nat := min (p + max 1 (src.fragment p)) src.data.length

/-- `PullBehindScratch()` of the source: expose the next fragment. -/
def pullBehindScratch (r : PullableReader) : Bool × PullableReader :=
  let r := r.checkHook (r.available = 0 ∧ r.scratch = none)
  if r.healthy ∧ r.limitPos < src.data.length then
    let e := fragmentEnd src r.limitPos
    (true, { r with buffer := slice src.data r.limitPos e, cursor := 0, limitPos := e })
  else (false, r)

theorem pullBehindScratch_progress {r r' : PullableReader}
    (h : pullBehindScratch src r = (true, r')) :
    src.data.length - r'.limitPos < src.data.length - r.limitPos := by
  unfold pullBehindScratch at h
  simp only [checkHook_limitPos, fragmentEnd] at h
  split at h
  · cases h; dsimp only; omega
  · cases h

theorem limitPos_le_syncScratch (r : PullableReader) : r.limitPos ≤ (syncScratch r).limitPos := by
  unfold syncScratch; split <;> simp

/-- The `do … while (PullBehindScratch())` loop of `PullSlow()`, gathering into `dest`. -/
def pullSlowLoop (r : PullableReader) (dest : List Char) (minLimit maxLimit : Nat) :
    List Char × PullableReader :=
  let length := min r.available (maxLimit - dest.length)
  let dest := dest ++ r.view.take length
  let r1 := r.moveCursor length
  if 0 < length ∧ minLimit ≤ dest.length then (dest, r1)
  else
    let r2 := if r1.scratchUsed then syncScratch r1 else r1
    match _h : pullBehindScratch src r2 with
    | (true, r3) => pullSlowLoop r3 dest minLimit maxLimit
    | (false, r3) => (dest, r3)
termination_by src.data.length - r.limitPos
decreasing_by
  have h2 : r.limitPos ≤ r2.limitPos := by
    simp only [r2, r1]; split
    · exact le_trans (by simp) (limitPos_le_syncScratch _)
    · simp
  have := pullBehindScratch_progress src _h
  omega

/-- The part of `PullSlow()` that gathers `min_length` contiguous bytes in scratch. -/
def fillScratch (minLength recommendedLength : Nat) (r : PullableReader) : Bool × PullableReader :=
  let recommendedLength := max minLength recommendedLength
  let maxLength := saturatingAdd recommendedLength recommendedLength
  let (kept, r) : List Char × PullableReader := match r.scratch with
    | some sc =>
      if sc.buffer = [] then ([], { r with scratch := none })
      else
        (sc.buffer.drop r.cursor, syncScratch r)
    | none => ([], r)
  let remainingMinLength := minLength - kept.length
  let span := appendLength cfg.scratchAppend remainingMinLength (recommendedLength - kept.length)
    (maxLength - kept.length)
  let (fresh, r) := pullSlowLoop src r [] remainingMinLength span
  (decide (minLength ≤ (kept ++ fresh).length), installScratch (kept ++ fresh) 0 r)

def pullSlow (minLength recommendedLength : Nat) (r : PullableReader) : Bool × PullableReader :=
  if 1 < minLength then
    let (ends, r) := if r.scratchUsed then scratchEnds r else (false, r)
    if ends ∧ minLength ≤ r.available then (true, r)
    else if r.available = 0 then
      match pullBehindScratch src r with
      | (true, r) =>
        if minLength ≤ r.available then (true, r) else fillScratch cfg src minLength recommendedLength r
      | (false, r) => (false, r)
    else fillScratch cfg src minLength recommendedLength r
  else if r.scratchUsed then
    let r := syncScratch r
    if 0 < r.available then (true, r) else pullBehindScratch src r
  else pullBehindScratch src r

def pull (minLength recommendedLength : Nat) (r : PullableReader) : Bool × PullableReader :=
  if minLength ≤ r.available then (true, r) else pullSlow cfg src minLength recommendedLength r

/-- `while (length > available()) { take what is available; PullBehindScratch(); }`, then take
`length` bytes: the loop of `CopyBehindScratch(Writer&)` and of `ReadBehindScratch(char*)`. -/
def readAcross (length : Nat) (r : PullableReader) : Bool × List Char × PullableReader :=
  if r.available < length then
    match _h : pullBehindScratch src (r.moveCursor r.available) with
    | (true, r') =>
      let (ok, out, r'') := readAcross (length - r.available) r'
      (ok, r.view ++ out, r'')
    | (false, r') => (false, r.view, r')
  else (true, r.view.take length, r.moveCursor length)
termination_by src.data.length - r.limitPos
decreasing_by have := pullBehindScratch_progress src _h; exact this

/-- `ReadBehindScratch(length, char*)`: a `do … while (length > available())` loop. -/
def readBehindScratch (length : Nat) (r : PullableReader) : Bool × List Char × PullableReader :=
  let r := r.checkHook (r.available < length ∧ r.scratch = none)
  match pullBehindScratch src (r.moveCursor r.available) with
  | (true, r') =>
    let (ok, out, r'') := readAcross src (length - r.available) r'
    (ok, r.view ++ out, r'')
  | (false, r') => (false, r.view, r')

def readSlow (length : Nat) (r : PullableReader) : Bool × List Char × PullableReader :=
  if r.scratchUsed then
    let (ends, r) := scratchEnds r
    let (out, length, r) :=
      if ends then ([], length, r) else (r.view, length - r.available, syncScratch (r.moveCursor r.available))
    if length ≤ r.available then (true, out ++ r.view.take length, r.moveCursor length)
    else
      let (ok, more, r) := readBehindScratch src length r
      (ok, out ++ more, r)
  else readBehindScratch src length r

def read (length : Nat) (r : PullableReader) : Bool × List Char × PullableReader :=
  if length ≤ r.available then (true, r.view.take length, r.moveCursor length)
  else readSlow src length r

/-- The `do … while (length > 0)` loop of `ReadBehindScratch(Chain&)` and `(Cord&)`, reading
`chunk length` bytes at a time; `max 1` only keeps the definition total. -/
def readChunked (chunk : Nat → Nat) (length : Nat) (r : PullableReader) :
    Bool × List Char × PullableReader :=
  let n := max 1 (chunk length)
  let (ok, out, r') := read src n r
  if ok then
    if n < length then
      let (ok', out', r'') := readChunked chunk (length - n) r'
      (ok', out ++ out', r'')
    else (true, out, r')
  else (false, out.take (r'.pos - r.pos), r')
termination_by length

/-- `ReadBehindScratch(length, Chain&)`: chunks are spans of `Chain::AppendBuffer(1, length, length)`. -/
def readBehindScratchChain (length : Nat) (r : PullableReader) : Bool × List Char × PullableReader :=
  readChunked src (fun l => appendLength cfg.chainAppend 1 l l) length
    (r.checkHook (min r.available cfg.maxBytesToCopy < length ∧ r.scratch = none))

/-- `ReadBehindScratch(length, Cord&)`: chunks fill a `Buffer` of `min(length, kMaxBufferSize)`. -/
def readBehindScratchCord (length : Nat) (r : PullableReader) : Bool × List Char × PullableReader :=
  readChunked src (fun l => min l (max (min l cfg.maxBufferSize) (cfg.bufferCapacity (min l cfg.maxBufferSize))))
    length (r.checkHook (min r.available cfg.maxBytesToCopy < length ∧ r.scratch = none))

def copyBehindScratch (length : Nat) (r : PullableReader) : Bool × List Char × PullableReader :=
  readAcross src length (r.checkHook (min r.available cfg.maxBytesToCopy < length ∧ r.scratch = none))

/-- The body shared by `ReadSlow(Chain&)`, `ReadSlow(Cord&)` and `CopySlow(Writer&)`. -/
def appendSlow (behind : Nat → PullableReader → Bool × List Char × PullableReader)
    (length : Nat) (r : PullableReader) : Bool × List Char × PullableReader :=
  if r.scratchUsed then
    let (ends, r) := scratchEnds r
    let n := if ends then 0 else min length r.available
    let out := r.view.take n
    if ¬ends ∧ length - n = 0 then (true, out, r.moveCursor n)
    else
      let length := length - n
      let r := if ends then r else syncScratch (r.moveCursor n)
      if length ≤ r.available ∧ length ≤ cfg.maxBytesToCopy then
        (true, out ++ r.view.take length, r.moveCursor length)
      else
        let (ok, more, r) := behind length r
        (ok, out ++ more, r)
  else behind length r

def readSlowChain (length : Nat) (r : PullableReader) : Bool × List Char × PullableReader :=
  appendSlow cfg (readBehindScratchChain cfg src) length r

def readSlowCord (length : Nat) (r : PullableReader) : Bool × List Char × PullableReader :=
  appendSlow cfg (readBehindScratchCord cfg src) length r

def copySlow (length : Nat) (r : PullableReader) : Bool × List Char × PullableReader :=
  appendSlow cfg (copyBehindScratch cfg src) length r

/-- The fast path of `Read(Chain&)`, `Read(Cord&)` and `Copy(Writer&)` in front of `slow`. -/
def appendFast (slow : Nat → PullableReader → Bool × List Char × PullableReader)
    (length : Nat) (r : PullableReader) : Bool × List Char × PullableReader :=
  if length ≤ r.available ∧ length ≤ cfg.maxBytesToCopy then
    (true, r.view.take length, r.moveCursor length)
  else slow length r

def copyBehindScratchBackward (length : Nat) (r : PullableReader) : Bool × List Char × PullableReader :=
  let r := r.checkHook (min r.available cfg.maxBytesToCopy < length ∧ r.scratch = none)
  if length ≤ r.available then (true, r.view.take length, r.moveCursor length)
  else
    let (ok, data, r) :=
      if length ≤ cfg.maxBytesToCopy then readBehindScratch src length r
      else readBehindScratchChain cfg src length r
    (ok, if ok then data else [], r)

/-- `CopySlow(length, BackwardWriter&)`: the scratch part is prepended last. -/
def copySlowBackward (length : Nat) (r : PullableReader) : Bool × List Char × PullableReader :=
  if r.scratchUsed then
    let (ends, r) := scratchEnds r
    if ¬ends ∧ length ≤ r.available then (true, r.view.take length, r.moveCursor length)
    else
      let fromScratch := if ends then [] else r.view
      let length := length - fromScratch.length
      let r := if ends then r else syncScratch r
      let (ok, data, r) :=
        if length ≤ r.available ∧ length ≤ cfg.maxBytesToCopy then
          (true, r.view.take length, r.moveCursor length)
        else copyBehindScratchBackward cfg src length r
      (ok, if ok then fromScratch ++ data else [], r)
  else copyBehindScratchBackward cfg src length r

/-- The forward `do … while (new_pos > limit_pos())` loop of `SeekBehindScratch()`. -/
def seekForward (newPos : Nat) (r : PullableReader) : Bool × PullableReader :=
  match _h : pullBehindScratch src (r.moveCursor r.available) with
  | (true, r') => if r'.limitPos < newPos then seekForward newPos r' else (true, r'.seekInBuffer newPos)
  | (false, r') => (false, r')
termination_by src.data.length - r.limitPos
decreasing_by have := pullBehindScratch_progress src _h; exact this

/-- The default `SeekBehindScratch(new_pos)`: forwards only. -/
def seekBehindScratchDefault (newPos : Nat) (r : PullableReader) : Bool × PullableReader :=
  if newPos ≤ r.limitPos then
    (false, r.fail (.failed .unimplemented "Reader::Seek() backwards not supported"))
  else seekForward src newPos r

/-- `SeekBehindScratch(new_pos)` of the source: with random access it repositions the buffer. -/
def seekBehindScratch (newPos : Nat) (r : PullableReader) : Bool × PullableReader :=
  let r := r.checkHook ((newPos < r.startPos ∨ r.limitPos < newPos) ∧ r.scratch = none)
  if src.supportsRandomAccess then
    if ¬r.healthy then (false, r)
    else if newPos ≤ src.data.length then (true, { r with buffer := [], cursor := 0, limitPos := newPos })
    else (false, { r with buffer := [], cursor := 0, limitPos := src.data.length })
  else seekBehindScratchDefault src newPos r

def seekSlow (newPos : Nat) (r : PullableReader) : Bool × PullableReader :=
  if r.scratchUsed then
    let r := syncScratch r
    if r.startPos ≤ newPos ∧ newPos ≤ r.limitPos then (true, r.seekInBuffer newPos)
    else seekBehindScratch src newPos r
  else seekBehindScratch src newPos r

def seek (newPos : Nat) (r : PullableReader) : Bool × PullableReader :=
  if r.startPos ≤ newPos ∧ newPos ≤ r.limitPos then (true, r.seekInBuffer newPos)
  else seekSlow src newPos r

/-- Modelled from the spec: `Skip(length)` is `Seek(pos() + length)`. -/
def skip (length : Nat) (r : PullableReader) : Bool × PullableReader := seek src (r.pos + length) r

/-- The default `ReadHintBehindScratch(length)` only asserts its precondition. -/
def readHintBehindScratch (length : Nat) (r : PullableReader) : PullableReader :=
  r.checkHook (r.available < length ∧ r.scratch = none)

def readHintSlow (length : Nat) (r : PullableReader) : PullableReader :=
  if r.scratchUsed then
    let (ends, r) := scratchEnds r
    if ¬ends then
      let length := length - r.available
      behindScratch (fun u => if u.available < length then readHintBehindScratch length u else u) r
    else if length ≤ r.available then r
    else readHintBehindScratch length r
  else readHintBehindScratch length r

def readHint (length : Nat) (r : PullableReader) : PullableReader :=
  if r.available < length then readHintSlow length r else r

def syncBehindScratch (r : PullableReader) : Bool × PullableReader :=
  let r := r.checkHook (r.scratch = none)
  (r.healthy, r)

/-- `SyncImpl()`: with random access, seek the source back to `pos()` before syncing. -/
def syncImpl (r : PullableReader) : Bool × PullableReader :=
  let (pending, r) := scratchPending r
  if pending then
    if src.supportsRandomAccess then syncBehindScratch (seek src r.pos (syncScratch r)).2
    else (r.healthy, r)
  else syncBehindScratch r

def doneBehindScratch (r : PullableReader) : PullableReader :=
  (syncBehindScratch (r.checkHook (r.scratch = none))).2

/-- Modelled from the spec: `Reader::Done()` releases the buffer and closes the reader. -/
def readerDone (r : PullableReader) : PullableReader :=
  { r with buffer := [], cursor := 0, limitPos := r.pos, isOpen := false }

/-- `Done()`: without random access a pending scratch is dropped. -/
def done (r : PullableReader) : PullableReader :=
  let (pending, r) := scratchPending r
  let r :=
    if pending then
      if src.supportsRandomAccess then readerDone (doneBehindScratch (seek src r.pos (syncScratch r)).2)
      else readerDone r
    else readerDone (doneBehindScratch r)
  { r with scratch := none }

inductive Op
  | pull (minLength recommendedLength : Nat)
  | read (length : Nat)
  | readChain (length : Nat)
  | readCord (length : Nat)
  | copy (length : Nat)
  | copyBackward (length : Nat)
  | seek (newPos : Nat)
  | skip (length : Nat)
  | readHint (length : Nat)
  | sync
  deriving DecidableEq, Repr

/-- What an operation answers: its verdict, the bytes it delivers, and `pos()` afterwards. -/
structure Outcome where
  ok : Bool
  bytes : List Char
  pos : Nat
  deriving DecidableEq, Repr

def Outcome.ofRead (res : Bool × List Char × PullableReader) : Outcome × PullableReader :=
  (⟨res.1, res.2.1, res.2.2.pos⟩, res.2.2)

def Outcome.ofSeek (res : Bool × PullableReader) : Outcome × PullableReader :=
  (⟨res.1, [], res.2.pos⟩, res.2)

def step : Op → PullableReader → Outcome × PullableReader
  | .pull m n, r => let (ok, r) := pull cfg src m n r; (⟨ok, r.view, r.pos⟩, r)
  | .read n, r => Outcome.ofRead (read src n r)
  | .readChain n, r => Outcome.ofRead (appendFast cfg (readSlowChain cfg src) n r)
  | .readCord n, r => Outcome.ofRead (appendFast cfg (readSlowCord cfg src) n r)
  | .copy n, r => Outcome.ofRead (appendFast cfg (copySlow cfg src) n r)
  | .copyBackward n, r => Outcome.ofRead (appendFast cfg (copySlowBackward cfg src) n r)
  | .seek q, r => Outcome.ofSeek (seek src q r)
  | .skip n, r => Outcome.ofSeek (skip src n r)
  | .readHint n, r => let r := readHint n r; (⟨true, [], r.pos⟩, r)
  | .sync, r => Outcome.ofSeek (syncImpl src r)

def run : List Op → PullableReader → List Outcome × PullableReader
  | [], r => ([], r)
  | op :: ops, r =>
    let (o, r) := step cfg src op r
    let (os, r) := run ops r
    (o :: os, r)

end PullableReader
end Riegeli
