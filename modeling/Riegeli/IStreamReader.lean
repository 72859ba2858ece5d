import Riegeli.Base

/-! `IStreamReaderBase` of `istream_reader.cc`, the `BufferedReader` over a `std::istream`.
The stream is modelled by what the `std::istream` contract fixes: `data` is the content `S`
indexed by stream position, and `pos` is the get position. What the contract leaves open,
how many bytes `readsome()` hands out, I/O errors, and whether a seek or a `tellg()`
succeeds, comes from a `Behaviour` that answers afresh at every call (`tick` counts the calls).
The reader is the part of `IStreamReaderBase` behind the buffer of `BufferedReader`. An
`IntCast<std::streamoff>` of a position out of range sets the ghost flag `castFault`. -/
namespace Riegeli

/-- A `std::istream` with its state bits, `errno` and a count of the calls made on it. -/
structure IStream where
  data : List Char
  pos : Nat
  failbit : Bool
  badbit : Bool
  eofbit : Bool
  errno : Nat
  tick : Nat
  deriving DecidableEq, Repr

/-- The answers the `std::istream` contract leaves open, indexed by the call's `tick`. -/
structure Behaviour where
  seekable : Bool
  /-- How many bytes `readsome()` hands out, before the cut to what is asked and what is left. -/
  readsomeLimit : Nat → Nat
  /-- An I/O error: the bytes transferred before it, and the `errno` it leaves. -/
  ioError : Nat → Option (Nat × Nat)
  seekFails : Nat → Bool
  tellFails : Nat → Bool

namespace IStream

variable (b : Behaviour)

def fail (s : IStream) : Bool := s.failbit || s.badbit

def good (s : IStream) : Bool := !s.failbit && !s.badbit && !s.eofbit

def transfer (n : Nat) (s : IStream) : List Char × IStream :=
  let k := min n (s.data.length - s.pos)
  (slice s.data s.pos (s.pos + k), { s with pos := s.pos + k })

/-- `peek()`: `none` is `traits::eof()`. -/
def peek (s : IStream) : Option Char × IStream :=
  let t := s.tick
  let s := { s with tick := t + 1 }
  if !s.good then (none, { s with failbit := true })
  else
    match b.ioError t with
    | some (_, e) => (none, { s with badbit := true, errno := e })
    | none =>
      match s.data.get? s.pos with
      | some c => (some c, s)
      | none => (none, { s with eofbit := true })

def readsome (n : Nat) (s : IStream) : List Char × IStream :=
  let t := s.tick
  let s := { s with tick := t + 1 }
  if !s.good then ([], { s with failbit := true })
  else if s.data.length ≤ s.pos then ([], { s with eofbit := true })
  else
    match b.ioError t with
    | some (j, e) =>
      let (bytes, s) := transfer (min j n) s
      (bytes, { s with badbit := true, errno := e })
    | none => transfer (min (b.readsomeLimit t) n) s

/-- `read(dest, n)` followed by `gcount()`: the bytes stored at `dest`. -/
def read (n : Nat) (s : IStream) : List Char × IStream :=
  let t := s.tick
  let s := { s with tick := t + 1 }
  if !s.good then ([], { s with failbit := true })
  else
    match b.ioError t with
    | some (j, e) =>
      let (bytes, s) := transfer (min j n) s
      (bytes, { s with badbit := true, errno := e })
    | none =>
      let (bytes, s) := transfer n s
      if bytes.length < n then (bytes, { s with eofbit := true, failbit := true }) else (bytes, s)

/-- `seekg()` to the position `target` names in the data; it clears `eofbit` first. -/
def seekg (target : List Char → Nat) (s : IStream) : IStream :=
  let t := s.tick
  let s := { s with tick := t + 1, eofbit := false }
  if s.fail then { s with failbit := true }
  else if b.seekable && !b.seekFails t && decide (target s.data ≤ s.data.length) then
    { s with pos := target s.data }
  else { s with failbit := true }

/-- `tellg()`: `-1` on failure, and for a position no `std::streamoff` holds. -/
def tellg (s : IStream) : Int × IStream :=
  let t := s.tick
  let s := { s with tick := t + 1 }
  if s.fail || !b.seekable || b.tellFails t || decide (maxStreamOff < s.pos) then (-1, s)
  else (s.pos, s)

structure Moved (s : IStream) (bytes : List Char) (s' : IStream) : Prop where
  data : s'.data = s.data
  pos : s'.pos = s.pos + bytes.length
  bytes : bytes = slice s.data s.pos s'.pos

theorem Moved.nil {s s' : IStream} (hd : s'.data = s.data) (hp : s'.pos = s.pos) : Moved s [] s' :=
  ⟨hd, by simpa using hp, by simp [hp]⟩

theorem Moved.trans {s s' s'' : IStream} {a c : List Char} (h1 : Moved s a s') (h2 : Moved s' c s'') :
    Moved s (a ++ c) s'' where
  data := h2.data.trans h1.data
  pos := by rw [h2.pos, h1.pos, List.length_append, Nat.add_assoc]
  bytes := by
    rw [h1.bytes, h2.bytes, h1.data,
      slice_append_slice (by rw [h1.pos]; omega) (by rw [h2.pos]; omega)]

theorem moved_transfer (n : Nat) (s : IStream) :
    Moved s (transfer n s).1 (transfer n s).2 ∧ (transfer n s).1.length = min n (s.data.length - s.pos) := by
  have hl : (transfer n s).1.length = min n (s.data.length - s.pos) := by simp [transfer]
  exact ⟨⟨rfl, by rw [hl]; rfl, rfl⟩, hl⟩

variable {b} {s : IStream}

theorem good_eq_true : s.good = true ↔ s.failbit = false ∧ s.badbit = false ∧ s.eofbit = false := by
  simp [good, and_assoc]

@[simp] theorem data_peek : (s.peek b).2.data = s.data := by
  unfold peek; dsimp only; split <;> [rfl; (split <;> [rfl; split <;> rfl])]

@[simp] theorem pos_peek : (s.peek b).2.pos = s.pos := by
  unfold peek; dsimp only; split <;> [rfl; (split <;> [rfl; split <;> rfl])]

theorem peek_some {c : Char} (h : (s.peek b).1 = some c) :
    s.good = true ∧ s.pos < s.data.length ∧ (s.peek b).2.good = true := by
  revert h
  unfold peek; dsimp only
  split
  · simp
  · rename_i hg
    simp only [good, Bool.not_eq_true', Bool.and_eq_false_imp, Bool.not_eq_false'] at hg ⊢
    split
    · simp
    · split
      · rename_i hc
        intro _
        have := (List.get?_eq_some.mp hc).1
        simp_all
      · simp

theorem peek_none_ok (h : (s.peek b).1 = none) (hf : (s.peek b).2.fail = false) :
    s.good = true ∧ s.data.length ≤ s.pos ∧ (s.peek b).2.failbit = false ∧ (s.peek b).2.badbit = false := by
  revert h hf
  unfold peek; dsimp only
  split
  · simp [fail]
  · rename_i hg
    split
    · simp [fail]
    · split
      · simp
      · rename_i hc
        intro _ hf
        simp_all [fail, good]

theorem readsome_moved (n : Nat) :
    Moved s (s.readsome b n).1 (s.readsome b n).2 ∧ (s.readsome b n).1.length ≤ n := by
  unfold readsome; dsimp only
  split
  · exact ⟨Moved.nil rfl rfl, by simp⟩
  · split
    · exact ⟨Moved.nil rfl rfl, by simp⟩
    · split
      · obtain ⟨hm, hl⟩ := moved_transfer (min _ n) { s with tick := s.tick + 1 }
        exact ⟨⟨hm.data, hm.pos, hm.bytes⟩, by simp only [hl]; omega⟩
      · obtain ⟨hm, hl⟩ := moved_transfer (min _ n) { s with tick := s.tick + 1 }
        exact ⟨⟨hm.data, hm.pos, hm.bytes⟩, by simp only [hl]; omega⟩

theorem readsome_good {n : Nat} (hs : s.good = true) (hlt : s.pos < s.data.length)
    (hb : (s.readsome b n).2.badbit = false) : (s.readsome b n).2.good = true := by
  revert hb
  unfold readsome; dsimp only
  rw [if_neg (by simpa [good] using hs), if_neg (by omega)]
  split
  · simp
  · intro _; simpa [transfer, good] using hs

theorem read_moved (n : Nat) :
    Moved s (s.read b n).1 (s.read b n).2 ∧ (s.read b n).1.length ≤ n := by
  unfold read; dsimp only
  split
  · exact ⟨Moved.nil rfl rfl, by simp⟩
  · split
    · obtain ⟨hm, hl⟩ := moved_transfer (min _ n) { s with tick := s.tick + 1 }
      exact ⟨⟨hm.data, hm.pos, hm.bytes⟩, by simp only [hl]; omega⟩
    · obtain ⟨hm, hl⟩ := moved_transfer n { s with tick := s.tick + 1 }
      split
      · exact ⟨⟨hm.data, hm.pos, hm.bytes⟩, by simp only [hl]; omega⟩
      · exact ⟨⟨hm.data, hm.pos, hm.bytes⟩, by simp only [hl]; omega⟩

theorem read_ok {n : Nat} (hf : (s.read b n).2.fail = false) :
    (s.read b n).1.length = n ∧ (s.read b n).2.good = true := by
  revert hf
  unfold read; dsimp only
  split
  · simp [fail]
  · rename_i hg
    split
    · simp [fail]
    · split
      · simp [fail]
      · rename_i hl
        intro _
        simp only [Bool.not_eq_true', Bool.not_eq_false, good_eq_true] at hg
        refine ⟨by simp [transfer] at hl ⊢; omega, ?_⟩
        simpa [good_eq_true, transfer] using hg

theorem read_eof {n : Nat} (hs : s.good = true) (hle : s.pos ≤ s.data.length)
    (hf : (s.read b n).2.failbit = true) (hb : (s.read b n).2.badbit = false) :
    (s.read b n).2.pos = s.data.length := by
  revert hf hb
  unfold read; dsimp only
  rw [if_neg (by simpa [good] using hs)]
  split
  · simp
  · split
    · rename_i hl
      intro _ _
      simp [transfer] at hl ⊢; omega
    · simp [transfer, good] at hs ⊢; simp [hs]

theorem readsome_failbit {n : Nat} (hs : s.good = true) : (s.readsome b n).2.failbit = false := by
  have hg := good_eq_true.mp hs
  unfold readsome; dsimp only
  rw [if_neg (by simpa [good] using hs)]
  split
  · simp [hg.1]
  · split <;> simp [transfer, hg.1]

theorem read_of_not_good {n : Nat} (hs : s.good = false) :
    s.read b n = ([], { s with tick := s.tick + 1, failbit := true }) := by
  obtain ⟨_, _, _ | _, _ | _, _ | _, _, _⟩ := s <;> simp_all [good, read]

@[simp] theorem data_seekg {t : List Char → Nat} : (s.seekg b t).data = s.data := by
  unfold seekg; dsimp only; split <;> [rfl; split <;> rfl]

@[simp] theorem eofbit_seekg {t : List Char → Nat} : (s.seekg b t).eofbit = false := by
  unfold seekg; dsimp only; split <;> [rfl; split <;> rfl]

@[simp] theorem badbit_seekg {t : List Char → Nat} : (s.seekg b t).badbit = s.badbit := by
  unfold seekg; dsimp only; split <;> [rfl; split <;> rfl]

theorem seekg_ok {t : List Char → Nat} (h : (s.seekg b t).failbit = false) :
    s.fail = false ∧ (s.seekg b t).pos = t s.data ∧ t s.data ≤ s.data.length := by
  revert h
  unfold seekg; dsimp only
  split
  · simp
  · rename_i hf
    split
    · rename_i hc
      intro _
      simp only [fail, Bool.not_eq_true] at hf
      simp only [Bool.and_eq_true, decide_eq_true_eq] at hc
      exact ⟨hf, rfl, hc.2⟩
    · simp

theorem pos_seekg_of_failbit {t : List Char → Nat} (h : (s.seekg b t).failbit = true) :
    (s.seekg b t).pos = s.pos := by
  revert h
  unfold seekg; dsimp only
  split
  · simp
  · split
    · simp_all [fail]
    · simp

@[simp] theorem tellg_snd : (s.tellg b).2 = { s with tick := s.tick + 1 } := by
  unfold tellg; dsimp only; split <;> rfl

theorem tellg_nonneg (h : 0 ≤ (s.tellg b).1) : (s.tellg b).1 = s.pos ∧ s.pos ≤ maxStreamOff := by
  revert h
  unfold tellg; dsimp only
  split
  · simp
  · rename_i hc
    simp only [Bool.or_eq_true, decide_eq_true_eq, not_or, not_lt] at hc
    exact fun _ => ⟨rfl, hc.2⟩

@[simp] theorem tellg_fst_eofbit {e : Bool} : ({ s with eofbit := e }.tellg b).1 = (s.tellg b).1 := by
  simp only [tellg, fail]; split <;> rfl

theorem tellg_seekg_end (h1 : (s.seekg b List.length).fail = false)
    (h2 : ¬((s.seekg b List.length).tellg b).1 < 0) :
    ((s.seekg b List.length).tellg b).1 = s.data.length ∧ s.data.length ≤ maxStreamOff ∧
      ((s.seekg b List.length).tellg b).2.data = s.data ∧
      ((s.seekg b List.length).tellg b).2.pos = s.data.length ∧
      ((s.seekg b List.length).tellg b).2.good = true := by
  simp only [fail, Bool.or_eq_false_iff] at h1
  have hok := seekg_ok h1.1
  have ht := tellg_nonneg (Int.not_lt.mp h2)
  rw [hok.2.1] at ht
  exact ⟨ht.1, ht.2, by simp, by simp [hok.2.1], by simpa [good, h1.1] using h1.2⟩

end IStream

inductive LazyBool
  | kFalse
  | kTrue
  | kUnknown
  deriving DecidableEq, Repr

structure IStreamReader where
  src : IStream
  limitPos : Nat
  status : Status
  isOpen : Bool
  size : Option Nat
  sizeHint : Option Nat
  randomAccess : LazyBool
  growingSource : Bool
  /-- Ghost: some `IntCast<std::streamoff>` was given a position above its range. -/
  castFault : Bool
  deriving DecidableEq, Repr

namespace IStreamReader

/-- `ok()`. -/
def healthy (r : IStreamReader) : Bool := r.isOpen && decide (r.status = .ok)

/-- Modelled from the spec: a failure is terminal, so the first status stays. -/
def fail (status : Status) (r : IStreamReader) : IStreamReader :=
  { r with status := if r.status = .ok then status else r.status }

section Fail
variable {status : Status} {r : IStreamReader}
@[simp] theorem src_fail : (fail status r).src = r.src := rfl
@[simp] theorem limitPos_fail : (fail status r).limitPos = r.limitPos := rfl
@[simp] theorem size_fail : (fail status r).size = r.size := rfl
@[simp] theorem randomAccess_fail : (fail status r).randomAccess = r.randomAccess := rfl
@[simp] theorem growingSource_fail : (fail status r).growingSource = r.growingSource := rfl
@[simp] theorem castFault_fail : (fail status r).castFault = r.castFault := rfl
@[simp] theorem isOpen_fail : (fail status r).isOpen = r.isOpen := rfl
@[simp] theorem status_fail_eq_ok : (fail status r).status = .ok ↔ r.status = .ok ∧ status = .ok := by
  unfold fail; split <;> simp_all
end Fail

def failOperation (operation : String) (r : IStreamReader) : IStreamReader :=
  fail (.failed (if r.src.errno = 0 then .unknown else .ofErrno r.src.errno) (operation ++ " failed")) r

def failOverflow (r : IStreamReader) : IStreamReader := fail Status.overflow r

def foundSize (size : Nat) (r : IStreamReader) : IStreamReader :=
  { r with size := if r.growingSource then r.size else some size, sizeHint := some size }

def clearErrno (r : IStreamReader) : IStreamReader := { r with src := { r.src with errno := 0 } }

variable (b : Behaviour)

/-- `src.seekg(IntCast<std::streamoff>(p), std::ios_base::beg)`. -/
def seekgTo (p : Nat) (r : IStreamReader) : IStreamReader :=
  { r with src := r.src.seekg b (fun _ => p), castFault := r.castFault || decide (maxStreamOff < p) }

def seekgEnd (r : IStreamReader) : IStreamReader :=
  { r with src := r.src.seekg b List.length }

/-- The reader `BufferedReader` constructs over `src`, before `Initialize()`. -/
def opened (src : IStream) (growingSource : Bool) : IStreamReader :=
  { src, limitPos := 0, status := .ok, isOpen := true, size := none, sizeHint := none,
    randomAccess := .kFalse, growingSource, castFault := false }

def initializeFrom (src : IStream) (growingSource : Bool) (assumedPos : Option Nat) : IStreamReader :=
  let r := opened src growingSource
  if r.src.fail then failOperation "istream::istream()" r
  else
    let r := { r with src := { r.src with eofbit := false } }
    match assumedPos with
    | some p => if maxStreamOff < p then failOverflow r else { r with limitPos := p }
    | none =>
      let (streamPos, s) := r.src.tellg b
      let r := { r with src := s }
      if streamPos < 0 then r else { r with limitPos := streamPos.toNat, randomAccess := .kUnknown }

/-- The `kUnknown` probe: seek to the end, tell the size there, and seek back to `limit_pos()`. -/
def probeRandomAccess (r : IStreamReader) : Bool × IStreamReader :=
  let r := seekgEnd b r
  if r.src.fail then (false, { r with src := { r.src with failbit := false } })
  else
    let r := clearErrno r
    let (streamSize, s) := r.src.tellg b
    let r := { r with src := s }
    if streamSize < 0 then (false, failOperation "istream::tellg()" r)
    else
      let r := seekgTo b r.limitPos r
      if r.src.fail then (false, failOperation "istream::seekg()" r)
      else (true, foundSize streamSize.toNat r)

def supportsRandomAccess (r : IStreamReader) : Bool × IStreamReader :=
  match r.randomAccess with
  | .kFalse => (false, r)
  | .kTrue => (true, r)
  | .kUnknown =>
    let (supported, r) := probeRandomAccess b r
    (supported, { r with randomAccess := if supported then .kTrue else .kFalse })

/-- How one pass of the loop of `ReadInternal()` ends: a return, or `fragment_read:` with bytes. -/
inductive Attempt
  | finished (result : Bool) (r : IStreamReader)
  | fragment (bytes : List Char) (r : IStreamReader)

def readFixed (length : Nat) (r : IStreamReader) : Attempt :=
  .fragment (r.src.read b length).1 { r with src := (r.src.read b length).2 }

def readSome (lengthToRead maxLengthToRead : Nat) (r : IStreamReader) : Attempt :=
  let (c, s) := r.src.peek b
  let r := { r with src := s }
  match c with
  | none =>
    if r.src.fail then .finished false (failOperation "istream::peek()" r)
    else .finished false (foundSize r.limitPos { r with src := { r.src with eofbit := false } })
  | some _ =>
    let (bytes, s) := r.src.readsome b maxLengthToRead
    if 0 < bytes.length then .fragment bytes { r with src := s }
    else readFixed b lengthToRead { r with src := s }

/-- One pass of the loop of `ReadInternal()` up to `fragment_read:`. -/
def readAttempt (minLength maxLength : Nat) (r : IStreamReader) : Attempt :=
  let lengthToRead := min minLength maxStreamOff
  let maxLengthToRead := min maxLength maxStreamOff
  if lengthToRead < maxLengthToRead then
    let (supported, r) := supportsRandomAccess b r
    match supported, r.size with
    | true, some size =>
      readFixed b (min (max lengthToRead (min (size - r.limitPos) maxStreamOff)) maxLengthToRead) r
    | _, _ => readSome b lengthToRead maxLengthToRead r
  else readFixed b lengthToRead r

theorem readFixed_progress {n : Nat} {r r' : IStreamReader} {bytes : List Char}
    (h : readFixed b n r = .fragment bytes r') (hn : 0 < n) (hf : r'.src.fail = false) :
    0 < bytes.length := by
  simp only [readFixed, Attempt.fragment.injEq] at h
  obtain ⟨rfl, rfl⟩ := h
  rw [(IStream.read_ok hf).1]
  exact hn

theorem readAttempt_progress {minLength maxLength : Nat} {r r' : IStreamReader} {bytes : List Char}
    (h : readAttempt b minLength maxLength r = .fragment bytes r') (hmin : 0 < minLength)
    (hf : r'.src.fail = false) : 0 < bytes.length := by
  have hmax : 0 < maxStreamOff := by decide
  simp only [readAttempt] at h
  split at h
  · split at h
    · exact readFixed_progress b h (by omega) hf
    · simp only [readSome] at h
      split at h
      · split at h <;> cases h
      · split at h
        · cases h; assumption
        · exact readFixed_progress b h (by omega) hf
  · exact readFixed_progress b h (by omega) hf

/-- The loop of `ReadInternal()` from `fragment_read:` on, with the bytes stored at `dest`. -/
def readLoop (minLength maxLength : Nat) (r : IStreamReader) : Bool × List Char × IStreamReader :=
  match _h : readAttempt b minLength maxLength r with
  | .finished result r => (result, [], r)
  | .fragment bytes r =>
    let r := { r with limitPos := r.limitPos + bytes.length }
    if _hfail : r.src.fail then
      let r := if r.src.badbit then failOperation "istream::read()" r
        else foundSize r.limitPos { r with src := { r.src with eofbit := false, failbit := false } }
      (decide (minLength ≤ bytes.length), bytes, r)
    else if minLength ≤ bytes.length then (true, bytes, r)
    else
      let (result, rest, r) := readLoop (minLength - bytes.length) (maxLength - bytes.length) r
      (result, bytes ++ rest, r)
termination_by minLength
decreasing_by
  have := readAttempt_progress b _h (by omega) (by simpa using _hfail)
  omega

/-- `ReadInternal(min_length, max_length, dest)`: the result, and the bytes stored at `dest`. -/
def readInternal (minLength maxLength : Nat) (r : IStreamReader) : Bool × List Char × IStreamReader :=
  if r.size.any (fun size => decide (size ≤ r.limitPos)) then (false, [], r)
  else if maxStreamOff - r.limitPos < maxLength then
    if maxStreamOff - r.limitPos < minLength then (false, [], failOverflow r)
    else readLoop b minLength (maxStreamOff - r.limitPos) (clearErrno r)
  else readLoop b minLength maxLength (clearErrno r)

/-- Modelled from the spec: the default `BufferedReader::SeekBehindBuffer()` fails. -/
def bufferedReaderSeekBehindBuffer (_newPos : Nat) (r : IStreamReader) : Bool × IStreamReader :=
  (false, fail (.failed .unimplemented "Reader::Seek() not supported") r)

/-- Modelled from the spec and its call site's comment: the default `BufferedReader::SizeImpl()`
fails. -/
def bufferedReaderSizeImpl (r : IStreamReader) : Option Nat × IStreamReader :=
  (none, fail (.failed .unimplemented "Reader::Size() not supported") r)

def seekAbsolute (newPos : Nat) (r : IStreamReader) : Bool × IStreamReader :=
  let r := seekgTo b newPos r
  if r.src.fail then (false, failOperation "istream::seekg()" r) else (true, { r with limitPos := newPos })

def seekBehindBuffer (newPos : Nat) (r : IStreamReader) : Bool × IStreamReader :=
  let (supported, r) := supportsRandomAccess b r
  if !supported then bufferedReaderSeekBehindBuffer newPos r
  else if !r.healthy then (false, r)
  else
    let r := clearErrno r
    if r.limitPos < newPos then
      match r.size with
      | some size =>
        if size < newPos then
          let r := seekgTo b size r
          if r.src.fail then (false, failOperation "istream::seekg()" r)
          else (false, { r with limitPos := size })
        else seekAbsolute b newPos r
      | none =>
        let r := seekgEnd b r
        if r.src.fail then (false, failOperation "istream::seekg()" r)
        else
          let (streamSize, s) := r.src.tellg b
          let r := { r with src := s }
          if streamSize < 0 then (false, failOperation "istream::tellg()" r)
          else
            let r := foundSize streamSize.toNat r
            if streamSize.toNat < newPos then (false, { r with limitPos := streamSize.toNat })
            else seekAbsolute b newPos r
    else seekAbsolute b newPos r

def sizeImpl (r : IStreamReader) : Option Nat × IStreamReader :=
  let (supported, r) := supportsRandomAccess b r
  if !supported then bufferedReaderSizeImpl r
  else if !r.healthy then (none, r)
  else
    match r.size with
    | some size => (some size, r)
    | none =>
      let r := seekgEnd b (clearErrno r)
      if r.src.fail then (none, failOperation "istream::seekg()" r)
      else
        let (streamSize, s) := r.src.tellg b
        let r := { r with src := s }
        if streamSize < 0 then (none, failOperation "istream::tellg()" r)
        else
          let r := seekgTo b r.limitPos r
          if r.src.fail then (none, failOperation "istream::seekg()" r)
          else (some streamSize.toNat, foundSize streamSize.toNat r)

/-- Modelled from the spec: `BufferedReader::Done()` closes the reader. -/
def bufferedReaderDone (r : IStreamReader) : IStreamReader := { r with isOpen := false }

def done (r : IStreamReader) : IStreamReader :=
  let r := bufferedReaderDone r
  if r.randomAccess = .kUnknown then { r with randomAccess := .kFalse } else r

/-- The calls `BufferedReader` and the public `Reader` interface make. -/
inductive Op
  | readInternal (minLength maxLength : Nat)
  | seekBehindBuffer (newPos : Nat)
  | sizeImpl
  | supportsRandomAccess
  | done
  deriving DecidableEq, Repr

/-- The preconditions the code asserts on entry. -/
def Op.Allowed (r : IStreamReader) : Op → Prop
  | .readInternal minLength maxLength => 0 < minLength ∧ minLength ≤ maxLength ∧ r.healthy = true
  | .seekBehindBuffer newPos => newPos ≠ r.limitPos
  | _ => True

instance (r : IStreamReader) : (op : Op) → Decidable (op.Allowed r)
  | .readInternal _ _ => inferInstanceAs (Decidable (_ ∧ _ ∧ _))
  | .seekBehindBuffer _ => inferInstanceAs (Decidable (¬_ = _))
  | .sizeImpl | .supportsRandomAccess | .done => isTrue trivial

def step : Op → IStreamReader → IStreamReader
  | .readInternal minLength maxLength, r => (readInternal b minLength maxLength r).2.2
  | .seekBehindBuffer newPos, r => (seekBehindBuffer b newPos r).2
  | .sizeImpl, r => (sizeImpl b r).2
  | .supportsRandomAccess, r => (supportsRandomAccess b r).2
  | .done, r => done r

/-- The stream a reader may start on. -/
structure Counted (src : IStream) (assumedPos : Option Nat) : Prop where
  pos_le : src.pos ≤ src.data.length
  assumed : ∀ p, assumedPos = some p → p = src.pos
  untold : assumedPos = none → (src.tellg b).1 < 0 → src.pos = 0

/-- The states reachable from `Initialize()` by calls whose asserted preconditions hold. -/
inductive Reachable : IStreamReader → Prop
  | init {src : IStream} {growingSource : Bool} {assumedPos : Option Nat}
      (h : Counted b src assumedPos) : Reachable (initializeFrom b src growingSource assumedPos)
  | step {r : IStreamReader} (op : Op) (hr : Reachable r) (hop : op.Allowed r) :
      Reachable (step b op r)

end IStreamReader

end Riegeli
