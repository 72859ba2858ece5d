import Riegeli.WriterCFileSpec

/-!
# The cookie is a file

A `FILE` that `WriterCFile` opens over a `Writer`, whose `ReadMode()` reader reads what was
written, behaves as one file with one position, whichever mode the cookie is in: `read()`
returns the file's next bytes, `write()` overwrites at the position, `fseek()` moves it. Of the
`Writer` and the `Reader`, `Backend.FileLike` states what each operation does to the file it
presents; the switches between write mode and read mode, the effective position and the
targets of `Seek()` are the cookie's own.
-/

namespace Riegeli
namespace WriterCFile

/-- Contents and one position. -/
structure File where
  contents : List Char
  pos : Nat
  deriving DecidableEq, Repr

namespace File

/-- Writing at the position overwrites, and extends the file past its end. -/
def write (src : List Char) (f : File) : File :=
  { contents := f.contents.take f.pos ++ src ++ f.contents.drop (f.pos + src.length)
    pos := f.pos + src.length }

/-- A seek stops at the end of the file. -/
def seekTo (p : Nat) (f : File) : File := { f with pos := min p f.contents.length }

/-- The position `fseek(offset, whence)` asks for, when it lies in `[0, INT64_MAX]`. -/
def target (offset : Int) (whence : Whence) (f : File) : Option Nat :=
  let base : Int := match whence with
    | .seekSet => 0
    | .seekCur => f.pos
    | .seekEnd => f.contents.length
  if whence = .seekEnd ∧ 0 < offset then none
  else if 0 ≤ base + offset ∧ base + offset ≤ maxInt64 then some (base + offset).toNat
  else none

variable {f : File} {p : Nat} {src : List Char}

@[simp] theorem seekTo_contents : (f.seekTo p).contents = f.contents := rfl
@[simp] theorem seekTo_pos : (f.seekTo p).pos = min p f.contents.length := rfl
@[simp] theorem write_pos : (f.write src).pos = f.pos + src.length := rfl

theorem seekTo_eq {g : File} (hc : g.contents = f.contents) (hp : g.pos ≤ g.contents.length) :
    f.seekTo g.pos = g := by
  cases g
  simp only [seekTo] at *
  subst hc
  simp only [Nat.min_eq_left hp]

theorem target_seekSet {offset : Int} : f.target offset .seekSet =
    if 0 ≤ offset ∧ offset ≤ maxInt64 then some offset.toNat else none := by
  simp [target]

theorem target_seekCur {offset : Int} : f.target offset .seekCur =
    if 0 ≤ f.pos + offset ∧ f.pos + offset ≤ maxInt64 then some (f.pos + offset).toNat else none := by
  simp [target]

theorem target_seekEnd {offset : Int} : f.target offset .seekEnd =
    if offset ≤ 0 ∧ 0 ≤ f.contents.length + offset ∧ f.contents.length + offset ≤ maxInt64
    then some (f.contents.length + offset).toNat else none := by
  simp only [target, and_true, true_and]
  split_ifs <;> first | rfl | (exfalso; omega)

theorem pos_write_le (h : f.pos ≤ f.contents.length) :
    (f.write src).pos ≤ (f.write src).contents.length := by
  simp only [write, List.length_append, List.length_take, List.length_drop]
  omega

end File

/-- A call through `WriterCFileRead`, `WriterCFileWrite` or `WriterCFileSeek`. -/
inductive Call
  | read (length : Nat)
  | write (src : List Char)
  | seek (offset : Int) (whence : Whence)
  deriving DecidableEq, Repr

/-- An `int64_t` offset other than `INT64_MIN`, whose negation `Seek()` may evaluate. -/
def Call.Defined : Call → Prop
  | .seek offset _ => minInt64 < offset ∧ offset ≤ maxInt64
  | _ => True

instance (x : Call) : Decidable x.Defined :=
  match x with
  | .read _ => isTrue trivial
  | .write _ => isTrue trivial
  | .seek _ _ => inferInstanceAs (Decidable (_ ∧ _))

/-- What a callback returns; for `seek` the value returned and `*offset`. -/
inductive Reply
  | read (n : Int) (bytes : List Char)
  | write (n : Int)
  | seek (result offset : Int)
  deriving DecidableEq, Repr

variable {W R : Type} (B : Backend W R)

/-- One call on the cookie; `none` when `Seek()` evaluates an undefined expression. -/
def call : Call → Cookie W R → Option (Reply × Cookie W R)
  | .read length, c => let (n, out, c) := read B length c; some (.read n out, c)
  | .write src, c => let (n, c) := write B src c; some (.write n, c)
  | .seek offset whence, c =>
    (writerCFileSeek B offset whence c).map fun (res, o, c) => (.seek res o, c)

/-- A sequence of calls, with the replies in order. -/
def run : List Call → Cookie W R → Option (List Reply × Cookie W R)
  | [], c => some ([], c)
  | x :: xs, c =>
    match call B x c with
    | none => none
    | some (y, c) => (run xs c).map fun (ys, c) => (y :: ys, c)

namespace File

/-- How a call ends on the file. -/
inductive Answer
  | read (k : Nat) (bytes : List Char)
  | write (n : Nat)
  | landed (p : Nat)
  | refused
  | pastEnd
  deriving DecidableEq, Repr

/-- One call on the file. A read may return fewer bytes than asked, but none only at the end
or when asked for none. A seek past the end stops at the end and fails. -/
inductive Step : File → Call → Answer → File → Prop
  | read {f : File} {length k : Nat} (hk : k ≤ length) (hfit : f.pos + k ≤ f.contents.length)
      (hshort : k = 0 → length = 0 ∨ f.contents.length ≤ f.pos) :
      Step f (.read length) (.read k (slice f.contents f.pos (f.pos + k))) { f with pos := f.pos + k }
  | write {f : File} {src : List Char} : Step f (.write src) (.write src.length) (f.write src)
  | refused {f : File} {offset : Int} {whence : Whence} (h : f.target offset whence = none) :
      Step f (.seek offset whence) .refused f
  | landed {f : File} {offset : Int} {whence : Whence} {p : Nat}
      (h : f.target offset whence = some p) (hp : p ≤ f.contents.length) :
      Step f (.seek offset whence) (.landed p) (f.seekTo p)
  | pastEnd {f : File} {offset : Int} {whence : Whence} {p : Nat}
      (h : f.target offset whence = some p) (hp : f.contents.length < p) :
      Step f (.seek offset whence) .pastEnd (f.seekTo p)

inductive Run : File → List Call → List Answer → File → Prop
  | nil {f : File} : Run f [] [] f
  | cons {f f₁ f₂ : File} {x : Call} {a : Answer} {xs : List Call} {as : List Answer} :
      Step f x a f₁ → Run f₁ xs as f₂ → Run f (x :: xs) (a :: as) f₂

theorem Step.eof {f : File} {length : Nat} (h : length = 0 ∨ f.contents.length ≤ f.pos)
    (hf : f.pos ≤ f.contents.length) : Step f (.read length) (.read 0 []) f := by
  simpa using Step.read (f := f) (k := 0) (Nat.zero_le length) (by omega) fun _ => h

/-- The reply `fopencookie()` asks for: `-1` for a seek that fails. -/
def Answer.reply : Answer → Reply
  | .read k bytes => .read k bytes
  | .write n => .write n
  | .landed p => .seek 0 p
  | .refused | .pastEnd => .seek (-1) (-1)

/-- The reply the cookie gives: `Seek()` returns a failure past the end as the value `-1`,
which `WriterCFileSeek()` reports as a success. -/
def Answer.cookieReply : Answer → Reply
  | .pastEnd => .seek 0 (-1)
  | a => a.reply

theorem Answer.cookieReply_eq_reply {a : Answer} : a.cookieReply = a.reply ↔ a ≠ .pastEnd := by
  cases a <;> simp [cookieReply, reply]

/-- The cookie replies as asked exactly when no seek went past the end. -/
theorem map_cookieReply_eq_map_reply {as : List Answer} :
    as.map Answer.cookieReply = as.map Answer.reply ↔ Answer.pastEnd ∉ as := by
  rw [List.map_inj_left]
  exact ⟨fun h hp => Answer.cookieReply_eq_reply.mp (h _ hp) rfl,
    fun h a ha => Answer.cookieReply_eq_reply.mpr fun he => h (he ▸ ha)⟩

end File

/-- The `Writer` and the `Reader` of `ReadMode()` behave as one file each, stated per operation. -/
structure Backend.FileLike (wfile : W → File) (rfile : R → File) : Prop where
  writerPos : ∀ w, B.writerPos w = (wfile w).pos
  writerWrite : ∀ src w, ∃ w', B.writerWrite src w = (true, w') ∧ wfile w' = (wfile w).write src
  writerFlush : ∀ w, ∃ w', B.writerFlush w = (true, w') ∧ wfile w' = wfile w
  writerSeek : ∀ p w, ∃ w', B.writerSeek p w = (decide (p ≤ (wfile w).contents.length), w') ∧
    wfile w' = (wfile w).seekTo p
  writerSize : ∀ w, B.writerSupportsSize w = true ∧
    ∃ w', B.writerSize w = (some (wfile w).contents.length, w') ∧ wfile w' = wfile w
  readMode : ∀ p w, ∃ r w', B.readMode p w = (some r, w') ∧ wfile w' = wfile w ∧
    rfile r = (wfile w).seekTo p
  seekable : ∀ w, B.supportsRandomAccess w = true ∨ B.supportsReadMode w = true
  readerPos : ∀ r, B.readerPos r = (rfile r).pos
  available_le : ∀ r, (rfile r).pos ≤ (rfile r).contents.length →
    (rfile r).pos + B.available r ≤ (rfile r).contents.length
  pull : ∀ n r, ∃ r', B.pull 1 n r = (decide ((rfile r).pos < (rfile r).contents.length), r') ∧
    rfile r' = rfile r ∧ ((rfile r).pos < (rfile r).contents.length → 0 < B.available r')
  readerRead : ∀ k r, k ≤ B.available r → ∃ r',
    B.readerRead k r = (true, slice (rfile r).contents (rfile r).pos ((rfile r).pos + k), r') ∧
      rfile r' = { rfile r with pos := (rfile r).pos + k }
  readerSeek : ∀ p r, ∃ r', B.readerSeek p r = (decide (p ≤ (rfile r).contents.length), r') ∧
    rfile r' = (rfile r).seekTo p
  readerSize : ∀ r, B.readerSupportsSize r = true ∧
    ∃ r', B.readerSize r = (some (rfile r).contents.length, r') ∧ rfile r' = rfile r

/-- The file the cookie presents: its reader's in read mode, else its writer's. -/
def fileOf (wfile : W → File) (rfile : R → File) (c : Cookie W R) : File :=
  match c.reader with
  | some r => rfile r
  | none => wfile c.writer

/-- The writer stands inside its file, and a reader reads what the writer wrote. -/
structure Coherent (wfile : W → File) (rfile : R → File) (c : Cookie W R) : Prop where
  writer_le : (wfile c.writer).pos ≤ (wfile c.writer).contents.length
  reader : ∀ r, c.reader = some r →
    (rfile r).contents = (wfile c.writer).contents ∧ (rfile r).pos ≤ (rfile r).contents.length

section Refinement

variable {B} {wfile : W → File} {rfile : R → File}

theorem Coherent.pos_le {c : Cookie W R} (hc : Coherent wfile rfile c) :
    (fileOf wfile rfile c).pos ≤ (fileOf wfile rfile c).contents.length := by
  unfold fileOf
  split
  · exact (hc.reader _ ‹_›).2
  · exact hc.writer_le

theorem Coherent.contents {c : Cookie W R} (hc : Coherent wfile rfile c) :
    (fileOf wfile rfile c).contents = (wfile c.writer).contents := by
  unfold fileOf
  split
  · exact (hc.reader _ ‹_›).1
  · rfl

theorem effectivePos_eq (hF : B.FileLike wfile rfile) (c : Cookie W R) :
    effectivePos B c = (fileOf wfile rfile c).pos := by
  cases hr : c.reader <;> simp only [effectivePos, fileOf, hr, hF.readerPos, hF.writerPos]

theorem readFrom_step (hF : B.FileLike wfile rfile) (length : Nat) {r : R} {c : Cookie W R}
    (hw : (wfile c.writer).pos ≤ (wfile c.writer).contents.length)
    (hrc : (rfile r).contents = (wfile c.writer).contents)
    (hrp : (rfile r).pos ≤ (rfile r).contents.length) :
    Coherent wfile rfile (readFrom B length r c).2.2 ∧
      ∃ a, File.Step (rfile r) (.read length) a (fileOf wfile rfile (readFrom B length r c).2.2) ∧
        a.cookieReply = .read (readFrom B length r c).1 (readFrom B length r c).2.1 := by
  obtain ⟨r₁, hp, hr₁, hav⟩ := hF.pull length r
  unfold readFrom
  rw [hp]
  by_cases hlt : (rfile r).pos < (rfile r).contents.length
  · rw [decide_eq_true hlt]
    obtain ⟨r₂, hrd, hr₂⟩ := hF.readerRead (min length (B.available r₁)) r₁ (min_le_right _ _)
    have hle := hF.available_le r₁ (by rw [hr₁]; exact hrp)
    have ha := hav hlt
    dsimp only
    rw [hrd]
    rw [hr₁] at hr₂ hle
    refine ⟨⟨hw, fun r' h => ?_⟩, ?_⟩
    · cases h; rw [hr₂]; exact ⟨hrc, by simp only; omega⟩
    · simp only [fileOf, hr₂, hr₁]
      exact ⟨_, .read (min_le_left _ _) (by omega) (by omega), rfl⟩
  · rw [decide_eq_false hlt]
    refine ⟨⟨hw, fun r' h => ?_⟩, ?_⟩
    · cases h; rw [hr₁]; exact ⟨hrc, hrp⟩
    · simp only [fileOf, hr₁]
      exact ⟨_, .eof (.inr (by omega)) hrp, rfl⟩

theorem read_step (hF : B.FileLike wfile rfile) {c : Cookie W R} (hc : Coherent wfile rfile c)
    (length : Nat) :
    Coherent wfile rfile (read B length c).2.2 ∧
      ∃ a, File.Step (fileOf wfile rfile c) (.read length) a (fileOf wfile rfile (read B length c).2.2) ∧
        a.cookieReply = .read (read B length c).1 (read B length c).2.1 := by
  unfold read
  cases hr : c.reader with
  | some r =>
    obtain ⟨hrc, hrp⟩ := hc.reader r hr
    simpa only [fileOf, hr] using readFrom_step hF length hc.writer_le hrc hrp
  | none =>
    obtain ⟨r, w, hm, hw, hrf⟩ := hF.readMode (B.writerPos c.writer) c.writer
    have hself : rfile r = wfile c.writer := by
      rw [hrf, hF.writerPos, File.seekTo_eq rfl hc.writer_le]
    have hpos : B.readerPos r = B.writerPos c.writer := by rw [hF.readerPos, hF.writerPos, hself]
    dsimp only
    rw [hm]
    dsimp only
    rw [if_neg (not_not.mpr hpos)]
    have h := readFrom_step hF length (c := { c with writer := w, reader := some r })
      (by rw [hw]; exact hc.writer_le) (by rw [hw, hself]) (by rw [hself]; exact hc.writer_le)
    simpa only [fileOf, hr, hself] using h

theorem leaveReadMode_file (hF : B.FileLike wfile rfile) {c : Cookie W R} (hc : Coherent wfile rfile c) :
    (leaveReadMode B c).1 = true ∧ (leaveReadMode B c).2.reader = none ∧
      wfile (leaveReadMode B c).2.writer = fileOf wfile rfile c := by
  unfold leaveReadMode
  cases hr : c.reader with
  | none => simp [fileOf, hr]
  | some r =>
    obtain ⟨hrc, hrp⟩ := hc.reader r hr
    obtain ⟨w, hs, hw⟩ := hF.writerSeek (B.readerPos r) c.writer
    have hle : B.readerPos r ≤ (wfile c.writer).contents.length := by
      rw [hF.readerPos, ← hrc]; exact hrp
    dsimp only
    rw [hs, decide_eq_true hle]
    refine ⟨rfl, rfl, ?_⟩
    rw [hw, hF.readerPos]
    simpa only [fileOf, hr] using File.seekTo_eq hrc hrp

theorem writeThenFlush_file (hF : B.FileLike wfile rfile) (c : Cookie W R) (src : List Char) :
    (writeThenFlush B src c).1 = src.length ∧ (writeThenFlush B src c).2.reader = c.reader ∧
      wfile (writeThenFlush B src c).2.writer = (wfile c.writer).write src := by
  obtain ⟨w, hwr, hw⟩ := hF.writerWrite src c.writer
  unfold writeThenFlush
  rw [hwr]
  dsimp only
  split
  · obtain ⟨w', hfl, hw'⟩ := hF.writerFlush w
    rw [hfl]
    exact ⟨rfl, rfl, hw'.trans hw⟩
  · exact ⟨rfl, rfl, hw⟩

theorem write_step (hF : B.FileLike wfile rfile) {c : Cookie W R} (hc : Coherent wfile rfile c)
    (src : List Char) :
    Coherent wfile rfile (write B src c).2 ∧ (write B src c).1 = src.length ∧
      File.Step (fileOf wfile rfile c) (.write src) (.write src.length)
        (fileOf wfile rfile (write B src c).2) := by
  obtain ⟨hok, hnone, hw⟩ := leaveReadMode_file hF hc
  unfold write
  generalize leaveReadMode B c = q at hok hnone hw
  obtain ⟨ok, c₁⟩ := q
  dsimp only at hok hnone hw ⊢
  subst hok
  rw [if_neg (by simp)]
  obtain ⟨hn, hr, hw'⟩ := writeThenFlush_file hF c₁ src
  refine ⟨⟨?_, fun r h => by rw [hr, hnone] at h; cases h⟩, hn, ?_⟩
  · rw [hw', hw]; exact File.pos_write_le hc.pos_le
  · simp only [fileOf, hr, hnone, hw', hw]
    exact .write

theorem querySize_file (hF : B.FileLike wfile rfile) {c : Cookie W R} (hc : Coherent wfile rfile c) :
    (querySize B c).1 = .ok (fileOf wfile rfile c).contents.length ∧
      Coherent wfile rfile (querySize B c).2 ∧ fileOf wfile rfile (querySize B c).2 = fileOf wfile rfile c := by
  unfold querySize
  cases hr : c.reader with
  | some r =>
    obtain ⟨hsup, r', hsz, hr'⟩ := hF.readerSize r
    obtain ⟨hrc, hrp⟩ := hc.reader r hr
    simp only [hsup, not_true_eq_false, if_false, hsz, fileOf, hr, hr']
    exact ⟨trivial, ⟨hc.writer_le, fun r₁ h => by cases h; rw [hr']; exact ⟨hrc, hrp⟩⟩, trivial⟩
  | none =>
    obtain ⟨hsup, w', hsz, hw'⟩ := hF.writerSize c.writer
    simp only [hsup, not_true_eq_false, if_false, hsz, fileOf, hr, hw']
    exact ⟨trivial, ⟨by rw [hw']; exact hc.writer_le, fun r₁ h => by simp [hr] at h⟩, trivial⟩

theorem seekTarget_file (hF : B.FileLike wfile rfile) {c : Cookie W R} (hc : Coherent wfile rfile c)
    {offset : Int} (h1 : minInt64 < offset) (h2 : offset ≤ maxInt64) (whence : Whence) :
    Coherent wfile rfile (seekTarget B offset whence c).2 ∧
      fileOf wfile rfile (seekTarget B offset whence c).2 = fileOf wfile rfile c ∧
      (seekTarget B offset whence c).1 =
        match (fileOf wfile rfile c).target offset whence with
        | none => .rejected .einval
        | some p => .target p := by
  have hne : offset ≠ minInt64 := Int.ne_of_gt h1
  cases whence with
  | seekSet =>
    refine ⟨hc, rfl, ?_⟩
    simp only [seekTarget, seekSetTarget_eq, File.target_seekSet]
    split_ifs <;> first | rfl | (exfalso; omega)
  | seekCur =>
    refine ⟨hc, rfl, ?_⟩
    simp only [seekTarget, seekCurTarget_of_ne hne, effectivePos_eq hF, File.target_seekCur]
    split_ifs <;> rfl
  | seekEnd =>
    obtain ⟨hs, hc₁, hf₁⟩ := querySize_file hF hc
    unfold seekTarget
    generalize querySize B c = q at hs hc₁ hf₁
    obtain ⟨e, c₁⟩ := q
    dsimp only at hs hc₁ hf₁ ⊢
    subst hs
    refine ⟨hc₁, hf₁, ?_⟩
    simp only [seekEndTarget_of_ne hne, File.target_seekEnd]
    split_ifs <;> rfl

theorem Coherent.of_eq {c c' : Cookie W R} (h : Coherent wfile rfile c) (hw : c'.writer = c.writer)
    (hr : c'.reader = c.reader) : Coherent wfile rfile c' :=
  ⟨hw ▸ h.writer_le, fun r h' => hw ▸ h.reader r (hr ▸ h')⟩

theorem seekTo_step (hF : B.FileLike wfile rfile) {c : Cookie W R} (hc : Coherent wfile rfile c)
    (p : Nat) :
    Coherent wfile rfile (seekTo B p c).2 ∧
      fileOf wfile rfile (seekTo B p c).2 = (fileOf wfile rfile c).seekTo p ∧
      (seekTo B p c).1 = some (if p ≤ (fileOf wfile rfile c).contents.length then (p : Int) else -1) := by
  unfold seekTo
  by_cases he : p = effectivePos B c
  · rw [if_pos he]
    rw [effectivePos_eq hF] at he
    subst he
    exact ⟨hc, (File.seekTo_eq rfl hc.pos_le).symm, by rw [if_pos hc.pos_le]⟩
  rw [if_neg he]
  cases hr : c.reader with
  | some r =>
    obtain ⟨hrc, hrp⟩ := hc.reader r hr
    obtain ⟨r', hs, hr'⟩ := hF.readerSeek p r
    have hco : Coherent wfile rfile { c with reader := some r' } :=
      ⟨hc.writer_le, fun r₁ h => by cases h; rw [hr']; exact ⟨hrc, min_le_right _ _⟩⟩
    have hf : fileOf wfile rfile c = rfile r := by simp only [fileOf, hr]
    rw [hf]
    dsimp only
    rw [hs]
    by_cases hle : p ≤ (rfile r).contents.length
    · rw [decide_eq_true hle]
      exact ⟨hco, by simp only [fileOf, hr'], by rw [if_pos hle]⟩
    · rw [decide_eq_false hle]
      exact ⟨hco.of_eq rfl rfl, by simp only [fileOf, hr'], by rw [if_neg hle]⟩
  | none =>
    have hf : fileOf wfile rfile c = wfile c.writer := by simp only [fileOf, hr]
    rw [hf]
    dsimp only
    by_cases hra : B.supportsRandomAccess c.writer = true
    · rw [if_pos hra]
      obtain ⟨w', hs, hw'⟩ := hF.writerSeek p c.writer
      rw [hs]
      have hco : Coherent wfile rfile { c with writer := w', reader := none } :=
        ⟨by rw [hw']; exact min_le_right _ _, fun r₁ h => by cases h⟩
      by_cases hle : p ≤ (wfile c.writer).contents.length
      · rw [decide_eq_true hle]
        exact ⟨hco, by simp only [fileOf, hr, hw'], by rw [if_pos hle]⟩
      · rw [decide_eq_false hle]
        exact ⟨hco.of_eq rfl rfl, by simp only [fileOf, hr, hw'], by rw [if_neg hle]⟩
    · rw [if_neg hra, if_neg (by simpa using (hF.seekable c.writer).resolve_left hra)]
      obtain ⟨r, w', hm, hw', hrf⟩ := hF.readMode p c.writer
      rw [hm]
      dsimp only
      have hco : Coherent wfile rfile { c with writer := w', reader := some r } :=
        ⟨by rw [hw']; exact hc.writer_le, fun r₁ h => by
          cases h; rw [hrf, hw']; exact ⟨rfl, min_le_right _ _⟩⟩
      have hpos : B.readerPos r = min p (wfile c.writer).contents.length := by
        rw [hF.readerPos, hrf]; rfl
      by_cases hle : p ≤ (wfile c.writer).contents.length
      · rw [if_neg (by rw [hpos]; omega)]
        exact ⟨hco, by simp only [fileOf, hrf], by rw [if_pos hle]⟩
      · rw [if_pos (by rw [hpos]; omega)]
        exact ⟨hco.of_eq rfl rfl, by simp only [fileOf, hrf], by rw [if_neg hle]⟩

theorem writerCFileSeek_step (hF : B.FileLike wfile rfile) {c : Cookie W R}
    (hc : Coherent wfile rfile c) {offset : Int} (h1 : minInt64 < offset) (h2 : offset ≤ maxInt64)
    (whence : Whence) :
    ∃ res o c' a, writerCFileSeek B offset whence c = some (res, o, c') ∧
      a.cookieReply = .seek res o ∧ Coherent wfile rfile c' ∧
      File.Step (fileOf wfile rfile c) (.seek offset whence) a (fileOf wfile rfile c') := by
  obtain ⟨hc₁, hf₁, ht⟩ := seekTarget_file hF hc h1 h2 whence
  unfold writerCFileSeek seek
  generalize seekTarget B offset whence c = q at hc₁ hf₁ ht
  obtain ⟨st, c₁⟩ := q
  dsimp only at hc₁ hf₁ ht ⊢
  cases htg : (fileOf wfile rfile c).target offset whence with
  | none =>
    rw [htg] at ht
    subst ht
    refine ⟨-1, -1, _, .refused, rfl, rfl, hc₁.of_eq rfl rfl, ?_⟩
    show File.Step _ _ _ (fileOf wfile rfile c₁)
    rw [hf₁]
    exact .refused htg
  | some p =>
    rw [htg] at ht
    subst ht
    obtain ⟨hc₂, hf₂, hres⟩ := seekTo_step hF hc₁ p
    rw [hf₁] at hf₂ hres
    dsimp only
    rw [show seekTo B p c₁ = (_, (seekTo B p c₁).2) from Prod.ext hres rfl]
    by_cases hle : p ≤ (fileOf wfile rfile c).contents.length
    · rw [if_pos hle]
      exact ⟨0, p, _, .landed p, rfl, rfl, hc₂, hf₂ ▸ .landed htg hle⟩
    · rw [if_neg hle]
      exact ⟨0, -1, _, .pastEnd, rfl, rfl, hc₂, hf₂ ▸ .pastEnd htg (by omega)⟩

/-- One call on a coherent cookie is one call on the file it presents. -/
theorem call_step (hF : B.FileLike wfile rfile) {c : Cookie W R} (hc : Coherent wfile rfile c)
    {x : Call} (hx : x.Defined) :
    ∃ a c', call B x c = some (a.cookieReply, c') ∧ Coherent wfile rfile c' ∧
      File.Step (fileOf wfile rfile c) x a (fileOf wfile rfile c') := by
  cases x with
  | read length =>
    obtain ⟨h₁, a, h₂, h₃⟩ := read_step hF hc length
    exact ⟨a, _, by rw [h₃]; rfl, h₁, h₂⟩
  | write src =>
    obtain ⟨h₁, hn, h₂⟩ := write_step hF hc src
    exact ⟨.write src.length, _, by simp only [call, hn]; rfl, h₁, h₂⟩
  | seek offset whence =>
    obtain ⟨res, o, c', a, h, ha, h₁, h₂⟩ := writerCFileSeek_step hF hc hx.1 hx.2 whence
    exact ⟨a, c', by simp only [call, h, ha, Option.map_some'], h₁, h₂⟩

theorem run_answers (hF : B.FileLike wfile rfile) {c : Cookie W R} (hc : Coherent wfile rfile c)
    {xs : List Call} (hxs : ∀ x ∈ xs, x.Defined) :
    ∃ as c', run B xs c = some (as.map File.Answer.cookieReply, c') ∧ Coherent wfile rfile c' ∧
      File.Run (fileOf wfile rfile c) xs as (fileOf wfile rfile c') := by
  induction xs generalizing c with
  | nil => exact ⟨[], c, rfl, hc, .nil⟩
  | cons x xs ih =>
    obtain ⟨a, c₁, hcall, hc₁, hstep⟩ := call_step hF hc (hxs x (List.mem_cons_self x xs))
    obtain ⟨as, c₂, hrun, hc₂, hrest⟩ := ih hc₁ fun x' hx' => hxs x' (List.mem_cons_of_mem x hx')
    exact ⟨a :: as, c₂, by simp only [run, hcall, hrun, Option.map_some', List.map_cons], hc₂,
      .cons hstep hrest⟩

/-- Every run of calls on a coherent cookie is a run of the file it presents, whether the cookie
is in write mode or in read mode: reads return the file's bytes at the position, writes
overwrite there, seeks move it. The cookie replies as the file asks, except at a seek past the
end, which the file fails and the cookie reports as a success at `-1`. -/
theorem run_refines_file (hF : B.FileLike wfile rfile) {c : Cookie W R} (hc : Coherent wfile rfile c)
    {xs : List Call} (hxs : ∀ x ∈ xs, x.Defined) :
    ∃ as ys c', run B xs c = some (ys, c') ∧ Coherent wfile rfile c' ∧
      File.Run (fileOf wfile rfile c) xs as (fileOf wfile rfile c') ∧
      ys = as.map File.Answer.cookieReply ∧
      (ys = as.map File.Answer.reply ↔ File.Answer.pastEnd ∉ as) := by
  obtain ⟨as, c', hrun, hc', hfile⟩ := run_answers hF hc hxs
  exact ⟨as, _, c', hrun, hc', hfile, rfl, File.map_cookieReply_eq_map_reply⟩

end Refinement

/-- A writer over a file in memory, without random access, whose `ReadMode()` reads it. -/
def fileBackend : Backend File File where
  writerPos f := f.pos
  writerOk _ := true
  writerCode _ := .unknown
  writerSeek p f := (decide (p ≤ f.contents.length), f.seekTo p)
  writerWrite src f := (true, f.write src)
  writerFlush f := (true, f)
  writerSize f := (some f.contents.length, f)
  readMode p f := (some (f.seekTo p), f)
  supportsRandomAccess _ := false
  supportsReadMode _ := true
  writerSupportsSize _ := true
  readerPos f := f.pos
  readerOk _ := true
  readerCode _ := .unknown
  available f := f.contents.length - f.pos
  pull _ _ f := (decide (f.pos < f.contents.length), f)
  readerRead k f := (true, slice f.contents f.pos (f.pos + k), { f with pos := f.pos + k })
  readerSeek p f := (decide (p ≤ f.contents.length), f.seekTo p)
  readerSize f := (some f.contents.length, f)
  readerSupportsSize _ := true

theorem fileLike_fileBackend : fileBackend.FileLike id id where
  writerPos _ := rfl
  writerWrite _ _ := ⟨_, rfl, rfl⟩
  writerFlush _ := ⟨_, rfl, rfl⟩
  writerSeek _ _ := ⟨_, rfl, rfl⟩
  writerSize _ := ⟨rfl, _, rfl, rfl⟩
  readMode _ _ := ⟨_, _, rfl, rfl, rfl⟩
  seekable _ := .inr rfl
  readerPos _ := rfl
  available_le f h := by dsimp only [id, fileBackend] at h ⊢; omega
  pull _ f := ⟨f, rfl, rfl, fun h => by dsimp only [id, fileBackend] at h ⊢; omega⟩
  readerRead _ _ _ := ⟨_, rfl, rfl⟩
  readerSeek _ _ := ⟨_, rfl, rfl⟩
  readerSize _ := ⟨rfl, _, rfl, rfl⟩

def emptyCookie : Cookie File File := ⟨⟨[], 0⟩, none, false, none⟩

/-- Write `"xyz"`, seek to 1 and read two bytes, then write `"Q"`. -/
def scenarioCalls : List Call := [.write "xyz".toList, .seek 1 .seekSet, .read 2, .write "Q".toList]

theorem run_refines_file_scenario :
    fileBackend.FileLike id id ∧ Coherent id id emptyCookie ∧ (∀ x ∈ scenarioCalls, x.Defined) ∧
      ∃ as ys c', run fileBackend scenarioCalls emptyCookie = some (ys, c') ∧ Coherent id id c' ∧
        File.Run (fileOf id id emptyCookie) scenarioCalls as (fileOf id id c') ∧
        ys = as.map File.Answer.cookieReply ∧
        (ys = as.map File.Answer.reply ↔ File.Answer.pastEnd ∉ as) :=
  have hc : Coherent id id emptyCookie := ⟨le_refl _, fun _ h => by cases h⟩
  ⟨fileLike_fileBackend, hc, by decide, run_refines_file fileLike_fileBackend hc (by decide)⟩

end WriterCFile
end Riegeli
