import Riegeli.BufferedWriter

/-! What the operations of `BufferedWriter` guarantee, over any destination. While the
writer is healthy, the destination followed by the buffer is exactly what the caller wrote,
in call order; `WriteInternal()` is never entered on a failed writer; `PushSlow()` never lets
a position wrap; and `SizeImpl()` answers 0, not `nullopt`, when flushing fails. -/
namespace Riegeli
namespace BufferedWriter

variable {cfg : WriterConfig} {sink : Sink} {w w' : BufferedWriter}

@[simp] theorem healthy_copy (src : List Char) : (w.copy src).healthy = w.healthy := rfl
@[simp] theorem healthy_setBuffer : w.setBuffer.healthy = w.healthy := rfl

/-- A healthy `w'` is `w` after the caller wrote `bytes`: destination and buffer grew by them. -/
structure Wrote (w w' : BufferedWriter) (bytes : List Char) : Prop where
  healthy : w'.healthy = true → w.healthy = true
  contents : w'.healthy = true → w'.dest ++ w'.buffer = w.dest ++ w.buffer ++ bytes
  startPos : w'.healthy = true → w'.startPos + w.dest.length = w.startPos + w'.dest.length

theorem Wrote.refl (w : BufferedWriter) : Wrote w w [] := ⟨id, by simp, fun _ => rfl⟩

theorem Wrote.trans {w1 w2 : BufferedWriter} {b1 b2 : List Char} (h1 : Wrote w w1 b1)
    (h2 : Wrote w1 w2 b2) : Wrote w w2 (b1 ++ b2) where
  healthy h := h1.healthy (h2.healthy h)
  contents h := by rw [h2.contents h, h1.contents (h2.healthy h), List.append_assoc]
  startPos h := by have := h2.startPos h; have := h1.startPos (h2.healthy h); omega

theorem Wrote.of_failed {b : List Char} (h : w'.healthy = false) : Wrote w w' b :=
  ⟨by simp [h], by simp [h], by simp [h]⟩

theorem wrote_copy (src : List Char) : Wrote w (w.copy src) src := ⟨id, fun _ => by simp, fun _ => rfl⟩

/-- `WriteInternal(data)` on a healthy writer fails it or appends `data` to the destination. -/
theorem writeInternal_spec (sink : Sink) (data : List Char) (hw : w.healthy = true) :
    (writeInternal sink data w).2.writeFault = w.writeFault ∧
      ((writeInternal sink data w).1 = false → (writeInternal sink data w).2.healthy = false) ∧
      ((writeInternal sink data w).2.healthy = true →
        (writeInternal sink data w).2.dest = w.dest ++ data ∧
        (writeInternal sink data w).2.buffer = w.buffer ∧
        (writeInternal sink data w).2.startPos = w.startPos + data.length) := by
  unfold writeInternal
  dsimp only
  split
  · exact ⟨by simp [hw], by simp, fun _ => ⟨rfl, rfl, rfl⟩⟩
  · exact ⟨by simp [hw], fun _ => healthy_fail _, by simp⟩

/-- What every `Bool`-answering operation guarantees. -/
structure WritePost (w : BufferedWriter) (bytes : List Char) (res : Bool × BufferedWriter) : Prop where
  wrote : Wrote w res.2 bytes
  fails : res.1 = false → res.2.healthy = false
  writeFault : res.2.writeFault = w.writeFault

theorem WritePost.trans {w1 : BufferedWriter} {b1 b2 : List Char} {res : Bool × BufferedWriter}
    (h1 : Wrote w w1 b1) (hf : w1.writeFault = w.writeFault) (h2 : WritePost w1 b2 res) :
    WritePost w (b1 ++ b2) res :=
  ⟨h1.trans h2.wrote, h2.fails, h2.writeFault.trans hf⟩

theorem WritePost.of_failed {b : List Char} {u : BufferedWriter} (hu : u.healthy = false)
    (hf : u.writeFault = w.writeFault) : WritePost w b (false, u) :=
  ⟨.of_failed hu, fun _ => hu, hf⟩

theorem writePost_writeInternal {data bytes : List Char} (hd : data = w.buffer ++ bytes)
    (hw : w.healthy = true) : WritePost w bytes (writeInternal sink data w.setBuffer) := by
  subst hd
  obtain ⟨k1, k2, k3⟩ := writeInternal_spec sink (w.buffer ++ bytes) (w := w.setBuffer) hw
  refine ⟨⟨fun _ => hw, fun hh => ?_, fun hh => ?_⟩, k2, k1⟩
  · obtain ⟨d1, d2, -⟩ := k3 hh; simp [d1, d2]
  · obtain ⟨d1, -, d3⟩ := k3 hh
    simp only [d1, d3, setBuffer_startPos, setBuffer_dest, List.length_append]; omega

theorem writePost_syncBuffer (sink : Sink) (w : BufferedWriter) : WritePost w [] (syncBuffer sink w) := by
  unfold syncBuffer
  dsimp only
  split
  · rename_i hb
    exact ⟨⟨id, fun _ => by simp [hb], fun _ => rfl⟩, by simp, rfl⟩
  split
  · rename_i hu
    exact .of_failed (by simpa using hu) rfl
  · rename_i hu
    exact writePost_writeInternal (by simp) (by simpa using hu)

theorem writePost_pushSlow (cfg : WriterConfig) (sink : Sink) (m n : Nat) (w : BufferedWriter) :
    WritePost w [] (pushSlow cfg sink m n w) := by
  unfold pushSlow
  have hs := writePost_syncBuffer sink w
  generalize syncBuffer sink w = s at hs
  obtain ⟨_ | _, w1⟩ := s
  · exact hs
  dsimp only
  split
  · rename_i hu
    exact .of_failed (by simpa using hu) hs.writeFault
  split
  · exact .of_failed (by simp [Status.overflow]) (by simpa using hs.writeFault)
  · exact WritePost.trans hs.wrote hs.writeFault ⟨⟨id, fun _ => by simp, fun _ => rfl⟩, by simp, rfl⟩

theorem writePost_push (cfg : WriterConfig) (sink : Sink) (m n : Nat) (w : BufferedWriter) :
    WritePost w [] (push cfg sink m n w) := by
  unfold push
  split
  · exact ⟨.refl w, by simp, rfl⟩
  · exact writePost_pushSlow cfg sink m n w

theorem writePost_writerWriteSlow (src : List Char) (w : BufferedWriter) :
    WritePost w src (writerWriteSlow cfg sink src w) := by
  induction src, w using writerWriteSlow.induct cfg sink with
  | case1 src w w1 rest w2 hp =>
    have k := writePost_push cfg sink 1 rest.length w1
    rw [hp] at k
    rw [writerWriteSlow, hp]
    exact .of_failed (k.fails rfl) (by simpa using k.writeFault)
  | case2 src w w1 rest w2 hp hfit =>
    have k := writePost_push cfg sink 1 rest.length w1
    rw [hp] at k
    rw [writerWriteSlow, hp]
    simp only [hfit, ↓reduceIte]
    have := (wrote_copy (w := w) (src.take w.available)).trans (k.wrote.trans (wrote_copy rest))
    rw [List.nil_append, List.take_append_drop] at this
    exact ⟨this, by simp, by simpa using k.writeFault⟩
  | case3 src w w1 rest w2 hp hfit ih =>
    have k := writePost_push cfg sink 1 rest.length w1
    rw [hp] at k
    rw [writerWriteSlow, hp]
    simp only [hfit, ↓reduceIte]
    have := WritePost.trans ((wrote_copy (w := w) (src.take w.available)).trans k.wrote)
      (by simpa using k.writeFault) ih
    rwa [List.append_nil, List.take_append_drop] at this

theorem writePost_writeSlow (src : List Char) : WritePost w src (writeSlow cfg sink src w) := by
  unfold writeSlow
  split
  · have hs := writePost_syncBuffer sink w
    have hset := setBuffer_syncBuffer sink w
    have hb := buffer_syncBuffer sink w
    generalize syncBuffer sink w = s at hs hset hb
    obtain ⟨_ | _, w1⟩ := s
    · exact .of_failed (hs.fails rfl) hs.writeFault
    dsimp only at hs hset hb ⊢
    split
    · rename_i hu
      exact .of_failed (by simpa using hu) hs.writeFault
    · rename_i hu
      rw [← hset]
      simpa using WritePost.trans hs.wrote hs.writeFault
        (writePost_writeInternal (by simp [hb]) (by simpa using hu))
  · exact writePost_writerWriteSlow src w

theorem writePost_write (src : List Char) : WritePost w src (write cfg sink src w) := by
  unfold write
  split
  · exact ⟨wrote_copy src, by simp, rfl⟩
  · exact writePost_writeSlow src

theorem zeros_append {a b : Nat} (h : a ≤ b) : zeros a ++ zeros (b - a) = zeros b := by
  rw [zeros, zeros, zeros, ← List.replicate_add, Nat.add_sub_cancel' h]

theorem writePost_writeZerosSlow (length : Nat) (w : BufferedWriter) :
    WritePost w (zeros length) (writeZerosSlow cfg sink length w) := by
  induction length, w using writeZerosSlow.induct cfg sink with
  | case1 length w hlt w1 hwr =>
    have k : WritePost w (zeros cfg.arrayOfZerosSize) (false, w1) := hwr ▸ writePost_write _
    rw [writeZerosSlow, if_pos hlt, hwr]
    exact .of_failed (k.fails rfl) k.writeFault
  | case2 length w hlt w1 hwr ih =>
    have k : WritePost w (zeros cfg.arrayOfZerosSize) (true, w1) := hwr ▸ writePost_write _
    rw [writeZerosSlow, if_pos hlt, hwr]
    have := WritePost.trans k.wrote k.writeFault ih
    rwa [zeros_append hlt.le] at this
  | case3 length w hle =>
    rw [writeZerosSlow, if_neg hle]
    exact writePost_write _

theorem writePost_writeZeros (length : Nat) : WritePost w (zeros length) (writeZeros cfg sink length w) := by
  unfold writeZeros
  split
  · exact ⟨wrote_copy _, by simp, rfl⟩
  · exact writePost_writeZerosSlow length w

theorem writePost_flushImpl (sink : Sink) (w : BufferedWriter) : WritePost w [] (flushImpl sink w) := by
  unfold flushImpl flushBehindBuffer
  split
  · rename_i hu
    exact .of_failed (by simpa using hu) rfl
  split
  · rename_i hb
    exact ⟨⟨id, fun _ => by simp [hb], fun _ => rfl⟩, by simp, rfl⟩
  · rename_i hu _
    exact writePost_writeInternal (by simp) (by simpa using hu)

@[simp] theorem buffer_flushImpl (sink : Sink) (w : BufferedWriter) : (flushImpl sink w).2.buffer = [] := by
  unfold flushImpl flushBehindBuffer writeInternal
  split
  · rfl
  split
  · rfl
  · dsimp only; split <;> rfl

theorem flushImpl_appending (hw : w.healthy = true) :
    (flushImpl .appending w).2.healthy = true ∧ (flushImpl .appending w).2.dest = w.dest ++ w.buffer := by
  unfold flushImpl flushBehindBuffer
  simp only [healthy_setBuffer, hw, not_true_eq_false, ↓reduceIte]
  split
  · rename_i hb; simp [hb, hw]
  · exact ⟨hw, rfl⟩

theorem done_eq (sink : Sink) (w : BufferedWriter) : done sink w = { (flushImpl sink w).2 with isOpen := false } := rfl

theorem wrote_syncThen {α : Type} {failure : α} {behind : BufferedWriter → α × BufferedWriter}
    (hb : ∀ u, Wrote u (behind u).2 [] ∧ (behind u).2.writeFault = u.writeFault) :
    Wrote w (syncThen sink failure behind w).2 [] ∧
      (syncThen sink failure behind w).2.writeFault = w.writeFault := by
  unfold syncThen
  have hs := writePost_syncBuffer sink w
  generalize syncBuffer sink w = s at hs
  obtain ⟨_ | _, w1⟩ := s
  · exact ⟨hs.wrote, hs.writeFault⟩
  · exact ⟨hs.wrote.trans (hb w1).1, (hb w1).2.trans hs.writeFault⟩

theorem wrote_unsupported (message : String) (u : BufferedWriter) :
    Wrote u (unsupported message u) [] ∧ (unsupported message u).writeFault = u.writeFault :=
  ⟨.of_failed (healthy_fail _), rfl⟩

/-- `SizeImpl()` answers `nullopt` after a successful `SyncBuffer()` and 0 after a failed one. -/
theorem sizeImpl_fst (w : BufferedWriter) :
    (sizeImpl sink w).1 = if (syncBuffer sink w).1 then none else some 0 := by
  unfold sizeImpl syncThen
  generalize syncBuffer sink w = s
  obtain ⟨_ | _, w1⟩ := s <;> rfl

/-- A healthy writer holding one buffered byte over a destination that fails the write:
`SyncBuffer()` fails, and `Size()` answers 0. -/
theorem sizeImpl_write_failure :
    (sizeImpl ⟨fun _ _ => some (.unknown, "")⟩ ⟨[Char.ofNat 97], 1, 0, .ok, true, 0, 0, [], false⟩).1 =
      some 0 := by
  rw [sizeImpl_fst]; rfl

theorem wrote_seek (p : Nat) (w : BufferedWriter) :
    Wrote w (seek sink p w).2 [] ∧ (seek sink p w).2.writeFault = w.writeFault := by
  unfold seek
  split
  · exact ⟨.refl w, rfl⟩
  · exact wrote_syncThen fun u => wrote_unsupported _ u

theorem wrote_step (cfg : WriterConfig) (sink : Sink) (op : Op) (w : BufferedWriter) :
    Wrote w (step cfg sink op w).2 (step cfg sink op w).1 ∧
      (step cfg sink op w).2.writeFault = w.writeFault := by
  cases op with
  | write src => exact ⟨(writePost_write src).wrote, (writePost_write src).writeFault⟩
  | push m n fill =>
    have k := writePost_push cfg sink m n w
    simp only [step]
    generalize push cfg sink m n w = res at k
    obtain ⟨_ | _, w1⟩ := res
    · exact ⟨k.wrote, k.writeFault⟩
    · exact ⟨k.wrote.trans (wrote_copy _), by simpa using k.writeFault⟩
  | writeZeros n => exact ⟨(writePost_writeZeros n).wrote, (writePost_writeZeros n).writeFault⟩
  | flush => exact ⟨(writePost_flushImpl sink w).wrote, (writePost_flushImpl sink w).writeFault⟩
  | seek p => exact wrote_seek p w
  | size => simp only [step, sizeImpl]; exact wrote_syncThen fun u => wrote_unsupported _ u
  | truncate n => simp only [step, truncateImpl]; exact wrote_syncThen fun u => wrote_unsupported _ u
  | readMode p => simp only [step, readModeImpl]; exact wrote_syncThen fun u => wrote_unsupported _ u

/-- Over any run and destination, a healthy writer got exactly what the caller wrote. -/
theorem wrote_run (cfg : WriterConfig) (sink : Sink) (ops : List Op) (w : BufferedWriter) :
    Wrote w (run cfg sink ops w).2 (run cfg sink ops w).1 ∧
      (run cfg sink ops w).2.writeFault = w.writeFault := by
  induction ops generalizing w with
  | nil => exact ⟨.refl w, rfl⟩
  | cons op ops ih =>
    have hs := wrote_step cfg sink op w
    rw [run]
    generalize step cfg sink op w = res at hs
    obtain ⟨b, w1⟩ := res
    exact ⟨hs.1.trans (ih w1).1, (ih w1).2.trans hs.2⟩

/-- The operations that begin with `SyncBuffer()` and write nothing. -/
def Op.SyncsBuffer (w : BufferedWriter) : Op → Prop
  | .flush | .size | .truncate _ | .readMode _ => True
  | .seek p => p ≠ w.pos
  | _ => False

theorem syncThen_appending {α : Type} {failure x : α} {message : String} (hw : w.healthy = true) :
    (syncThen .appending failure (fun u => (x, unsupported message u)) w).2.dest = w.dest ++ w.buffer ∧
      (syncThen .appending failure (fun u => (x, unsupported message u)) w).2.buffer = [] := by
  unfold syncThen syncBuffer
  by_cases hb : w.buffer = []
  · simp [hb, unsupported]
  · simp [hb, hw, writeInternal, Sink.appending, unsupported]

theorem step_syncsBuffer {op : Op} (hop : op.SyncsBuffer w) (hw : w.healthy = true) :
    (step cfg .appending op w).2.dest = w.dest ++ w.buffer ∧ (step cfg .appending op w).2.buffer = [] := by
  cases op with
  | flush => exact ⟨(flushImpl_appending hw).2, buffer_flushImpl _ _⟩
  | seek p => simp only [step, seek, if_neg hop]; exact syncThen_appending hw
  | size => exact syncThen_appending hw
  | truncate n => exact syncThen_appending hw
  | readMode p => exact syncThen_appending hw
  | write _ | push _ _ _ | writeZeros _ => exact hop.elim

/-- Writing through a `BufferedWriter` whose `WriteInternal()` appends to `D`: in every
healthy state reached from a fresh writer at position `p`, `D` followed by the buffer is
everything the caller wrote, in call order, and `pos()` is `p` plus its length; `Flush()`,
`Done()`, and every `Seek()`, `Size()`, `Truncate()` or `ReadMode()` that syncs the buffer then
leave exactly that in `D` and nothing buffered. -/
theorem run_dest_written (ops : List Op) (p h b : Nat) {written : List Char} {w : BufferedWriter}
    (hrun : run cfg .appending ops (fresh p h b) = (written, w)) (hw : w.healthy = true) :
    w.dest ++ w.buffer = written ∧ w.pos = p + written.length ∧
      (flushImpl .appending w).2.dest = written ∧ (flushImpl .appending w).2.buffer = [] ∧
      (done .appending w).dest = written ∧
      ∀ op, op.SyncsBuffer w →
        (step cfg .appending op w).2.dest = written ∧ (step cfg .appending op w).2.buffer = [] := by
  have k := (wrote_run cfg .appending ops (fresh p h b)).1
  rw [hrun] at k
  have hc : w.dest ++ w.buffer = written := by simpa [fresh] using k.contents hw
  have hp := k.startPos hw
  have hf := flushImpl_appending hw
  refine ⟨hc, ?_, by rw [hf.2, hc], buffer_flushImpl _ _, by rw [done_eq]; exact hf.2.trans hc,
    fun op hop => hc ▸ step_syncsBuffer hop hw⟩
  rw [← hc, pos, List.length_append]
  simp only [fresh, List.length_nil] at hp; omega

def sampleConfig : WriterConfig :=
  ⟨255, 4, by decide, fun m b _ _ => max m b, fun m b _ _ => le_max_left m b, id, fun n => le_refl n⟩

def sampleFlushed : BufferedWriter := ⟨[], 0, 2, .ok, true, 0, 1, [Char.ofNat 97, Char.ofNat 98], false⟩

theorem run_dest_written_sample :
    run sampleConfig .appending [.write [Char.ofNat 97, Char.ofNat 98], .flush] (fresh 0 0 1) =
      ([Char.ofNat 97, Char.ofNat 98], sampleFlushed) ∧ sampleFlushed.healthy = true ∧
    (sampleFlushed.dest ++ sampleFlushed.buffer = [Char.ofNat 97, Char.ofNat 98] ∧
      sampleFlushed.pos = 0 + [Char.ofNat 97, Char.ofNat 98].length ∧
      (flushImpl .appending sampleFlushed).2.dest = [Char.ofNat 97, Char.ofNat 98] ∧
      (flushImpl .appending sampleFlushed).2.buffer = [] ∧
      (done .appending sampleFlushed).dest = [Char.ofNat 97, Char.ofNat 98] ∧
      ∀ op, op.SyncsBuffer sampleFlushed →
        (step sampleConfig .appending op sampleFlushed).2.dest = [Char.ofNat 97, Char.ofNat 98] ∧
        (step sampleConfig .appending op sampleFlushed).2.buffer = []) :=
  have hrun : run sampleConfig .appending [.write [Char.ofNat 97, Char.ofNat 98], .flush] (fresh 0 0 1) =
      ([Char.ofNat 97, Char.ofNat 98], sampleFlushed) := rfl
  ⟨hrun, rfl, run_dest_written _ 0 0 1 hrun rfl⟩

/-- No operation, `Done()` included, enters `WriteInternal()` on a failed writer: from a fresh
writer the ghost flag stays down over every run and every destination. -/
theorem run_writeFault (cfg : WriterConfig) (sink : Sink) (ops : List Op) (p h b : Nat) :
    (run cfg sink ops (fresh p h b)).2.writeFault = false ∧
      (done sink (run cfg sink ops (fresh p h b)).2).writeFault = false := by
  have := (wrote_run cfg sink ops (fresh p h b)).2
  exact ⟨this, by rw [done_eq]; exact (writePost_flushImpl sink _).writeFault.trans this⟩

/-- What `PushSlow(min_length, _)` guarantees: success exactly when `SyncBuffer()` succeeds and
`min_length` bytes fit below the largest position, an overflow failure exactly when they do not. -/
structure PushSlowPost (sink : Sink) (w : BufferedWriter) (minLength : Nat)
    (res : Bool × BufferedWriter) : Prop where
  ok_iff : res.1 = true ↔ (syncBuffer sink w).1 = true ∧ (syncBuffer sink w).2.healthy = true ∧
    minLength ≤ maxPosition - (syncBuffer sink w).2.startPos
  overflow_iff : res.2.status = Status.overflow ∧ (syncBuffer sink w).2.healthy = true ↔
    (syncBuffer sink w).1 = true ∧ (syncBuffer sink w).2.healthy = true ∧
      maxPosition - (syncBuffer sink w).2.startPos < minLength
  fails : res.1 = false → res.2.healthy = false
  fits : res.1 = true → minLength ≤ res.2.available ∧ res.2.startPos + res.2.startToLimit ≤ maxPosition

theorem pushSlow_bounds {minLength n : Nat} (hmin : w.available < minLength) :
    PushSlowPost sink w minLength (pushSlow cfg sink minLength n w) := by
  have key : ((pushSlow cfg sink minLength n w).1 = true ↔ (syncBuffer sink w).1 = true ∧
      (syncBuffer sink w).2.healthy = true ∧ minLength ≤ maxPosition - (syncBuffer sink w).2.startPos) ∧
      ((pushSlow cfg sink minLength n w).2.status = Status.overflow ∧
        (syncBuffer sink w).2.healthy = true ↔ (syncBuffer sink w).1 = true ∧
        (syncBuffer sink w).2.healthy = true ∧ maxPosition - (syncBuffer sink w).2.startPos < minLength) := by
    unfold pushSlow
    have hs := (writePost_syncBuffer sink w).fails
    generalize syncBuffer sink w = s at hs ⊢
    obtain ⟨_ | _, w1⟩ := s
    · simp [hs rfl]
    · dsimp only
      by_cases hh : w1.healthy = true
      · have hok : w1.status = .ok := by simpa [healthy] using hh
        by_cases hlt : maxPosition - w1.startPos < minLength
        · simp [hh, hlt, fail, Status.overflow]
        · simp [hh, hlt, hok, Status.overflow]; omega
      · simp [hh]
  refine ⟨key.1, key.2, (writePost_pushSlow cfg sink minLength n w).fails, fun h => ?_⟩
  obtain ⟨hb, h1, h2, h3⟩ := pushSlow_true cfg sink (Prod.ext h rfl : pushSlow cfg sink minLength n w =
    (true, (pushSlow cfg sink minLength n w).2))
  simp only [available, hb, List.length_nil, Nat.sub_zero]
  have : 0 < minLength := Nat.lt_of_le_of_lt (Nat.zero_le _) hmin
  omega

theorem pushSlow_bounds_fresh :
    (fresh 0 0 1).available < 1 ∧
      PushSlowPost .appending (fresh 0 0 1) 1 (pushSlow sampleConfig .appending 1 0 (fresh 0 0 1)) :=
  ⟨by decide, pushSlow_bounds (by decide)⟩

end BufferedWriter
end Riegeli
