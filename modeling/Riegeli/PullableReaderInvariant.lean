import Riegeli.PullableReaderOps

/-! The representation invariant of `PullableReader` over a source `S`, and what the
scratch primitives and the source's `PullBehindScratch()` do to it. Every lemma about an
operation starts from a state satisfying `Inv`; none unfolds a callee. -/
namespace Riegeli
namespace PullableReader

/-- The invariant of a scratch `sc` in use. -/
structure ScratchInv (S : List Char) (r : PullableReader) (sc : Scratch) : Prop where
  /-- `start == scratch.buffer.data()` and `start_to_limit() == scratch.buffer.size()`. -/
  buffer_eq : r.buffer = sc.buffer
  buffer_ne_nil : sc.buffer ≠ []
  originalStartToCursor_le_length : sc.originalStartToCursor ≤ sc.originalStart.length
  originalStartToCursor_le_limitPos : sc.originalStartToCursor ≤ r.limitPos
  /-- The saved underlying buffer is `S[limit_pos - otc, limit_pos - otc + otl)`. -/
  originalStart_eq : sc.originalStart = slice S (r.limitPos - sc.originalStartToCursor)
    (r.limitPos - sc.originalStartToCursor + sc.originalStart.length)

/-- `[start, limit)` is `S[limit_pos - start_to_limit, limit_pos)`, or a scratch in use. -/
structure Inv (S : List Char) (r : PullableReader) : Prop where
  cursor_le : r.cursor ≤ r.buffer.length
  limitPos_le : r.limitPos ≤ S.length
  buffer_eq : r.buffer = slice S (r.limitPos - r.buffer.length) r.limitPos
  scratch_inv : ∀ sc, r.scratch = some sc → ScratchInv S r sc

section
variable {S : List Char} {r r' : PullableReader} {n : Nat}

@[simp] theorem available_moveCursor : (r.moveCursor n).available = r.available - n := by
  simp [available, moveCursor]; omega

@[simp] theorem scratchUsed_eq_false : r.scratchUsed = false ↔ r.scratch = none := by
  simp [scratchUsed, Option.isSome_iff_ne_none]

theorem checkHook_of_pre {p : Prop} [Decidable p] (hp : p) : r.checkHook p = r := by
  simp [checkHook, hp]

theorem Inv.length_le (h : Inv S r) : r.buffer.length ≤ r.limitPos := by
  have := congrArg List.length h.buffer_eq
  simp only [length_slice] at this; omega

theorem Inv.pos_add_available (h : Inv S r) : r.pos + r.available = r.limitPos := by
  have := h.length_le; have := h.cursor_le
  simp only [pos, available]; omega

theorem Inv.pos_le (h : Inv S r) : r.pos ≤ S.length :=
  le_trans (h.pos_add_available ▸ Nat.le_add_right _ _) h.limitPos_le

theorem Inv.view_eq (h : Inv S r) : r.view = slice S r.pos r.limitPos := by
  have := h.length_le; have := h.cursor_le
  rw [view, h.buffer_eq, drop_slice]
  congr 1; simp only [pos, available]; omega

theorem Inv.take_view (h : Inv S r) (hn : n ≤ r.available) :
    r.view.take n = slice S r.pos (r.pos + n) := by
  have := h.pos_add_available
  rw [h.view_eq, take_slice]; congr 1; omega

theorem Inv.cursor_le_pos (h : Inv S r) : r.cursor ≤ r.pos := by
  have := h.length_le; have := h.cursor_le
  simp only [pos, available]; omega

theorem inv_empty (hp : n ≤ S.length) (hs : r.scratch = none) (hb : r.buffer = [])
    (hc : r.cursor = 0) (hl : r.limitPos = n) : Inv S r where
  cursor_le := by simp [hb, hc]
  limitPos_le := hl ▸ hp
  buffer_eq := by simp [hb]
  scratch_inv := by simp [hs]

theorem ScratchInv.congr {sc : Scratch} (hi : ScratchInv S r sc) (hb : r'.buffer = r.buffer)
    (hl : r'.limitPos = r.limitPos) : ScratchInv S r' sc :=
  ⟨hb ▸ hi.buffer_eq, hi.buffer_ne_nil, hi.originalStartToCursor_le_length,
    hl ▸ hi.originalStartToCursor_le_limitPos, hl ▸ hi.originalStart_eq⟩

theorem Inv.moveCursor (h : Inv S r) (hn : n ≤ r.available) : Inv S (r.moveCursor n) where
  cursor_le := by have := h.cursor_le; simp only [available] at hn; simp; omega
  limitPos_le := h.limitPos_le
  buffer_eq := h.buffer_eq
  scratch_inv sc hs := (h.scratch_inv sc hs).congr rfl rfl

theorem Inv.pos_moveCursor (h : Inv S r) (hn : n ≤ r.available) :
    (r.moveCursor n).pos = r.pos + n := by
  have := h.length_le; have := h.cursor_le
  simp only [pos, available, moveCursor_buffer, moveCursor_cursor, moveCursor_limitPos] at *; omega

theorem Inv.seekInBuffer (h : Inv S r) (hq : r.startPos ≤ n ∧ n ≤ r.limitPos) :
    Inv S (r.seekInBuffer n) ∧ (r.seekInBuffer n).pos = n := by
  have := h.length_le
  simp only [startPos] at hq
  refine ⟨⟨?_, h.limitPos_le, h.buffer_eq, fun sc hs => (h.scratch_inv sc hs).congr rfl rfl⟩, ?_⟩
  · simp only [PullableReader.seekInBuffer]; omega
  · simp only [pos, available, PullableReader.seekInBuffer]; omega

/-- `r'` is `r` after taking the `n` bytes `out` at its position. -/
structure Took (S : List Char) (r r' : PullableReader) (n : Nat) (out : List Char) : Prop where
  inv : Inv S r'
  hookFault : r'.hookFault = r.hookFault
  status : r'.status = r.status
  out_eq : out = slice S r.pos (r.pos + n)
  pos_eq : r'.pos = r.pos + n
  le_length : r.pos + n ≤ S.length

theorem Took.refl (h : Inv S r) : Took S r r 0 [] := ⟨h, rfl, rfl, by simp, rfl, h.pos_le⟩

theorem Took.trans {r1 r2 : PullableReader} {m : Nat} {o o' : List Char}
    (h1 : Took S r r1 n o) (h2 : Took S r1 r2 m o') : Took S r r2 (n + m) (o ++ o') where
  inv := h2.inv
  hookFault := h2.hookFault.trans h1.hookFault
  status := h2.status.trans h1.status
  out_eq := by
    rw [h1.out_eq, h2.out_eq, h1.pos_eq, slice_append_slice (by omega) (by omega), Nat.add_assoc]
  pos_eq := by rw [h2.pos_eq, h1.pos_eq, Nat.add_assoc]
  le_length := by have := h2.le_length; rw [h1.pos_eq] at this; omega

theorem took_moveCursor (h : Inv S r) (hn : n ≤ r.available) :
    Took S r (r.moveCursor n) n (r.view.take n) :=
  ⟨h.moveCursor hn, rfl, rfl, h.take_view hn, h.pos_moveCursor hn,
    by have := h.pos_add_available; have := h.limitPos_le; omega⟩

theorem healthy_congr (h : r'.status = r.status) : r'.healthy = r.healthy := by
  simp [healthy, h]

@[simp] theorem scratch_syncScratch : (syncScratch r).scratch = none := by
  unfold syncScratch; split <;> simp_all
@[simp] theorem status_syncScratch : (syncScratch r).status = r.status := by
  unfold syncScratch; split <;> rfl
@[simp] theorem hookFault_syncScratch : (syncScratch r).hookFault = r.hookFault := by
  unfold syncScratch; split <;> rfl

@[simp] theorem healthy_syncScratch : (syncScratch r).healthy = r.healthy :=
  healthy_congr status_syncScratch

theorem syncScratch_of_none (hs : r.scratch = none) : syncScratch r = r := by
  simp [syncScratch, hs]

theorem syncScratch_eq_of_some {sc : Scratch} (hs : r.scratch = some sc) :
    syncScratch r =
      { r with
        scratch := none, buffer := sc.originalStart, cursor := sc.originalStartToCursor,
        limitPos := r.limitPos + (sc.originalStart.length - sc.originalStartToCursor) } := by
  simp [syncScratch, hs, available]

/-- Restoring the saved underlying buffer of a scratch in use. -/
theorem Inv.syncScratch_of_some {sc : Scratch} (h : Inv S r) (hs : r.scratch = some sc) :
    Inv S (syncScratch r) ∧ (syncScratch r).pos = r.limitPos := by
  have hi := h.scratch_inv sc hs
  have hlen := congrArg List.length hi.originalStart_eq
  have := hi.originalStartToCursor_le_length; have := hi.originalStartToCursor_le_limitPos
  have := h.limitPos_le
  simp only [length_slice] at hlen
  rw [syncScratch_eq_of_some hs]
  refine ⟨⟨by simpa using hi.originalStartToCursor_le_length, by simp only; omega, ?_, by simp⟩, ?_⟩
  · simp only
    convert hi.originalStart_eq using 2 <;> omega
  · simp only [pos, available]; omega

theorem Inv.syncScratch (h : Inv S r) : Inv S (syncScratch r) := by
  cases hs : r.scratch with
  | none => rwa [syncScratch_of_none hs]
  | some sc => exact (h.syncScratch_of_some hs).1

theorem syncScratch_moveCursor {sc : Scratch} (hs : r.scratch = some sc) :
    syncScratch (r.moveCursor n) = syncScratch r := by
  simp [syncScratch, hs, moveCursor, available]

/-- Taking the rest of a scratch in use and leaving it. -/
theorem took_syncScratch {sc : Scratch} (h : Inv S r) (hs : r.scratch = some sc) :
    Took S r (syncScratch r) r.available r.view := by
  have hm := took_moveCursor h le_rfl
  rw [List.take_of_length_le (length_view r).le] at hm
  have ⟨hi, hp⟩ := hm.inv.syncScratch_of_some hs
  rw [syncScratch_moveCursor hs] at hi hp
  simpa using hm.trans (show Took S _ (syncScratch r) 0 [] from
    ⟨hi, by simp, by simp, by simp, by rw [hp, ← hm.inv.pos_add_available]; simp, hm.inv.pos_le⟩)

@[simp] theorem status_installScratch {b : List Char} {c : Nat} :
    (installScratch b c r).status = r.status := rfl
@[simp] theorem hookFault_installScratch {b : List Char} {c : Nat} :
    (installScratch b c r).hookFault = r.hookFault := rfl

/-- Serving `b`, the bytes just before `pos()`, from scratch with the cursor at `c`. -/
theorem Inv.installScratch {b : List Char} {c : Nat} (h : Inv S r) (hb : b ≠ [])
    (hbs : b = slice S (r.pos - b.length) r.pos) (hc : c ≤ b.length) :
    Inv S (installScratch b c r) ∧ (installScratch b c r).pos = r.pos - (b.length - c) := by
  have := h.length_le; have := h.cursor_le
  refine ⟨⟨hc, h.pos_le, hbs, ?_⟩, by simp only [PullableReader.installScratch, pos, available]⟩
  rintro sc ⟨⟩
  refine ⟨rfl, hb, h.cursor_le, h.cursor_le_pos, ?_⟩
  convert h.buffer_eq using 2 <;> simp only [PullableReader.installScratch, pos, available] <;> omega

theorem scratchEnds_spec {ends : Bool} (h : Inv S r) (he : scratchEnds r = (ends, r')) :
    Took S r r' 0 [] ∧ (ends = true → r'.scratch = none) ∧
      (ends = false → r' = r ∧ (r.scratchUsed = true → 0 < r.available)) := by
  unfold scratchEnds at he
  split at he
  · rename_i sc hs
    split at he
    · cases he
      rename_i hle
      have ⟨hi, hp⟩ := h.syncScratch_of_some hs
      have := h.pos_add_available
      have hc := hi.cursor_le
      rw [syncScratch_eq_of_some hs] at hi hp hc ⊢
      refine ⟨⟨⟨?_, hi.limitPos_le, hi.buffer_eq, by simp⟩, by simp, by simp, by simp, ?_, h.pos_le⟩,
        by simp, by simp⟩
      · simp only at hc ⊢; omega
      · have := h.length_le; have := h.cursor_le
        dsimp only [pos, available] at hle hc ⊢; omega
    · cases he; exact ⟨Took.refl h, by simp, fun _ => ⟨rfl, fun _ => by omega⟩⟩
  · cases he; rename_i hs; exact ⟨Took.refl h, by simp, fun _ => ⟨rfl, by simp [scratchUsed, hs]⟩⟩

theorem pullBehindScratch_spec {src : Source} {ok : Bool} (h : Inv src.data r)
    (hs : r.scratch = none) (ha : r.available = 0) (hp : pullBehindScratch src r = (ok, r')) :
    Took src.data r r' 0 [] ∧ r'.scratch = none ∧
      (ok = true ↔ r.healthy = true ∧ r.pos < src.data.length) ∧ (ok = true → 0 < r'.available) ∧
      (ok = false → r' = r) := by
  rw [pullBehindScratch, checkHook_of_pre ⟨ha, hs⟩] at hp
  have hpos : r.pos = r.limitPos := by simp [pos, ha]
  split at hp
  · cases hp
    rename_i hc
    have he : r.limitPos < fragmentEnd src r.limitPos ∧
        fragmentEnd src r.limitPos ≤ src.data.length := by
      simp only [fragmentEnd]; omega
    refine ⟨⟨⟨by simp, he.2, ?_, by simp [hs]⟩, rfl, rfl, by simp, ?_, by omega⟩, hs,
      by simp [hpos, hc], fun _ => ?_, by simp⟩
    · simp only [length_slice]; congr 1; omega
    · rw [hpos]; simp only [pos, available, length_slice]; omega
    · simp only [available, length_slice]; omega
  · cases hp
    rename_i hc
    exact ⟨Took.refl h, hs, by simpa [hpos] using hc, by simp, fun _ => rfl⟩

/-- What a read of `length` bytes from `r` answering `res` guarantees. -/
structure ReadPost (S : List Char) (r : PullableReader) (length : Nat)
    (res : Bool × List Char × PullableReader) : Prop where
  inv : Inv S res.2.2
  hookFault : res.2.2.hookFault = r.hookFault
  status : res.2.2.status = r.status
  flat : r.healthy = true → res.1 = decide (r.pos + length ≤ S.length) ∧
    res.2.1 = slice S r.pos (r.pos + length) ∧ res.2.2.pos = min (r.pos + length) S.length

section Read
variable {length : Nat} {out : List Char}

theorem ReadPost.of_took (ht : Took S r r' length out) : ReadPost S r length (true, out, r') :=
  ⟨ht.inv, ht.hookFault, ht.status, fun _ =>
    ⟨by simp [ht.le_length], ht.out_eq, by have := ht.le_length; rw [ht.pos_eq]; omega⟩⟩

theorem ReadPost.of_exhausted (ht : Took S r r' n out) (hn : n < length)
    (he : r.healthy = true → r'.pos = S.length) : ReadPost S r length (false, out, r') :=
  ⟨ht.inv, ht.hookFault, ht.status, fun hh => by
    have := he hh; have := ht.pos_eq
    have hb : out = slice S r.pos (r.pos + length) := by
      rw [ht.out_eq, ← slice_min_length (b := r.pos + length)]; congr 1; omega
    exact ⟨by simp; omega, hb, by simp only; omega⟩⟩

theorem ReadPost.of_took_zero {r1 : PullableReader} {res : Bool × List Char × PullableReader}
    (ht : Took S r r1 0 []) (hp : ReadPost S r1 length res) : ReadPost S r length res :=
  ⟨hp.inv, hp.hookFault.trans ht.hookFault, hp.status.trans ht.status, fun hh => by
    simpa [ht.pos_eq] using hp.flat (by rwa [healthy_congr ht.status])⟩

theorem ReadPost.append {res1 res2 : Bool × List Char × PullableReader}
    (h1 : ReadPost S r n res1) (hok : res1.1 = true) (hn : n ≤ length)
    (h2 : ReadPost S res1.2.2 (length - n) res2) :
    ReadPost S r length (res2.1, res1.2.1 ++ res2.2.1, res2.2.2) where
  inv := h2.inv
  hookFault := h2.hookFault.trans h1.hookFault
  status := h2.status.trans h1.status
  flat hh := by
    obtain ⟨k1, k2, k3⟩ := h1.flat hh
    obtain ⟨l1, l2, l3⟩ := h2.flat (by rwa [healthy_congr h1.status])
    have hle : r.pos + n ≤ S.length := by simpa [hok] using k1.symm
    rw [k3, min_eq_left hle, Nat.add_assoc, Nat.add_sub_of_le hn] at l1 l2 l3
    refine ⟨l1, ?_, l3⟩
    show res1.2.1 ++ res2.2.1 = _
    rw [k2, l2, slice_append_slice (by omega) (by omega)]

theorem ReadPost.cons {r1 : PullableReader} {res : Bool × List Char × PullableReader}
    (ht : Took S r r1 n out) (hn : n ≤ length) (hp : ReadPost S r1 (length - n) res) :
    ReadPost S r length (res.1, out ++ res.2.1, res.2.2) :=
  ReadPost.append (ReadPost.of_took ht) rfl hn hp

theorem ReadPost.of_short {res : Bool × List Char × PullableReader} (h : Inv S r)
    (hp : ReadPost S r n res) (hok : res.1 = false) (hn : n ≤ length) :
    ReadPost S r length (false, res.2.1.take (res.2.2.pos - r.pos), res.2.2) :=
  ⟨hp.inv, hp.hookFault, hp.status, fun hh => by
    obtain ⟨k1, k2, k3⟩ := hp.flat hh
    have hlt : S.length < r.pos + n := by simpa [hok] using k1.symm
    have := h.pos_le
    refine ⟨by simp; omega, ?_, by simp only [k3]; omega⟩
    show res.2.1.take _ = _
    have e : r.pos + min (min (r.pos + n) S.length - r.pos) (r.pos + n - r.pos) = S.length := by
      omega
    rw [k2, k3, take_slice, e, ← slice_min_length (b := r.pos + length), min_eq_right (by omega)]⟩

end Read

end

end PullableReader
end Riegeli
