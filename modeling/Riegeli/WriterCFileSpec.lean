import Riegeli.WriterCFile

/-!
# What the `fopencookie()` callbacks report

The target arithmetic of `Seek()` is exact for every `int64_t` offset but `INT64_MIN`, whose
negation `SEEK_CUR` and `SEEK_END` evaluate. The early `return -1;` exits of `Seek()` reach
`WriterCFileSeek()` as a present position, which it reports as success.
-/

namespace Riegeli
namespace WriterCFile

section Arithmetic

variable {offset : Int}

theorem seekCurTarget_of_ne (h : offset ≠ minInt64) (current : Nat) :
    seekCurTarget offset current =
      if 0 ≤ current + offset ∧ current + offset ≤ maxInt64 then .target (current + offset).toNat
      else .rejected .einval := by
  simp only [seekCurTarget, maxInt64, negInt64_of_ne h]
  split_ifs <;> first | rfl | omega | (congr 1; omega)

theorem seekEndTarget_of_ne (h : offset ≠ minInt64) (size : Nat) :
    seekEndTarget offset size =
      if offset ≤ 0 ∧ 0 ≤ size + offset ∧ size + offset ≤ maxInt64 then .target (size + offset).toNat
      else .rejected .einval := by
  simp only [seekEndTarget, maxInt64, negInt64_of_ne h]
  split_ifs <;> first | rfl | omega | (congr 1; omega)

@[simp] theorem seekSetTarget_natCast (n : Nat) : seekSetTarget n = .target n := by
  simp only [seekSetTarget, if_neg (show ¬(n : Int) < 0 by omega), Int.toNat_ofNat]

theorem seekSetTarget_eq :
    seekSetTarget offset = if 0 ≤ offset then .target offset.toNat else .rejected .einval := by
  unfold seekSetTarget
  split_ifs <;> first | rfl | omega

/-- Away from `INT64_MIN`, each origin targets exactly the mathematical position `offset`,
`current + offset` or `size + offset`, and rejects it with `EINVAL` exactly when it lies
outside `[0, maxInt64]`, or when `SEEK_END` is given a positive offset. -/
theorem seekTargets_exact (h : minInt64 < offset) (current size : Nat) :
    seekSetTarget offset = (if 0 ≤ offset then .target offset.toNat else .rejected .einval) ∧
      seekCurTarget offset current =
        (if 0 ≤ current + offset ∧ current + offset ≤ maxInt64 then .target (current + offset).toNat
        else .rejected .einval) ∧
      seekEndTarget offset size =
        (if offset ≤ 0 ∧ 0 ≤ size + offset ∧ size + offset ≤ maxInt64
        then .target (size + offset).toNat else .rejected .einval) :=
  ⟨seekSetTarget_eq, seekCurTarget_of_ne (Int.ne_of_gt h) current,
    seekEndTarget_of_ne (Int.ne_of_gt h) size⟩

theorem seekTargets_exact_back :
    minInt64 < -3 ∧
      seekSetTarget (-3) = .rejected .einval ∧ seekCurTarget (-3) 10 = .target 7 ∧
      seekEndTarget (-3) 2 = .rejected .einval := by
  have h := seekTargets_exact (show minInt64 < -3 by decide) 10 2
  exact ⟨by decide, h.1.trans (by decide), h.2.1.trans (by decide), h.2.2.trans (by decide)⟩

end Arithmetic

variable {W R : Type} (B : Backend W R)

theorem seekCurTarget_minInt64 (current : Nat) : seekCurTarget minInt64 current = .undefined := by
  simp only [seekCurTarget, negInt64_minInt64, if_pos (show minInt64 < 0 by decide)]

theorem seekEndTarget_minInt64 (size : Nat) : seekEndTarget minInt64 size = .undefined := by
  simp only [seekEndTarget, negInt64_minInt64, if_neg (show ¬0 < minInt64 by decide)]

/-- `SEEK_CUR` with `INT64_MIN` evaluates `-offset` from every cookie, and `SEEK_END` does
whenever it finds a size. -/
theorem seek_negates_minInt64 (c : Cookie W R) :
    seek B minInt64 .seekCur c = none ∧
      (seek B minInt64 .seekEnd c = none ↔ ∃ size, (querySize B c).1 = .ok size) := by
  refine ⟨by simp [seek, seekTarget, seekCurTarget_minInt64], ?_⟩
  unfold seek seekTarget
  rcases querySize B c with ⟨_ | size, c'⟩ <;> simp [seekEndTarget_minInt64]

/-- A failed `writer.Seek()` in write mode, and a `Pull()` that fails because the reader
failed in read mode: `WriterCFileSeek()` returns `0` with `*offset = -1`, and `Read()`
returns `0` without storing `errno`, as at the end of the data. -/
theorem writerCFile_failures_unreported {c : Cookie W R} {newPos length : Nat} {w : W} {r r' : R}
    (hr : c.reader = none) (hra : B.supportsRandomAccess c.writer = true)
    (hne : newPos ≠ B.writerPos c.writer) (hs : B.writerSeek newPos c.writer = (false, w))
    (hpull : B.pull 1 length r = (false, r')) (_hfailed : B.readerOk r' = false) :
    writerCFileSeek B newPos .seekSet c =
        some (0, -1, { c with writer := w, errno := some (failureErrno (B.writerOk w) (B.writerCode w)) }) ∧
      read B length { c with reader := some r } = (0, [], { c with reader := some r' }) := by
  constructor
  · simp [writerCFileSeek, seek, seekTarget, seekTo, effectivePos, hr, hra, hne, hs]
  · simp [read, readFrom, hpull]

/-- A writer and a reader whose every operation fails, with a status of `unknown`. -/
def failingBackend : Backend Nat Nat where
  writerPos := id
  writerOk _ := false
  writerCode _ := .unknown
  writerSeek _ w := (false, w)
  writerWrite _ w := (false, w)
  writerFlush w := (false, w)
  writerSize w := (none, w)
  readMode _ w := (none, w)
  supportsRandomAccess _ := true
  supportsReadMode _ := true
  writerSupportsSize _ := true
  readerPos := id
  readerOk _ := false
  readerCode _ := .unknown
  available _ := 0
  pull _ _ r := (false, r)
  readerRead _ r := (false, [], r)
  readerSeek _ r := (false, r)
  readerSize r := (none, r)
  readerSupportsSize _ := true

theorem writerCFile_failures_unreported_failing :
    (⟨0, none, false, none⟩ : Cookie Nat Nat).reader = none ∧
      failingBackend.supportsRandomAccess 0 = true ∧ 5 ≠ failingBackend.writerPos 0 ∧
      failingBackend.writerSeek 5 0 = (false, 0) ∧ failingBackend.pull 1 4 0 = (false, 0) ∧
      failingBackend.readerOk 0 = false ∧
      writerCFileSeek failingBackend 5 .seekSet ⟨0, none, false, none⟩ =
        some (0, -1, ⟨0, none, false, some (.ofStatus .unknown)⟩) ∧
      read failingBackend 4 ⟨0, some 0, false, none⟩ = (0, [], ⟨0, some 0, false, none⟩) :=
  ⟨rfl, rfl, by decide, rfl, rfl, rfl,
    writerCFile_failures_unreported failingBackend rfl rfl (by decide) rfl rfl rfl⟩

/-- What `Writer::Seek()` and `Reader::Seek()` promise: on success the position is the target. -/
structure Backend.SeeksLand : Prop where
  writer : ∀ p w w', B.writerSeek p w = (true, w') → B.writerPos w' = p
  reader : ∀ p r r', B.readerSeek p r = (true, r') → B.readerPos r' = p

variable {B}

/-- A writer and a reader that are their positions, whose seeks and writes succeed. -/
def landingBackend : Backend Nat Nat :=
  { failingBackend with
    writerSeek := fun p _ => (true, p)
    writerWrite := fun src w => (true, w + src.length)
    readerSeek := fun p _ => (true, p) }

theorem seeksLand_landingBackend : landingBackend.SeeksLand :=
  ⟨fun _ _ _ h => (Prod.mk.inj h).2.symm, fun _ _ _ h => (Prod.mk.inj h).2.symm⟩

theorem seekTo_lands (hB : B.SeeksLand) {newPos : Nat} {c c' : Cookie W R} {p : Int}
    (h : seekTo B newPos c = (some p, c')) (hp : 0 ≤ p) : p = newPos ∧ effectivePos B c' = newPos := by
  unfold seekTo at h
  split at h
  · rename_i he
    cases h; exact ⟨rfl, he.symm⟩
  split at h
  · split at h
    · cases h; omega
    · rename_i r' hs
      cases h; exact ⟨rfl, hB.reader _ _ _ hs⟩
  · rename_i hr
    split at h
    · split at h
      · cases h; omega
      · rename_i w hs
        cases h; simpa [effectivePos, hr] using hB.writer _ _ _ hs
    split at h
    · cases h; omega
    split at h
    · cases h; omega
    · split at h
      · cases h; omega
      · rename_i hpos
        cases h; exact ⟨rfl, by simpa [effectivePos] using hpos⟩

/-- Every success `WriterCFileSeek()` reports with a non-negative `*offset` is truthful: the
offset is the target of the `switch (whence)`, and the cookie now stands there. -/
theorem writerCFileSeek_lands (hB : B.SeeksLand) {offset : Int} {whence : Whence} {c c' : Cookie W R}
    {p : Int} (h : writerCFileSeek B offset whence c = some (0, p, c')) (hp : 0 ≤ p) :
    ∃ newPos : Nat, (seekTarget B offset whence c).1 = .target newPos ∧ p = newPos ∧
      effectivePos B c' = newPos := by
  unfold writerCFileSeek seek at h
  generalize seekTarget B offset whence c = st at h ⊢
  obtain ⟨_ | _ | _, c₁⟩ := st
  · rename_i newPos
    dsimp only at h ⊢
    generalize hq : seekTo B newPos c₁ = q at h
    obtain ⟨_ | p', c₂⟩ := q
    · cases h
    · simp only [Option.some.injEq, Prod.mk.injEq] at h
      obtain ⟨-, rfl, rfl⟩ := h
      exact ⟨newPos, rfl, seekTo_lands hB hq hp⟩
  · cases h
  · cases h

theorem writerCFileSeek_lands_forward :
    landingBackend.SeeksLand ∧
      writerCFileSeek landingBackend 5 .seekCur ⟨2, none, false, none⟩ = some (0, 7, ⟨7, none, false, none⟩) ∧
      ∃ newPos : Nat, (seekTarget landingBackend 5 .seekCur ⟨2, none, false, none⟩).1 = .target newPos ∧
        (7 : Int) = newPos ∧ effectivePos landingBackend ⟨7, none, false, none⟩ = newPos :=
  have h : writerCFileSeek landingBackend 5 .seekCur ⟨2, none, false, none⟩ =
      some (0, 7, ⟨7, none, false, none⟩) := rfl
  ⟨seeksLand_landingBackend, h, writerCFileSeek_lands seeksLand_landingBackend h (by decide)⟩

theorem leaveReadMode_lands (hB : B.SeeksLand) {c c₁ : Cookie W R} (h : leaveReadMode B c = (true, c₁)) :
    c₁.reader = none ∧ B.writerPos c₁.writer = effectivePos B c ∧ c₁.flushes = c.flushes := by
  unfold leaveReadMode at h
  split at h
  · rename_i hr
    cases h; exact ⟨hr, by simp [effectivePos, hr], rfl⟩
  · rename_i r hr
    dsimp only at h
    split at h
    · rename_i w hs
      cases h; exact ⟨rfl, by simpa [effectivePos, hr] using hB.writer _ _ _ hs, rfl⟩
    · cases h

theorem writeThenFlush_lands {src : List Char} {c c' : Cookie W R} {n : Int}
    (h : writeThenFlush B src c = (n, c')) (hn : 0 < n) :
    n = src.length ∧ c'.reader = c.reader ∧ ∃ w₁, B.writerWrite src c.writer = (true, w₁) ∧
      (if c.flushes then B.writerFlush w₁ = (true, c'.writer) else c'.writer = w₁) := by
  unfold writeThenFlush at h
  split at h
  · cases h; omega
  rename_i w₁ hw
  split at h
  · rename_i hf
    split at h
    · cases h; omega
    · rename_i w₂ hfl
      cases h; exact ⟨rfl, rfl, w₁, hw, by simpa [hf] using hfl⟩
  · rename_i hf
    cases h; exact ⟨rfl, rfl, w₁, hw, by simp [hf]⟩

/-- `Write()` reports the requested size only after the writer, moved first to the reader's
position in read mode, took all of `src` at the cookie's position, and flushed when
`flush_type_` is set; the cookie is then in write mode. -/
theorem write_lands (hB : B.SeeksLand) {src : List Char} {c c' : Cookie W R} {n : Int}
    (h : write B src c = (n, c')) (hn : 0 < n) :
    n = src.length ∧ c'.reader = none ∧
      ∃ w₀ w₁, B.writerPos w₀ = effectivePos B c ∧ B.writerWrite src w₀ = (true, w₁) ∧
        (if c.flushes then B.writerFlush w₁ = (true, c'.writer) else c'.writer = w₁) := by
  unfold write at h
  generalize hl : leaveReadMode B c = l at h
  obtain ⟨_ | _, c₁⟩ := l
  · cases h; omega
  obtain ⟨hr, hpos, hfl⟩ := leaveReadMode_lands hB hl
  obtain ⟨h1, h2, w₁, hw, h3⟩ := writeThenFlush_lands h hn
  exact ⟨h1, h2.trans hr, c₁.writer, w₁, hpos, hw, hfl ▸ h3⟩

theorem write_lands_readMode :
    landingBackend.SeeksLand ∧
      write landingBackend ['a', 'b'] ⟨9, some 4, false, none⟩ = (2, ⟨6, none, false, none⟩) ∧ 0 < (2 : Int) ∧
      (2 : Int) = (['a', 'b'] : List Char).length ∧ (⟨6, none, false, none⟩ : Cookie Nat Nat).reader = none ∧
      ∃ w₀ w₁, landingBackend.writerPos w₀ = effectivePos landingBackend ⟨9, some 4, false, none⟩ ∧
        landingBackend.writerWrite ['a', 'b'] w₀ = (true, w₁) ∧
        (if (⟨9, some 4, false, none⟩ : Cookie Nat Nat).flushes
          then landingBackend.writerFlush w₁ = (true, (⟨6, none, false, none⟩ : Cookie Nat Nat).writer)
          else (⟨6, none, false, none⟩ : Cookie Nat Nat).writer = w₁) :=
  have h : write landingBackend ['a', 'b'] ⟨9, some 4, false, none⟩ = (2, ⟨6, none, false, none⟩) := rfl
  ⟨seeksLand_landingBackend, h, by decide, write_lands seeksLand_landingBackend h (by decide)⟩

end WriterCFile
end Riegeli
