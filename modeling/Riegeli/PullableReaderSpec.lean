import Riegeli.PullableReaderInvariant

/-! One lemma per operation of `PullableReader`: from a state satisfying `Inv`, what the
operation answers and the state it leaves. Callers cite these lemmas and never unfold
the callee. -/
namespace Riegeli
namespace PullableReader

variable {cfg : Config} {src : Source} {r : PullableReader} {length : Nat}

theorem took_pull {ok : Bool} {r' : PullableReader} (h : Inv src.data r) (hs : r.scratch = none)
    (hp : pullBehindScratch src (r.moveCursor r.available) = (ok, r')) :
    Took src.data r r' r.available r.view ∧ r'.scratch = none ∧
      (ok = true ↔ r.healthy = true ∧ r.limitPos < src.data.length) ∧ (ok = true → 0 < r'.available) ∧
      (ok = false → r' = r.moveCursor r.available) := by
  have hm := took_moveCursor h (le_refl r.available)
  rw [List.take_of_length_le (length_view r).le] at hm
  obtain ⟨ht, hs', hok, hpos, hfalse⟩ := pullBehindScratch_spec hm.inv hs (by simp) hp
  have hl : (r.moveCursor r.available).pos = r.limitPos := by rw [hm.pos_eq, h.pos_add_available]
  refine ⟨by simpa using hm.trans ht, hs', by rw [hok, hl]; rfl, hpos, hfalse⟩

theorem readPost_pull_false {r' : PullableReader} (h : Inv src.data r) (hs : r.scratch = none)
    (hlt : r.available < length) (hp : pullBehindScratch src (r.moveCursor r.available) = (false, r')) :
    ReadPost src.data r length (false, r.view, r') ∧ r'.scratch = none := by
  obtain ⟨ht, hs3, hok, -, -⟩ := took_pull h hs hp
  refine ⟨ReadPost.of_exhausted ht hlt fun hh => ?_, hs3⟩
  have : ¬r.limitPos < src.data.length := by simpa [hh] using hok
  have := h.limitPos_le; rw [ht.pos_eq, h.pos_add_available]; omega

theorem readAcross_spec (h : Inv src.data r) (hs : r.scratch = none) :
    ReadPost src.data r length (readAcross src length r) ∧
      (readAcross src length r).2.2.scratch = none := by
  induction length, r using readAcross.induct src with
  | case1 length r hlt r3 hp ok out r'' hrec ih =>
    obtain ⟨ht, hs3, -, -, -⟩ := took_pull h hs hp
    obtain ⟨ih1, ih2⟩ := ih ht.inv hs3
    rw [readAcross, if_pos hlt]
    split
    · rename_i hp'
      rw [hp] at hp'; cases hp'
      exact ⟨ReadPost.cons ht hlt.le ih1, ih2⟩
    · rename_i hp'; rw [hp] at hp'; cases hp'
  | case2 length r hlt r3 hp =>
    rw [readAcross, if_pos hlt]
    split
    · rename_i hp'; rw [hp] at hp'; cases hp'
    · rename_i hp'
      rw [hp] at hp'; cases hp'
      exact readPost_pull_false h hs hlt hp
  | case3 length r hge =>
    rw [readAcross, if_neg hge]
    exact ⟨ReadPost.of_took (took_moveCursor h (by omega)), hs⟩

theorem readBehindScratch_spec (h : Inv src.data r) (hs : r.scratch = none)
    (hlt : r.available < length) :
    ReadPost src.data r length (readBehindScratch src length r) ∧
      (readBehindScratch src length r).2.2.scratch = none := by
  rw [readBehindScratch, checkHook_of_pre ⟨hlt, hs⟩]
  split
  · rename_i r3 hp
    obtain ⟨ht, hs3, -, -, -⟩ := took_pull h hs hp
    exact ⟨ReadPost.cons ht hlt.le (readAcross_spec ht.inv hs3).1, (readAcross_spec ht.inv hs3).2⟩
  · exact readPost_pull_false h hs hlt ‹_›

theorem readPost_take (h : Inv src.data r) (hn : length ≤ r.available) :
    ReadPost src.data r length (true, r.view.take length, r.moveCursor length) :=
  ReadPost.of_took (took_moveCursor h hn)

theorem readSlow_spec (h : Inv src.data r) (hlt : r.available < length) :
    ReadPost src.data r length (readSlow src length r) := by
  unfold readSlow
  split
  · rename_i hu
    rcases he : scratchEnds r with ⟨ends, r1⟩
    obtain ⟨ht1, hnone, hsame⟩ := scratchEnds_spec h he
    cases ends
    · obtain ⟨rfl, hav⟩ := hsame rfl
      obtain ⟨sc, hsc⟩ := Option.isSome_iff_exists.mp hu
      have ht := took_syncScratch h hsc
      simp only [Bool.false_eq_true, ↓reduceIte, syncScratch_moveCursor hsc]
      split
      · exact ReadPost.cons ht hlt.le (readPost_take ht.inv ‹_›)
      · exact ReadPost.cons ht hlt.le (readBehindScratch_spec ht.inv (by simp) (by omega)).1
    · have hs1 := hnone rfl
      simp only [↓reduceIte, List.nil_append]
      split
      · exact ReadPost.of_took_zero ht1 (readPost_take ht1.inv ‹_›)
      · exact ReadPost.of_took_zero ht1 (readBehindScratch_spec ht1.inv hs1 (by omega)).1
  · rename_i hu
    exact (readBehindScratch_spec h (by simpa using hu) hlt).1

theorem read_spec (h : Inv src.data r) : ReadPost src.data r length (read src length r) := by
  unfold read
  split
  · exact readPost_take h ‹_›
  · exact readSlow_spec h (by omega)

theorem readChunked_spec {chunk : Nat → Nat} (hchunk : ∀ l, 0 < l → chunk l ≤ l)
    (h : Inv src.data r) (hl : 0 < length) :
    ReadPost src.data r length (readChunked src chunk length r) := by
  induction length, r using readChunked.induct src chunk with
  | case1 length r n out r'' hn ok out' r''' hrec hread ih =>
    have h1 : ReadPost src.data r n (read src n r) := read_spec h
    rw [hread] at h1
    rw [readChunked]; simp only [hread, ↓reduceIte, hn]
    exact ReadPost.append h1 rfl hn.le (ih h1.inv (by omega))
  | case2 length r n out r'' hn hread =>
    have h1 : ReadPost src.data r n (read src n r) := read_spec h
    rw [hread] at h1
    rw [readChunked]; simp only [hread, ↓reduceIte, hn]
    have := hchunk length hl
    rwa [show n = length by omega] at h1
  | case3 length r n ok out r'' hread hok =>
    have h1 : ReadPost src.data r n (read src n r) := read_spec h
    rw [hread] at h1
    rw [readChunked]; simp only [hread, hok, Bool.false_eq_true, ↓reduceIte]
    have := hchunk length hl
    exact ReadPost.of_short h h1 (by simpa using hok) (by omega)

theorem readBehindScratchChain_spec (h : Inv src.data r) (hs : r.scratch = none)
    (hpre : min r.available cfg.maxBytesToCopy < length) :
    ReadPost src.data r length (readBehindScratchChain cfg src length r) := by
  rw [readBehindScratchChain, checkHook_of_pre ⟨hpre, hs⟩]
  exact readChunked_spec (fun l hl => by simp only [appendLength]; omega) h (by omega)

theorem readBehindScratchCord_spec (h : Inv src.data r) (hs : r.scratch = none)
    (hpre : min r.available cfg.maxBytesToCopy < length) :
    ReadPost src.data r length (readBehindScratchCord cfg src length r) := by
  rw [readBehindScratchCord, checkHook_of_pre ⟨hpre, hs⟩]
  exact readChunked_spec (fun l _ => min_le_left _ _) h (by omega)

theorem copyBehindScratch_spec (h : Inv src.data r) (hs : r.scratch = none)
    (hpre : min r.available cfg.maxBytesToCopy < length) :
    ReadPost src.data r length (copyBehindScratch cfg src length r) := by
  rw [copyBehindScratch, checkHook_of_pre ⟨hpre, hs⟩]
  exact (readAcross_spec h hs).1

/-- The contract of a `…BehindScratch()` reading into a `Chain`, a `Cord` or a `Writer`. -/
def BehindSpec (cfg : Config) (S : List Char)
    (behind : Nat → PullableReader → Bool × List Char × PullableReader) : Prop :=
  ∀ r length, Inv S r → r.scratch = none → min r.available cfg.maxBytesToCopy < length →
    ReadPost S r length (behind length r)

theorem appendSlow_spec {behind : Nat → PullableReader → Bool × List Char × PullableReader}
    (hb : BehindSpec cfg src.data behind) (h : Inv src.data r)
    (hpre : min r.available cfg.maxBytesToCopy < length) :
    ReadPost src.data r length (appendSlow cfg behind length r) := by
  unfold appendSlow
  split
  · rename_i hu
    rcases he : scratchEnds r with ⟨ends, r1⟩
    obtain ⟨ht1, hnone, hsame⟩ := scratchEnds_spec h he
    cases ends
    · obtain ⟨rfl, hav⟩ := hsame rfl
      obtain ⟨sc, hsc⟩ := Option.isSome_iff_exists.mp hu
      simp only [Bool.false_eq_true, ↓reduceIte, not_false_eq_true, true_and]
      split
      · rw [show min length r1.available = length by omega]
        exact readPost_take h (by omega)
      · have ht := took_syncScratch h hsc
        rw [show min length r1.available = r1.available by omega,
          List.take_of_length_le (length_view _).le, syncScratch_moveCursor hsc]
        split
        · exact ReadPost.cons ht (by omega) (readPost_take ht.inv ‹_ ∧ _›.1)
        · exact ReadPost.cons ht (by omega) (hb _ _ ht.inv (by simp) (by omega))
    · have hs1 := hnone rfl
      simp only [↓reduceIte, not_true_eq_false, false_and, List.take_zero, List.nil_append,
        Nat.sub_zero]
      split
      · exact ReadPost.of_took_zero ht1 (readPost_take ht1.inv ‹_ ∧ _›.1)
      · exact ReadPost.of_took_zero ht1 (hb _ _ ht1.inv hs1 (by omega))
  · rename_i hu
    exact hb _ _ h (by simpa using hu) hpre

theorem appendFast_spec {slow : Nat → PullableReader → Bool × List Char × PullableReader}
    (hs : ∀ r length, Inv src.data r → min r.available cfg.maxBytesToCopy < length →
      ReadPost src.data r length (slow length r)) (h : Inv src.data r) :
    ReadPost src.data r length (appendFast cfg slow length r) := by
  unfold appendFast
  split
  · exact readPost_take h (by omega)
  · exact hs _ _ h (by omega)

/-- What a copy of `length` bytes to a `BackwardWriter` guarantees. -/
structure BackPost (S : List Char) (r : PullableReader) (length : Nat)
    (res : Bool × List Char × PullableReader) : Prop where
  inv : Inv S res.2.2
  hookFault : res.2.2.hookFault = r.hookFault
  status : res.2.2.status = r.status
  flat : r.healthy = true → res.1 = decide (r.pos + length ≤ S.length) ∧
    res.2.1 = (if r.pos + length ≤ S.length then slice S r.pos (r.pos + length) else []) ∧
    res.2.2.pos = min (r.pos + length) S.length

theorem BackPost.of_readPost {S : List Char} {res : Bool × List Char × PullableReader}
    (hp : ReadPost S r length res) : BackPost S r length (res.1, if res.1 then res.2.1 else [], res.2.2) :=
  ⟨hp.inv, hp.hookFault, hp.status, fun hh => by
    obtain ⟨k1, k2, k3⟩ := hp.flat hh
    refine ⟨k1, ?_, k3⟩
    show (if res.1 then res.2.1 else []) = _
    rw [k1, k2]; split <;> simp_all⟩

theorem BackPost.cons {S out : List Char} {r1 : PullableReader} {n : Nat}
    {res : Bool × List Char × PullableReader} (ht : Took S r r1 n out) (hn : n ≤ length)
    (hp : BackPost S r1 (length - n) res) :
    BackPost S r length (res.1, if res.1 then out ++ res.2.1 else [], res.2.2) :=
  ⟨hp.inv, hp.hookFault.trans ht.hookFault, hp.status.trans ht.status, fun hh => by
    obtain ⟨k1, k2, k3⟩ := hp.flat (by rwa [healthy_congr ht.status])
    have := ht.le_length
    rw [ht.pos_eq, Nat.add_assoc, Nat.add_sub_of_le hn] at k1 k2 k3
    refine ⟨k1, ?_, k3⟩
    show (if res.1 then out ++ res.2.1 else []) = _
    rw [k1, k2, ht.out_eq]
    split <;> simp_all [slice_append_slice]⟩

theorem copyBehindScratchBackward_spec (h : Inv src.data r) (hs : r.scratch = none)
    (hpre : min r.available cfg.maxBytesToCopy < length) :
    BackPost src.data r length (copyBehindScratchBackward cfg src length r) := by
  rw [copyBehindScratchBackward, checkHook_of_pre ⟨hpre, hs⟩]
  by_cases ha : length ≤ r.available
  · simp only [ha, ↓reduceIte]
    exact BackPost.of_readPost (readPost_take h ha)
  · by_cases hk : length ≤ cfg.maxBytesToCopy
    · simp only [ha, hk, ↓reduceIte]
      exact BackPost.of_readPost (readBehindScratch_spec h hs (by omega) : ReadPost _ _ length _ ∧ _).1
    · simp only [ha, hk, ↓reduceIte]
      exact BackPost.of_readPost (readBehindScratchChain_spec h hs hpre)

theorem copySlowBackward_spec (h : Inv src.data r)
    (hpre : min r.available cfg.maxBytesToCopy < length) :
    BackPost src.data r length (copySlowBackward cfg src length r) := by
  /- the part after leaving scratch, from a plain state `r2` -/
  have tail : ∀ r2 l, Inv src.data r2 → r2.scratch = none →
      BackPost src.data r2 l (if l ≤ r2.available ∧ l ≤ cfg.maxBytesToCopy then
        (true, r2.view.take l, r2.moveCursor l) else copyBehindScratchBackward cfg src l r2) := by
    intro r2 l h2 hs2
    split
    · exact BackPost.of_readPost (readPost_take h2 ‹_ ∧ _›.1)
    · exact copyBehindScratchBackward_spec h2 hs2 (by omega)
  unfold copySlowBackward
  split
  · rename_i hu
    rcases he : scratchEnds r with ⟨ends, r1⟩
    obtain ⟨ht1, hnone, hsame⟩ := scratchEnds_spec h he
    cases ends
    · obtain ⟨rfl, hav⟩ := hsame rfl
      obtain ⟨sc, hsc⟩ := Option.isSome_iff_exists.mp hu
      simp only [Bool.false_eq_true, ↓reduceIte, not_false_eq_true, true_and]
      split
      · exact BackPost.of_readPost (readPost_take h ‹_›)
      · have ht := took_syncScratch h hsc
        have hl : r1.view.length = r1.available := length_view r1
        rw [hl]
        exact BackPost.cons ht (by omega) (tail _ _ ht.inv (by simp))
    · simp only [↓reduceIte, not_true_eq_false, false_and, List.length_nil, Nat.sub_zero]
      exact BackPost.cons ht1 (Nat.zero_le _) (tail _ _ ht1.inv (hnone rfl))
  · rename_i hu
    exact copyBehindScratchBackward_spec h (by simpa using hu) hpre

/-- What a seek to `newPos` from `r` guarantees. -/
structure SeekPost (S : List Char) (ra : Bool) (r : PullableReader) (newPos : Nat)
    (res : Bool × PullableReader) : Prop where
  inv : Inv S res.2
  hookFault : res.2.hookFault = r.hookFault
  flat : res.2.healthy = true → r.healthy = true ∧ res.1 = decide (newPos ≤ S.length) ∧
    res.2.pos = min newPos S.length
  fails : r.healthy = true → res.2.healthy = false → ra = false ∧ newPos < r.startPos
  scratch : r.scratch = none → res.2.scratch = none

theorem Inv.startPos_le_pos {S : List Char} (h : Inv S r) : r.startPos ≤ r.pos := by
  have := h.cursor_le; simp only [startPos, pos, available]; omega

theorem seekPost_inBuffer {S : List Char} (ra : Bool) {newPos : Nat} (h : Inv S r)
    (hq : r.startPos ≤ newPos ∧ newPos ≤ r.limitPos) :
    SeekPost S ra r newPos (true, r.seekInBuffer newPos) :=
  have ⟨hi, hp⟩ := h.seekInBuffer hq
  have := h.limitPos_le
  ⟨hi, rfl, fun hh => ⟨hh, by simp; omega, by simp only [hp]; omega⟩, fun hh hf => by
    simp [healthy, PullableReader.seekInBuffer] at hh hf; simp_all, id⟩

theorem seekForward_spec {newPos : Nat} (h : Inv src.data r) (hs : r.scratch = none)
    (hq : r.limitPos < newPos) :
    Inv src.data (seekForward src newPos r).2 ∧ (seekForward src newPos r).2.hookFault = r.hookFault ∧
      (seekForward src newPos r).2.status = r.status ∧ (seekForward src newPos r).2.scratch = none ∧
      (r.healthy = true → (seekForward src newPos r).1 = decide (newPos ≤ src.data.length) ∧
        (seekForward src newPos r).2.pos = min newPos src.data.length) := by
  induction r using seekForward.induct src newPos with
  | case1 x r3 hp hlt ih =>
    obtain ⟨ht, hs3, -, -, -⟩ := took_pull h hs hp
    obtain ⟨i1, i2, i3, i4, i5⟩ := ih ht.inv hs3 hlt
    rw [seekForward]; split <;> rename_i hp' <;> rw [hp] at hp' <;> cases hp'
    simp only [hlt, ↓reduceIte]
    exact ⟨i1, i2.trans ht.hookFault, i3.trans ht.status, i4,
      fun hh => i5 (by rwa [healthy_congr ht.status])⟩
  | case2 x r3 hp hge =>
    obtain ⟨ht, hs3, -, -, -⟩ := took_pull h hs hp
    have hpos : r3.pos = x.limitPos := by rw [ht.pos_eq, h.pos_add_available]
    have hin : r3.startPos ≤ newPos ∧ newPos ≤ r3.limitPos :=
      ⟨by have := ht.inv.startPos_le_pos; omega, by omega⟩
    have ⟨hi, hp'⟩ := ht.inv.seekInBuffer hin
    have := ht.inv.limitPos_le
    rw [seekForward]; split <;> rename_i hp' <;> rw [hp] at hp' <;> cases hp'
    simp only [hge, ↓reduceIte]
    exact ⟨hi, ht.hookFault, ht.status, hs3, fun _ => ⟨by simp; omega, by rw [hp']; omega⟩⟩
  | case3 x r3 hp =>
    obtain ⟨ht, hs3, hok, -, -⟩ := took_pull h hs hp
    rw [seekForward]; split <;> rename_i hp' <;> rw [hp] at hp' <;> cases hp'
    refine ⟨ht.inv, ht.hookFault, ht.status, hs3, fun hh => ?_⟩
    have : ¬x.limitPos < src.data.length := by simpa [hh] using hok
    have := h.limitPos_le
    have hpos : r3.pos = x.limitPos := by rw [ht.pos_eq, h.pos_add_available]
    exact ⟨by simp; omega, by rw [hpos]; omega⟩

theorem seekBehindScratch_spec {newPos : Nat} (h : Inv src.data r) (hs : r.scratch = none)
    (hpre : newPos < r.startPos ∨ r.limitPos < newPos) :
    SeekPost src.data src.supportsRandomAccess r newPos (seekBehindScratch src newPos r) := by
  rw [seekBehindScratch, checkHook_of_pre ⟨hpre, hs⟩]
  have := h.limitPos_le
  split
  · rename_i hra
    split
    · exact ⟨h, rfl, fun hh => by simp_all, fun hh => by simp_all, fun _ => hs⟩
    · rename_i hh; simp only [not_not] at hh
      split
      · exact ⟨inv_empty (n := newPos) ‹_› hs rfl rfl rfl, rfl,
          fun _ => ⟨hh, by simp_all, by simp [pos, available]; omega⟩, fun _ hf => by simp_all [healthy],
          fun _ => hs⟩
      · exact ⟨inv_empty (n := src.data.length) le_rfl hs rfl rfl rfl, rfl,
          fun _ => ⟨hh, by simp; omega, by simp [pos, available]; omega⟩, fun _ hf => by simp_all [healthy],
          fun _ => hs⟩
  · rename_i hra
    unfold seekBehindScratchDefault
    split
    · rename_i hle
      have hq : newPos < r.startPos := by omega
      exact ⟨inv_empty h.pos_le hs rfl rfl rfl, rfl, fun hf => by simp [fail, healthy] at hf,
        fun _ _ => ⟨by simpa using hra, hq⟩, fun _ => hs⟩
    · obtain ⟨i1, i2, i3, i4, i5⟩ := seekForward_spec h hs (show r.limitPos < newPos by omega)
      exact ⟨i1, i2, fun hh => by
        have hh' : r.healthy = true := by rwa [healthy_congr i3] at hh
        exact ⟨hh', i5 hh'⟩, fun hh hf => by rw [healthy_congr i3] at hf; simp_all, fun _ => i4⟩

theorem seekSlow_spec {newPos : Nat} (h : Inv src.data r)
    (hpre : newPos < r.startPos ∨ r.limitPos < newPos) :
    SeekPost src.data src.supportsRandomAccess r newPos (seekSlow src newPos r) := by
  unfold seekSlow
  split
  · rename_i hu
    obtain ⟨sc, hsc⟩ := Option.isSome_iff_exists.mp hu
    have ⟨h1, hp1⟩ := h.syncScratch_of_some hsc
    dsimp only
    split
    · have hp := seekPost_inBuffer src.supportsRandomAccess h1 ‹_›
      exact ⟨hp.inv, hp.hookFault.trans (by simp), fun hh => by
        obtain ⟨k1, k2, k3⟩ := hp.flat hh; exact ⟨by simpa using k1, k2, k3⟩,
        fun hh hf => by simp_all [PullableReader.seekInBuffer, healthy],
        fun _ => hp.scratch (by simp)⟩
    · rename_i hout
      have hp : SeekPost src.data src.supportsRandomAccess (syncScratch r) newPos
          (seekBehindScratch src newPos (syncScratch r)) := seekBehindScratch_spec h1 (by simp) (by omega)
      have := h1.startPos_le_pos
      have := h.startPos_le_pos
      exact ⟨hp.inv, hp.hookFault.trans (by simp), fun hh => by
        obtain ⟨k1, k2, k3⟩ := hp.flat hh; exact ⟨by simpa using k1, k2, k3⟩,
        fun hh hf => by
          obtain ⟨k1, k2⟩ := hp.fails (by simpa using hh) hf
          exact ⟨k1, by omega⟩, fun _ => hp.scratch (by simp)⟩
  · rename_i hu
    exact seekBehindScratch_spec h (by simpa using hu) hpre

theorem seek_spec {newPos : Nat} (h : Inv src.data r) :
    SeekPost src.data src.supportsRandomAccess r newPos (seek src newPos r) := by
  unfold seek
  split
  · exact seekPost_inBuffer _ h ‹_›
  · exact seekSlow_spec h (by omega)

/-- What `Pull(min_length, _)` from `r` guarantees. -/
structure PullPost (S : List Char) (r : PullableReader) (minLength : Nat)
    (res : Bool × PullableReader) : Prop where
  inv : Inv S res.2
  hookFault : res.2.hookFault = r.hookFault
  status : res.2.status = r.status
  pos_eq : res.2.pos = r.pos
  flat : r.healthy = true → res.1 = decide (r.pos + minLength ≤ S.length) ∧
    (res.1 = true → minLength ≤ res.2.available)

theorem PullPost.of_took_zero {S : List Char} {r1 : PullableReader} {m : Nat}
    {res : Bool × PullableReader} (ht : Took S r r1 0 []) (hp : PullPost S r1 m res) :
    PullPost S r m res :=
  ⟨hp.inv, hp.hookFault.trans ht.hookFault, hp.status.trans ht.status, by rw [hp.pos_eq, ht.pos_eq]; rfl,
    fun hh => by simpa [ht.pos_eq] using hp.flat (by rwa [healthy_congr ht.status])⟩

theorem pullPost_available {S : List Char} {m : Nat} (h : Inv S r) (hm : m ≤ r.available) :
    PullPost S r m (true, r) :=
  ⟨h, rfl, rfl, rfl, fun _ => by
    have := h.pos_add_available; have := h.limitPos_le
    exact ⟨by simp; omega, fun _ => hm⟩⟩

theorem pullSlowLoop_turn {dest dest1 : List Char} {r1 : PullableReader} {minLimit maxLimit : Nat}
    (h : Inv src.data r) (hs : r.scratch = none) (hd : dest.length < minLimit)
    (hm : minLimit ≤ maxLimit) (hcont : ¬(0 < length ∧ minLimit ≤ dest1.length))
    (hn : length = min r.available (maxLimit - dest.length))
    (hdest : dest1 = dest ++ r.view.take length) (hr1 : r1 = r.moveCursor length) :
    Took src.data r r1 length (r.view.take length) ∧ r1.scratch = none ∧ r1.available = 0 ∧
      dest1.length = dest.length + length ∧ dest.length + length < minLimit := by
  subst hdest hr1
  have hd1 : (dest ++ r.view.take length).length = dest.length + length := by
    rw [List.length_append, List.length_take, length_view, hn]; omega
  rw [hd1] at hcont
  refine ⟨took_moveCursor h (hn ▸ min_le_left _ _), by simp [hs], ?_, hd1, by omega⟩
  rw [available_moveCursor]; omega

theorem pullSlowLoop_spec {dest : List Char} {minLimit maxLimit : Nat} (h : Inv src.data r)
    (hs : r.scratch = none) (hd : dest.length < minLimit) (hm : minLimit ≤ maxLimit) :
    ∃ fresh, (pullSlowLoop src r dest minLimit maxLimit).1 = dest ++ fresh ∧
      Took src.data r (pullSlowLoop src r dest minLimit maxLimit).2 fresh.length fresh ∧
      (pullSlowLoop src r dest minLimit maxLimit).2.scratch = none ∧
      dest.length + fresh.length ≤ maxLimit ∧ (0 < r.available → 0 < fresh.length) ∧
      (r.healthy = true →
        minLimit ≤ dest.length + fresh.length ∨
          (pullSlowLoop src r dest minLimit maxLimit).2.pos = src.data.length) := by
  induction r, dest, minLimit, maxLimit using pullSlowLoop.induct src with
  | case1 r dest minLimit maxLimit length dest1 hbreak =>
    rw [pullSlowLoop, if_pos hbreak]
    have hl : (r.view.take (min r.available (maxLimit - dest.length))).length =
        min r.available (maxLimit - dest.length) := by rw [List.length_take, length_view]; omega
    simp only [dest1, length, List.length_append, hl] at hbreak
    refine ⟨_, rfl, ?_, hs, by rw [hl]; omega, fun _ => by rw [hl]; omega,
      fun _ => .inl (by rw [hl]; omega)⟩
    rw [hl]; exact took_moveCursor h (min_le_left _ _)
  | case2 r dest minLimit maxLimit length dest1 r1 hcont r2 r3 hp ih =>
    have hlen : length = min r.available (maxLimit - dest.length) := rfl
    obtain ⟨hk, hs1, ha, hd1, hlt⟩ := pullSlowLoop_turn h hs hd hm hcont hlen rfl (rfl : r1 = _)
    have hp1 : pullBehindScratch src r1 = (true, r3) := by simpa [r2, scratchUsed, hs1] using hp
    obtain ⟨ht, hs3, -, -, -⟩ := pullBehindScratch_spec hk.inv hs1 ha hp1
    obtain ⟨fresh, k1, k2, k3, k4, -, k6⟩ := ih ht.inv hs3 (by rw [hd1]; omega) hm
    rw [pullSlowLoop, if_neg hcont]
    dsimp only
    split <;> rename_i r3' heq <;>
      simp only [scratchUsed, moveCursor_scratch, hs, Option.isSome_none, Bool.false_eq_true,
        ↓reduceIte, ← hlen] at heq <;> rw [hp1] at heq <;> cases heq
    have hl : (r.view.take length).length = length := by simpa [dest1] using hd1
    refine ⟨r.view.take length ++ fresh, by rw [← List.append_assoc]; exact k1, ?_, k3,
      by simp only [List.length_append, hl]; omega, fun _ => by simp only [List.length_append, hl]; omega,
      fun hh => ?_⟩
    · simpa [hl] using (hk.trans ht).trans k2
    · rcases k6 (by rwa [healthy_congr (ht.status.trans hk.status)]) with k | k
      · exact .inl (by simp only [List.length_append, hl]; omega)
      · exact .inr k
  | case3 r dest minLimit maxLimit length dest1 r1 hcont r2 r3 hp =>
    have hlen : length = min r.available (maxLimit - dest.length) := rfl
    obtain ⟨hk, hs1, ha, hd1, -⟩ := pullSlowLoop_turn h hs hd hm hcont hlen rfl (rfl : r1 = _)
    have hp1 : pullBehindScratch src r1 = (false, r3) := by simpa [r2, scratchUsed, hs1] using hp
    obtain ⟨-, -, hok, -, hr3⟩ := pullBehindScratch_spec hk.inv hs1 ha hp1
    rw [pullSlowLoop, if_neg hcont]
    dsimp only
    split <;> rename_i r3' heq <;>
      simp only [scratchUsed, moveCursor_scratch, hs, Option.isSome_none, Bool.false_eq_true,
        ↓reduceIte, ← hlen] at heq <;> rw [hp1] at heq <;> cases heq
    rw [hr3 rfl]
    have hl : (r.view.take length).length = length := by simpa [dest1] using hd1
    refine ⟨r.view.take length, rfl, by rw [hl]; exact hk, hs1, by rw [hl]; omega,
      fun _ => by rw [hl]; omega, fun hh => .inr ?_⟩
    have h1 : r1.pos ≤ src.data.length := hk.inv.pos_le
    have h2 : ¬ r1.pos < src.data.length := fun hlt => by
      simpa using hok.mpr ⟨by rwa [healthy_congr hk.status], hlt⟩
    show r1.pos = _
    omega

theorem pullPost_fillScratch {m span : Nat} (kept : List Char) {r1 : PullableReader}
    (ht : Took src.data r r1 kept.length kept) (hs1 : r1.scratch = none) (hkm : kept.length < m)
    (hne : kept ≠ [] ∨ 0 < r1.available) (hsp : m - kept.length ≤ span) :
    PullPost src.data r m (match pullSlowLoop src r1 [] (m - kept.length) span with
      | (fresh, r) => (decide (m ≤ (kept ++ fresh).length), installScratch (kept ++ fresh) 0 r)) := by
  obtain ⟨fresh, h1, h2, -, -, h5, h6⟩ :=
    pullSlowLoop_spec ht.inv hs1 (show ([] : List Char).length < m - kept.length by simp; omega) hsp
  generalize pullSlowLoop src r1 [] (m - kept.length) span = res at h1 h2 h5 h6 ⊢
  obtain ⟨out, r2⟩ := res
  simp only [List.nil_append, List.length_nil, Nat.zero_add] at h1 h2 h6
  subst h1
  have htt := ht.trans h2
  have hb : kept ++ out ≠ [] := by
    rw [Ne, List.append_eq_nil, not_and_or]
    exact hne.imp id (fun ha => List.ne_nil_of_length_pos (h5 ha))
  have ⟨hi, hp⟩ := htt.inv.installScratch (c := 0) hb
    (by rw [htt.pos_eq, List.length_append, Nat.add_sub_cancel]; exact htt.out_eq) (Nat.zero_le _)
  have := htt.le_length
  refine ⟨hi, by simp [htt.hookFault], by simp [htt.status], ?_, fun hh => ?_⟩
  · rw [hp, htt.pos_eq]; simp
  · have h6 := h6 (by rwa [healthy_congr ht.status])
    rw [htt.pos_eq] at h6
    simp only [List.length_append, decide_eq_decide, decide_eq_true_eq, installScratch, available]
    omega

theorem fillScratch_spec {m rec : Nat} (h : Inv src.data r) (ha : 0 < r.available)
    (hm : r.available < m) : PullPost src.data r m (fillScratch cfg src m rec r) := by
  have hsp {k : Nat} (hk : k ≤ r.available) : ∀ rl ml, m - k ≤ appendLength cfg.scratchAppend (m - k) rl ml :=
    fun _ _ => le_max_left _ _
  cases hs : r.scratch with
  | none =>
    simpa [fillScratch, hs] using pullPost_fillScratch [] (Took.refl h) hs (by simp; omega)
      (.inr ha) (hsp (Nat.zero_le _) _ _)
  | some sc =>
    have hi := h.scratch_inv sc hs
    have hv : r.view.length = r.available := length_view r
    have ht : Took src.data r (syncScratch r) r.view.length r.view := hv ▸ took_syncScratch h hs
    have hb : r.buffer ≠ [] := hi.buffer_eq ▸ hi.buffer_ne_nil
    simp only [fillScratch, hs, ← hi.buffer_eq, if_neg hb]
    exact pullPost_fillScratch r.view ht (by simp) (by omega)
      (.inl (List.ne_nil_of_length_pos (by omega))) (hsp hv.le _ _)

theorem pullPost_pullBehindScratch_false {m : Nat} (h : Inv src.data r) (hs : r.scratch = none)
    (ha : r.available = 0) (hm : 0 < m) (hp : pullBehindScratch src r = (false, r')) :
    PullPost src.data r m (false, r') := by
  obtain ⟨-, -, hok, -, hr⟩ := pullBehindScratch_spec h hs ha hp
  cases hr rfl
  refine ⟨h, rfl, rfl, rfl, fun hh => ⟨?_, by simp⟩⟩
  have := h.pos_le
  have : ¬r.pos < src.data.length := by simpa [hh] using hok
  rw [eq_comm, decide_eq_false_iff_not]; omega

theorem pullPost_pullBehindScratch (h : Inv src.data r) (hs : r.scratch = none)
    (ha : r.available = 0) : PullPost src.data r 1 (pullBehindScratch src r) := by
  rcases hp : pullBehindScratch src r with ⟨_ | _, r'⟩
  · exact pullPost_pullBehindScratch_false h hs ha Nat.one_pos hp
  · obtain ⟨ht, -, -, hpos, -⟩ := pullBehindScratch_spec h hs ha hp
    exact .of_took_zero ht (pullPost_available ht.inv (hpos rfl))

theorem scratchEnds_if_spec {ends : Bool} (h : Inv src.data r)
    (he : (if r.scratchUsed then scratchEnds r else (false, r)) = (ends, r')) :
    Took src.data r r' 0 [] ∧ (ends = false → r' = r) ∧ (r'.available = 0 → r'.scratch = none) := by
  split at he
  · obtain ⟨ht, h1, h2⟩ := scratchEnds_spec h he
    refine ⟨ht, fun hf => (h2 hf).1, fun ha => ?_⟩
    cases ends
    · obtain ⟨rfl, hp⟩ := h2 rfl; have := hp ‹_›; omega
    · exact h1 rfl
  · rename_i hu
    cases he; exact ⟨Took.refl h, fun _ => rfl, fun _ => scratchUsed_eq_false.mp (by simpa using hu)⟩

theorem pullSlow_spec {m rec : Nat} (h : Inv src.data r) (hm : r.available < m) :
    PullPost src.data r m (pullSlow cfg src m rec r) := by
  unfold pullSlow
  split
  · generalize he : (if r.scratchUsed then scratchEnds r else (false, r)) = e
    obtain ⟨ends, r1⟩ := e
    obtain ⟨ht, hr1, hs1⟩ := scratchEnds_if_spec h he
    refine .of_took_zero ht ?_
    dsimp only
    split
    · exact pullPost_available ht.inv ‹_ ∧ _›.2
    split
    · rename_i hne ha
      rcases hp : pullBehindScratch src r1 with ⟨_ | _, r2⟩
      · exact pullPost_pullBehindScratch_false ht.inv (hs1 ha) ha (by omega) hp
      · obtain ⟨ht2, -, -, hpos, -⟩ := pullBehindScratch_spec ht.inv (hs1 ha) ha hp
        refine .of_took_zero ht2 ?_
        dsimp only
        split
        · exact pullPost_available ht2.inv ‹_›
        · exact fillScratch_spec ht2.inv (hpos rfl) (by omega)
    · rename_i hne ha
      refine fillScratch_spec ht.inv (Nat.pos_of_ne_zero ha) ?_
      cases ends
      · rw [hr1 rfl]; exact hm
      · simp only [true_and] at hne; omega
  · obtain rfl : m = 1 := by omega
    have ha : r.available = 0 := by omega
    split
    · rename_i hu
      obtain ⟨sc, hs⟩ := Option.isSome_iff_exists.mp hu
      have hv : r.view = [] := List.eq_nil_of_length_eq_zero (by simp only [view, List.length_drop]; exact ha)
      have ht := took_syncScratch h hs
      rw [ha, hv] at ht
      refine .of_took_zero ht ?_
      dsimp only
      split
      · exact pullPost_available ht.inv ‹_›
      · exact pullPost_pullBehindScratch ht.inv (by simp) (by omega)
    · rename_i hu
      exact pullPost_pullBehindScratch h (scratchUsed_eq_false.mp (by simpa using hu)) ha

/-- `Pull(min_length, _)` answers as a plain reader while healthy, and never moves `pos()`. -/
theorem pull_spec {m rec : Nat} (h : Inv src.data r) :
    PullPost src.data r m (pull cfg src m rec r) := by
  unfold pull
  split
  · exact pullPost_available h ‹_›
  · exact pullSlow_spec h (by omega)

end PullableReader
end Riegeli
