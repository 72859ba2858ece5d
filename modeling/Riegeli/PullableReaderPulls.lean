import Riegeli.PullableReaderRefinement

/-!
# What `PullSlow()` takes from the source

`PullSlow(min_length, recommended_length)` with `min_length > 1` calls `PullBehindScratch()`
only while it holds fewer than `min_length` bytes from `pos()`, never again once the source
has ended, and takes at most `SaturatingAdd(r, r)` bytes beyond `pos()` into its scratch,
for `r = max(min_length, recommended_length)`. The calls are observed through copies of
`pullSlowLoop`, `fillScratch` and `pullSlow` that also list the limit position each
`PullBehindScratch()` reads from; each copy computes what its original does.
-/

namespace Riegeli
namespace PullableReader

variable (cfg : Config) (src : Source)

/-- `pullSlowLoop`, also listing the limit position each `PullBehindScratch()` reads from. -/
def pullSlowLoopPulls (r : PullableReader) (dest : List Char) (minLimit maxLimit : Nat) :
    (List Char × PullableReader) × List Nat :=
  let length := min r.available (maxLimit - dest.length)
  let dest := dest ++ r.view.take length
  let r1 := r.moveCursor length
  if 0 < length ∧ minLimit ≤ dest.length then ((dest, r1), [])
  else
    let r2 := if r1.scratchUsed then syncScratch r1 else r1
    match _h : pullBehindScratch src r2 with
    | (true, r3) =>
      let (res, pulls) := pullSlowLoopPulls r3 dest minLimit maxLimit
      (res, r2.limitPos :: pulls)
    | (false, r3) => ((dest, r3), [r2.limitPos])
termination_by src.data.length - r.limitPos
decreasing_by
  have h2 : r.limitPos ≤ r2.limitPos := by
    simp only [r2, r1]; split
    · exact le_trans (by simp) (limitPos_le_syncScratch _)
    · simp
  have := pullBehindScratch_progress src _h
  omega

variable {src}

theorem pullSlowLoopPulls_fst (r : PullableReader) (dest : List Char) (minLimit maxLimit : Nat) :
    (pullSlowLoopPulls src r dest minLimit maxLimit).1 = pullSlowLoop src r dest minLimit maxLimit := by
  induction r, dest, minLimit, maxLimit using pullSlowLoop.induct src with
  | case1 r dest minLimit maxLimit length dest1 hstop =>
    rw [pullSlowLoopPulls, pullSlowLoop, if_pos hstop, if_pos hstop]
  | case2 r dest minLimit maxLimit length dest1 r1 hcont r2 r3 hp ih =>
    simp only [r2, r1, length, dite_eq_ite] at hp
    rw [pullSlowLoopPulls, pullSlowLoop, if_neg hcont, if_neg hcont]
    dsimp only
    generalize pullBehindScratch src _ = q at hp ⊢
    subst hp
    exact ih
  | case3 r dest minLimit maxLimit length dest1 r1 hcont r2 r3 hp =>
    simp only [r2, r1, length, dite_eq_ite] at hp
    rw [pullSlowLoopPulls, pullSlowLoop, if_neg hcont, if_neg hcont]
    dsimp only
    generalize pullBehindScratch src _ = q at hp ⊢
    subst hp
    rfl

variable (src)

/-- `fillScratch`, also listing the limit position each `PullBehindScratch()` reads from. -/
def fillScratchPulls (minLength recommendedLength : Nat) (r : PullableReader) :
    (Bool × PullableReader) × List Nat :=
  let recommendedLength := max minLength recommendedLength
  let maxLength := saturatingAdd recommendedLength recommendedLength
  let (kept, r) : List Char × PullableReader := match r.scratch with
    | some sc =>
      if sc.buffer = [] then ([], { r with scratch := none })
      else
        (sc.buffer.drop r.cursor, syncScratch r)
    | none => ([], r)
  let remainingMinLength := minLength - kept.length
  let span := appendLength cfg.scratchAppend remainingMinLength (recommendedLength - kept.length)
    (maxLength - kept.length)
  let ((fresh, r), pulls) := pullSlowLoopPulls src r [] remainingMinLength span
  ((decide (minLength ≤ (kept ++ fresh).length), installScratch (kept ++ fresh) 0 r), pulls)

/-- `pullSlow`, also listing the limit position each `PullBehindScratch()` reads from. -/
def pullSlowPulls (minLength recommendedLength : Nat) (r : PullableReader) :
    (Bool × PullableReader) × List Nat :=
  if 1 < minLength then
    let (ends, r) := if r.scratchUsed then scratchEnds r else (false, r)
    if ends ∧ minLength ≤ r.available then ((true, r), [])
    else if r.available = 0 then
      match pullBehindScratch src r with
      | (true, r') =>
        if minLength ≤ r'.available then ((true, r'), [r.limitPos])
        else
          let (res, pulls) := fillScratchPulls cfg src minLength recommendedLength r'
          (res, r.limitPos :: pulls)
      | (false, r') => ((false, r'), [r.limitPos])
    else fillScratchPulls cfg src minLength recommendedLength r
  else if r.scratchUsed then
    let r := syncScratch r
    if 0 < r.available then ((true, r), []) else (pullBehindScratch src r, [r.limitPos])
  else (pullBehindScratch src r, [r.limitPos])

variable {src}

theorem fillScratchPulls_fst (minLength recommendedLength : Nat) (r : PullableReader) :
    (fillScratchPulls cfg src minLength recommendedLength r).1 = fillScratch cfg src minLength recommendedLength r := by
  unfold fillScratchPulls fillScratch
  cases r.scratch with
  | none => dsimp only; rw [← pullSlowLoopPulls_fst]
  | some sc => dsimp only; split_ifs <;> rw [← pullSlowLoopPulls_fst]

theorem pullSlowPulls_fst (minLength recommendedLength : Nat) (r : PullableReader) :
    (pullSlowPulls cfg src minLength recommendedLength r).1 = pullSlow cfg src minLength recommendedLength r := by
  unfold pullSlowPulls pullSlow
  split
  · generalize (if r.scratchUsed then scratchEnds r else (false, r)) = e
    obtain ⟨ends, r1⟩ := e
    dsimp only
    split
    · rfl
    split
    · rcases pullBehindScratch src r1 with ⟨_ | _, r2⟩
      · rfl
      · dsimp only
        split
        · rfl
        · exact fillScratchPulls_fst cfg minLength recommendedLength r2
    · exact fillScratchPulls_fst cfg minLength recommendedLength r1
  · split
    · dsimp only
      split <;> rfl
    · rfl

/-- Every pull reads from below `bound`, and none follows a pull that met the end of `S`. -/
def PullsWithin (S : List Char) (bound : Nat) (pulls : List Nat) : Prop :=
  (∀ p ∈ pulls, p < bound) ∧ ∀ p ∈ pulls.dropLast, p < S.length

section Within

variable {S : List Char} {bound p : Nat} {pulls : List Nat}

theorem PullsWithin.nil : PullsWithin S bound [] := ⟨by simp, by simp⟩

theorem PullsWithin.single (hp : p < bound) : PullsWithin S bound [p] := ⟨by simpa using hp, by simp⟩

theorem PullsWithin.cons (hp : p < bound) (hS : p < S.length) (h : PullsWithin S bound pulls) :
    PullsWithin S bound (p :: pulls) := by
  refine ⟨by simpa using ⟨hp, h.1⟩, ?_⟩
  cases pulls with
  | nil => simp
  | cons q l => rw [List.dropLast_cons₂]; simpa using ⟨hS, h.2⟩

theorem PullsWithin.mono {bound' : Nat} (h : PullsWithin S bound pulls) (hb : bound ≤ bound') :
    PullsWithin S bound' pulls :=
  ⟨fun q hq => lt_of_lt_of_le (h.1 q hq) hb, h.2⟩

end Within

theorem pullSlowLoopPulls_within {r : PullableReader} {dest : List Char} {minLimit maxLimit : Nat}
    (h : Inv src.data r) (hs : r.scratch = none) (hd : dest.length < minLimit) (hm : minLimit ≤ maxLimit) :
    PullsWithin src.data (r.pos + minLimit - dest.length) (pullSlowLoopPulls src r dest minLimit maxLimit).2 := by
  induction r, dest, minLimit, maxLimit using pullSlowLoopPulls.induct src with
  | case1 r dest minLimit maxLimit length dest1 hstop =>
    rw [pullSlowLoopPulls, if_pos hstop]; exact .nil
  | case2 r dest minLimit maxLimit length dest1 r1 hcont r2 r3 hp res pulls hrec ih =>
    obtain ⟨hk, hs1, ha, hd1, hlt⟩ := pullSlowLoop_turn h hs hd hm hcont rfl rfl (rfl : r1 = _)
    have hp1 : pullBehindScratch src r1 = (true, r3) := by simpa [r2, scratchUsed, hs1] using hp
    obtain ⟨ht, hs3, hok, -, -⟩ := pullBehindScratch_spec hk.inv hs1 ha hp1
    have hlim : r1.limitPos = r.pos + length := by rw [← hk.pos_eq]; simp only [pos, ha, Nat.sub_zero]
    have ih := ih ht.inv hs3 (by omega) hm
    rw [ht.pos_eq, hk.pos_eq, hrec] at ih
    rw [pullSlowLoopPulls, if_neg hcont]
    dsimp only
    split <;> rename_i heq <;>
      simp only [scratchUsed, moveCursor_scratch, hs, Option.isSome_none, Bool.false_eq_true,
        ↓reduceIte] at heq ⊢ <;> rw [hp1] at heq <;> cases heq
    rw [hrec]
    show PullsWithin src.data _ (r1.limitPos :: pulls)
    exact .cons (by omega) (hlim ▸ hk.pos_eq ▸ (hok.mp rfl).2) (ih.mono (by omega))
  | case3 r dest minLimit maxLimit length dest1 r1 hcont r2 r3 hp =>
    obtain ⟨hk, hs1, ha, -, hlt⟩ := pullSlowLoop_turn h hs hd hm hcont rfl rfl (rfl : r1 = _)
    have hp1 : pullBehindScratch src r1 = (false, r3) := by simpa [r2, scratchUsed, hs1] using hp
    have hlim : r1.limitPos = r.pos + length := by rw [← hk.pos_eq]; simp only [pos, ha, Nat.sub_zero]
    rw [pullSlowLoopPulls, if_neg hcont]
    dsimp only
    split <;> rename_i heq <;>
      simp only [scratchUsed, moveCursor_scratch, hs, Option.isSome_none, Bool.false_eq_true,
        ↓reduceIte] at heq ⊢ <;> rw [hp1] at heq <;> cases heq
    show PullsWithin src.data _ [r1.limitPos]
    exact .single (by omega)

/-- The position of the reader behind the scratch. -/
def behindPos (r : PullableReader) : Nat := if r.scratchUsed then r.limitPos else r.pos

/-- What `PullSlow(min_length, _)` from `r` may pull, with `max_length` its bound on the
scratch. -/
structure PullsBound (S : List Char) (r : PullableReader) (minLength maxLength : Nat)
    (res : (Bool × PullableReader) × List Nat) : Prop where
  within : PullsWithin S (r.pos + minLength) res.2
  behind : behindPos res.1.2 ≤ r.pos + maxLength
  scratch : ∀ sc, res.1.2.scratch = some sc → sc.buffer.length ≤ maxLength

section Bound

variable {S : List Char} {r1 : PullableReader} {m M : Nat}

theorem PullsBound.of_took_zero {res : (Bool × PullableReader) × List Nat}
    (ht : Took S r r1 0 []) (h : PullsBound S r1 m M res) : PullsBound S r m M res := by
  have hp : r1.pos = r.pos := ht.pos_eq
  exact ⟨hp ▸ h.within, hp ▸ h.behind, h.scratch⟩

theorem PullsBound.cons {q : (Bool × PullableReader) × List Nat} {p : Nat} (hp : p < r.pos + m)
    (hS : p < S.length) (h : PullsBound S r m M q) : PullsBound S r m M (q.1, p :: q.2) :=
  ⟨h.within.cons hp hS, h.behind, h.scratch⟩

theorem pullsBound_unscratched {ok : Bool} {pulls : List Nat} (hs : r1.scratch = none)
    (hp : r1.pos = r.pos) (hw : PullsWithin S (r.pos + m) pulls) : PullsBound S r m M ((ok, r1), pulls) :=
  ⟨hw, by simp [behindPos, scratchUsed, hs, hp], by simp [hs]⟩

end Bound

theorem pullsBound_fillScratch {m span M : Nat} (kept : List Char) {r1 : PullableReader}
    (ht : Took src.data r r1 kept.length kept) (hs1 : r1.scratch = none) (hkm : kept.length < m)
    (hsp : m - kept.length ≤ span) (hM : kept.length + span ≤ M) :
    PullsBound src.data r m M (match pullSlowLoopPulls src r1 [] (m - kept.length) span with
      | ((fresh, r), pulls) =>
        ((decide (m ≤ (kept ++ fresh).length), installScratch (kept ++ fresh) 0 r), pulls)) := by
  have hd : ([] : List Char).length < m - kept.length := by simp; omega
  have hw := pullSlowLoopPulls_within ht.inv hs1 hd hsp
  obtain ⟨fresh, h1, h2, -, h4, -, -⟩ := pullSlowLoop_spec ht.inv hs1 hd hsp
  rw [← pullSlowLoopPulls_fst] at h1 h2
  generalize pullSlowLoopPulls src r1 [] (m - kept.length) span = q at hw h1 h2 ⊢
  obtain ⟨⟨out, r2⟩, pulls⟩ := q
  simp only [List.nil_append, List.length_nil, Nat.zero_add, Nat.sub_zero] at h1 h2 h4 hw
  subst h1
  have htt := ht.trans h2
  rw [ht.pos_eq] at hw
  refine ⟨hw.mono (by omega), ?_, ?_⟩
  · simp only [behindPos, installScratch, scratchUsed, Option.isSome_some, if_true, htt.pos_eq]
    omega
  · rintro sc ⟨⟩
    simp only [List.length_append]
    omega

theorem pullsBound_fillScratchPulls {m rec : Nat} (h : Inv src.data r) (hm : r.available < m)
    (hw : m ≤ maxPosition) :
    PullsBound src.data r m (saturatingAdd (max m rec) (max m rec))
      (fillScratchPulls cfg src m rec r) := by
  have hsp {k : Nat} (hk : k < m) :
      m - k ≤ appendLength cfg.scratchAppend (m - k) (max m rec - k)
          (saturatingAdd (max m rec) (max m rec) - k) ∧
        k + appendLength cfg.scratchAppend (m - k) (max m rec - k)
          (saturatingAdd (max m rec) (max m rec) - k) ≤ saturatingAdd (max m rec) (max m rec) := by
    unfold appendLength saturatingAdd; omega
  cases hs : r.scratch with
  | none =>
    have hk : ([] : List Char).length < m := by simp; omega
    simpa [fillScratchPulls, hs] using
      pullsBound_fillScratch [] (Took.refl h) hs hk (hsp hk).1 (hsp hk).2
  | some sc =>
    have hi := h.scratch_inv sc hs
    have hv : r.view.length = r.available := length_view r
    have ht : Took src.data r (syncScratch r) r.view.length r.view := hv ▸ took_syncScratch h hs
    have hb : r.buffer ≠ [] := hi.buffer_eq ▸ hi.buffer_ne_nil
    have hk : r.view.length < m := by omega
    simp only [fillScratchPulls, hs, ← hi.buffer_eq, if_neg hb]
    exact pullsBound_fillScratch r.view ht (by simp) hk (hsp hk).1 (hsp hk).2

theorem pullsBound_pullSlowPulls {m rec : Nat} (h : Inv src.data r) (h1 : 1 < m)
    (hm : r.available < m) (hw : m ≤ maxPosition) :
    PullsBound src.data r m (saturatingAdd (max m rec) (max m rec)) (pullSlowPulls cfg src m rec r) := by
  unfold pullSlowPulls
  rw [if_pos h1]
  generalize he : (if r.scratchUsed then scratchEnds r else (false, r)) = e
  obtain ⟨ends, r1⟩ := e
  obtain ⟨ht, hr1, hs1⟩ := scratchEnds_if_spec h he
  refine .of_took_zero ht ?_
  dsimp only
  split
  · rename_i hends
    have hs : r1.scratch = none := by
      cases ends
      · exact absurd hends.1 Bool.false_ne_true
      · split at he
        exacts [(scratchEnds_spec h he).2.1 rfl, by cases he]
    exact pullsBound_unscratched hs rfl .nil
  split
  · rename_i hne ha
    have hlim : r1.limitPos = r1.pos := by simp [pos, ha]
    rcases hp : pullBehindScratch src r1 with ⟨_ | _, r2⟩
    · obtain ⟨-, -, -, -, hr⟩ := pullBehindScratch_spec ht.inv (hs1 ha) ha hp
      cases hr rfl
      exact pullsBound_unscratched (hs1 ha) rfl (.single (by omega))
    · obtain ⟨ht2, hs2, hok, hpos, -⟩ := pullBehindScratch_spec ht.inv (hs1 ha) ha hp
      dsimp only
      split
      · exact pullsBound_unscratched hs2 ht2.pos_eq (.single (by omega))
      · exact PullsBound.cons (q := fillScratchPulls cfg src m rec r2) (by omega)
          (by rw [hlim]; exact (hok.mp rfl).2)
          (.of_took_zero ht2 (pullsBound_fillScratchPulls cfg ht2.inv (by omega) hw))
  · rename_i hne ha
    refine pullsBound_fillScratchPulls cfg ht.inv ?_ hw
    cases ends
    · rw [hr1 rfl]; exact hm
    · simp only [true_and] at hne; omega

/-- `PullSlow(min_length, recommended_length)` from a reachable state holding fewer than
`min_length > 1` bytes: every `PullBehindScratch()` is made while fewer than `min_length` bytes
from `pos()` are held, none follows one that met the end of the source, and the reader behind
the scratch, like the scratch left, ends within `SaturatingAdd(r, r)` bytes of `pos()`, for
`r = max(min_length, recommended_length)` and a `min_length` that fits a `size_t`. -/
theorem pullSlow_pulls_bounded {r : PullableReader} (hr : Reachable cfg src r)
    (minLength recommendedLength : Nat) (hm : max r.available 1 < minLength)
    (hw : minLength ≤ maxPosition) :
    (pullSlowPulls cfg src minLength recommendedLength r).1 = pullSlow cfg src minLength recommendedLength r ∧
      (∀ p ∈ (pullSlowPulls cfg src minLength recommendedLength r).2, p < r.pos + minLength) ∧
      (∀ p ∈ (pullSlowPulls cfg src minLength recommendedLength r).2.dropLast, p < src.data.length) ∧
      behindPos (pullSlow cfg src minLength recommendedLength r).2 ≤
        r.pos + saturatingAdd (max minLength recommendedLength) (max minLength recommendedLength) ∧
      ∀ sc, (pullSlow cfg src minLength recommendedLength r).2.scratch = some sc →
        sc.buffer.length ≤ saturatingAdd (max minLength recommendedLength) (max minLength recommendedLength) := by
  have he : (pullSlowPulls cfg src minLength recommendedLength r).1 = _ :=
    pullSlowPulls_fst cfg minLength recommendedLength r
  have hb : PullsBound src.data r minLength
      (saturatingAdd (max minLength recommendedLength) (max minLength recommendedLength))
      (pullSlowPulls cfg src minLength recommendedLength r) :=
    pullsBound_pullSlowPulls cfg hr.inv_hookFault.1 (lt_of_le_of_lt (le_max_right _ _) hm)
      (lt_of_le_of_lt (le_max_left _ _) hm) hw
  exact ⟨he, hb.within.1, hb.within.2, he ▸ hb.behind, he ▸ hb.scratch⟩

theorem pullSlow_pulls_bounded_scenario :
    Reachable scenarioConfig scenarioSource fresh ∧ max fresh.available 1 < 5 ∧ 5 ≤ maxPosition ∧
      ((pullSlowPulls scenarioConfig scenarioSource 5 5 fresh).1 =
          pullSlow scenarioConfig scenarioSource 5 5 fresh ∧
        (∀ p ∈ (pullSlowPulls scenarioConfig scenarioSource 5 5 fresh).2, p < fresh.pos + 5) ∧
        (∀ p ∈ (pullSlowPulls scenarioConfig scenarioSource 5 5 fresh).2.dropLast,
          p < scenarioSource.data.length) ∧
        behindPos (pullSlow scenarioConfig scenarioSource 5 5 fresh).2 ≤
          fresh.pos + saturatingAdd (max 5 5) (max 5 5) ∧
        ∀ sc, (pullSlow scenarioConfig scenarioSource 5 5 fresh).2.scratch = some sc →
          sc.buffer.length ≤ saturatingAdd (max 5 5) (max 5 5)) :=
  ⟨.init, by decide, by decide, pullSlow_pulls_bounded scenarioConfig .init 5 5 (by decide) (by decide)⟩

end PullableReader
end Riegeli
