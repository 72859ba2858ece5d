import Riegeli.PullableReaderSpec

/-! `PullableReader` seen from outside. A plain reader over the flat source string answers
every operation from its position alone; every run of the scratch layer over any
fragmentation gives the same answers while it stays healthy, and only a backward seek without
random access can fail it. Every state reachable from a fresh reader, also through
`BehindScratch` scopes around subclass hooks, satisfies `Inv` and has entered every hook with
its precondition. -/
namespace Riegeli
namespace PullableReader

variable {cfg : Config} {src : Source} {S : List Char} {r r' : PullableReader}

/-- `r'` is `r` after a call that takes nothing. -/
structure Keeps (S : List Char) (r r' : PullableReader) : Prop where
  inv : Inv S r'
  pos_eq : r'.pos = r.pos
  status : r'.status = r.status
  hookFault : r'.hookFault = r.hookFault

theorem Took.keeps (ht : Took S r r' 0 []) : Keeps S r r' := ⟨ht.inv, ht.pos_eq, ht.status, ht.hookFault⟩

/-- What a subclass hook run inside a `BehindScratch` scope must do. -/
def HookContract (S : List Char) (hook : PullableReader → PullableReader) : Prop :=
  ∀ u, Inv S u → u.scratch = none →
    Inv S (hook u) ∧ (hook u).pos = u.pos ∧ (hook u).scratch = none ∧ (hook u).hookFault = u.hookFault

theorem behindScratchEnter_of_some {sc : Scratch} (hs : r.scratch = some sc) :
    behindScratchEnter r = (some (sc, r.cursor), syncScratch r) := by
  simp [behindScratchEnter, syncScratch, hs]

/-- A `BehindScratch` scope hides the scratch from the hook and restores it at the same `pos()`. -/
theorem behindScratch_spec {sc : Scratch} {hook : PullableReader → PullableReader}
    (h : Inv S r) (hs : r.scratch = some sc) (hk : HookContract S hook) :
    Inv S (behindScratch hook r) ∧ (behindScratch hook r).pos = r.pos ∧
      (behindScratch hook r).hookFault = r.hookFault ∧
      (behindScratch hook r).status = (hook (syncScratch r)).status := by
  have hi := h.scratch_inv sc hs
  have ⟨hu, hup⟩ := h.syncScratch_of_some hs
  obtain ⟨k1, k2, -, k4⟩ := hk _ hu scratch_syncScratch
  have := h.length_le; have := h.cursor_le
  have ⟨i1, i2⟩ := k1.installScratch (b := sc.buffer) (c := r.cursor) hi.buffer_ne_nil
    (by rw [k2, hup, ← hi.buffer_eq]; exact h.buffer_eq) (by rw [← hi.buffer_eq]; exact h.cursor_le)
  rw [behindScratch, behindScratchEnter_of_some hs]
  dsimp only [behindScratchLeave]
  refine ⟨i1, ?_, by simp [k4], rfl⟩
  rw [i2, k2, hup, ← hi.buffer_eq]
  simp only [pos, available]

theorem keeps_readHintBehindScratch {length : Nat} (h : Inv S r) (hlt : r.available < length)
    (hs : r.scratch = none) : Keeps S r (readHintBehindScratch length r) := by
  rw [readHintBehindScratch, checkHook_of_pre ⟨hlt, hs⟩]; exact ⟨h, rfl, rfl, rfl⟩

theorem hookContract_readHint (length : Nat) :
    HookContract S (fun u => if u.available < length then readHintBehindScratch length u else u) := by
  intro u hu hs
  dsimp only
  split
  · have k := keeps_readHintBehindScratch hu ‹_› hs
    exact ⟨k.inv, k.pos_eq, by simp [readHintBehindScratch, hs], k.hookFault⟩
  · exact ⟨hu, rfl, hs, rfl⟩

theorem readHintSlow_keeps {length : Nat} (h : Inv S r) (hlt : r.available < length) :
    Keeps S r (readHintSlow length r) := by
  unfold readHintSlow
  split
  · rename_i hu
    rcases he : scratchEnds r with ⟨ends, r1⟩
    obtain ⟨ht, hnone, hsame⟩ := scratchEnds_spec h he
    dsimp only
    cases ends
    · obtain ⟨rfl, -⟩ := hsame rfl
      rw [if_pos (by decide)]
      obtain ⟨sc, hs⟩ := Option.isSome_iff_exists.mp hu
      obtain ⟨i1, i2, i3, i4⟩ := behindScratch_spec h hs (hookContract_readHint _)
      refine ⟨i1, i2, ?_, i3⟩
      rw [i4]; split
      · simp [readHintBehindScratch]
      · simp
    · have hs1 := hnone rfl
      rw [if_neg (by decide)]
      split
      · exact ht.keeps
      · have k : Keeps S r1 (readHintBehindScratch length r1) :=
          keeps_readHintBehindScratch ht.inv (by omega) hs1
        exact ⟨k.inv, k.pos_eq.trans ht.pos_eq, k.status.trans ht.status,
          k.hookFault.trans ht.hookFault⟩
  · rename_i hu
    exact keeps_readHintBehindScratch h hlt (by simpa using hu)

theorem readHint_keeps {length : Nat} (h : Inv S r) : Keeps S r (readHint length r) := by
  unfold readHint
  split
  · exact readHintSlow_keeps h ‹_›
  · exact ⟨h, rfl, rfl, rfl⟩

theorem scratchPending_spec {pending : Bool} (h : Inv S r) (hp : scratchPending r = (pending, r')) :
    Took S r r' 0 [] ∧ (pending = true → r' = r) ∧ (pending = false → r'.scratch = none) := by
  unfold scratchPending at hp
  split at hp
  · rcases he : scratchEnds r with ⟨ends, r1⟩
    rw [he] at hp; cases hp
    obtain ⟨ht, hnone, hsame⟩ := scratchEnds_spec h he
    cases ends
    · exact ⟨ht, fun _ => (hsame rfl).1, by simp⟩
    · exact ⟨ht, by simp, fun _ => hnone rfl⟩
  · rename_i hu
    cases hp; exact ⟨Took.refl h, by simp, fun _ => by simpa using hu⟩

theorem syncBehindScratch_of_none (hs : r.scratch = none) : syncBehindScratch r = (r.healthy, r) := by
  rw [syncBehindScratch, checkHook_of_pre hs]

theorem doneBehindScratch_of_none (hs : r.scratch = none) : doneBehindScratch r = r := by
  rw [doneBehindScratch, checkHook_of_pre hs, syncBehindScratch_of_none hs]

theorem seekPost_took_zero {ra : Bool} {r1 : PullableReader} (ht : Took S r r1 0 [])
    (hs : r.scratch = none → r1.scratch = none) : SeekPost S ra r r.pos (r1.healthy, r1) where
  inv := ht.inv
  hookFault := ht.hookFault
  flat hh := by
    have := ht.le_length
    rw [healthy_congr ht.status] at hh ⊢
    exact ⟨hh, by simp [hh]; omega, by rw [ht.pos_eq]; omega⟩
  fails hh hf := by rw [healthy_congr ht.status] at hf; simp_all
  scratch := hs

/-- `Sync()` answers as a seek to `pos()` that never fails a healthy reader. -/
theorem syncImpl_spec (h : Inv src.data r) :
    SeekPost src.data src.supportsRandomAccess r r.pos (syncImpl src r) := by
  unfold syncImpl
  rcases hp : scratchPending r with ⟨pending, r1⟩
  obtain ⟨ht, hsame, hnone⟩ := scratchPending_spec h hp
  dsimp only
  cases pending
  · rw [syncBehindScratch_of_none (hnone rfl)]
    exact seekPost_took_zero ht fun _ => hnone rfl
  · obtain rfl : r = r1 := (hsame rfl).symm
    simp only [↓reduceIte]
    split
    · rename_i hra
      have hu := h.syncScratch
      have hk : SeekPost src.data src.supportsRandomAccess (syncScratch r) r.pos
          (seek src r.pos (syncScratch r)) := seek_spec hu
      rw [syncBehindScratch_of_none (hk.scratch scratch_syncScratch)]
      refine ⟨hk.inv, by simp [hk.hookFault], fun hh => ?_, fun hh hf => ?_, fun _ => hk.scratch (by simp)⟩
      · obtain ⟨k1, k2, k3⟩ := hk.flat hh
        exact ⟨by simpa using k1, by simp [hh, h.pos_le], k3⟩
      · have := (hk.fails (by simpa using hh) hf).1; simp_all
    · exact seekPost_took_zero (Took.refl h) id

theorem readerDone_hookFault : (readerDone r).hookFault = r.hookFault := rfl

theorem done_hookFault (h : Inv src.data r) : (done src r).hookFault = r.hookFault := by
  unfold done
  rcases hp : scratchPending r with ⟨pending, r1⟩
  obtain ⟨ht, hsame, hnone⟩ := scratchPending_spec h hp
  dsimp only
  cases pending
  · simp [doneBehindScratch_of_none (hnone rfl), readerDone_hookFault, ht.hookFault]
  · obtain rfl : r = r1 := (hsame rfl).symm
    simp only [↓reduceIte]
    split
    · have hk : SeekPost src.data src.supportsRandomAccess (syncScratch r) r.pos
          (seek src r.pos (syncScratch r)) := seek_spec h.syncScratch
      simp [doneBehindScratch_of_none (hk.scratch scratch_syncScratch), readerDone_hookFault,
        hk.hookFault]
    · rfl

/-- What a plain reader over the flat string `S` at position `p` answers to `op`. -/
def FlatAnswer (S : List Char) : Op → Nat → Outcome → Prop
  | .pull m _, p, o => o.ok = decide (p + m ≤ S.length) ∧ p + o.bytes.length ≤ S.length ∧
      o.bytes = slice S p (p + o.bytes.length) ∧ (o.ok = true → m ≤ o.bytes.length) ∧ o.pos = p
  | .read n, p, o | .readChain n, p, o | .readCord n, p, o | .copy n, p, o =>
      o = ⟨decide (p + n ≤ S.length), slice S p (p + n), min (p + n) S.length⟩
  | .copyBackward n, p, o =>
      o = ⟨decide (p + n ≤ S.length), if p + n ≤ S.length then slice S p (p + n) else [],
        min (p + n) S.length⟩
  | .seek q, _, o => o = ⟨decide (q ≤ S.length), [], min q S.length⟩
  | .skip n, p, o => o = ⟨decide (p + n ≤ S.length), [], min (p + n) S.length⟩
  | .readHint _, p, o | .sync, p, o => o = ⟨true, [], p⟩

instance (S : List Char) (op : Op) (p : Nat) (o : Outcome) : Decidable (FlatAnswer S op p o) := by
  cases op <;> unfold FlatAnswer <;> infer_instance

/-- The answers `os` of a plain reader over `S` from position `p` to `ops`. -/
inductive FlatRun (S : List Char) : List Op → Nat → List Outcome → Prop
  | nil (p : Nat) : FlatRun S [] p []
  | cons {op : Op} {ops : List Op} {p : Nat} {o : Outcome} {os : List Outcome} :
      FlatAnswer S op p o → FlatRun S ops o.pos os → FlatRun S (op :: ops) p (o :: os)

/-- What one public operation from `r` guarantees. -/
structure StepPost (S : List Char) (ra : Bool) (op : Op) (r : PullableReader)
    (res : Outcome × PullableReader) : Prop where
  inv : Inv S res.2
  hookFault : res.2.hookFault = r.hookFault
  flat : res.2.healthy = true → r.healthy = true ∧ FlatAnswer S op r.pos res.1
  fails : r.healthy = true → res.2.healthy = false →
    ra = false ∧ ∃ q, op = .seek q ∧ q < r.startPos

theorem stepPost_ofRead {ra : Bool} {op : Op} {n : Nat} {res : Bool × List Char × PullableReader}
    (hp : ReadPost S r n res) (hop : ∀ p o, FlatAnswer S op p o ↔
      o = ⟨decide (p + n ≤ S.length), slice S p (p + n), min (p + n) S.length⟩) :
    StepPost S ra op r (Outcome.ofRead res) where
  inv := hp.inv
  hookFault := hp.hookFault
  flat hh := by
    have hh' : r.healthy = true := by rwa [Outcome.ofRead, healthy_congr hp.status] at hh
    obtain ⟨k1, k2, k3⟩ := hp.flat hh'
    exact ⟨hh', (hop _ _).mpr (by simp [Outcome.ofRead, k1, k2, k3])⟩
  fails hh hf := by simp [Outcome.ofRead, healthy_congr hp.status, hh] at hf

theorem stepPost_ofBack {ra : Bool} {n : Nat} {res : Bool × List Char × PullableReader}
    (hp : BackPost S r n res) : StepPost S ra (.copyBackward n) r (Outcome.ofRead res) where
  inv := hp.inv
  hookFault := hp.hookFault
  flat hh := by
    have hh' : r.healthy = true := by rwa [Outcome.ofRead, healthy_congr hp.status] at hh
    obtain ⟨k1, k2, k3⟩ := hp.flat hh'
    exact ⟨hh', by simp [FlatAnswer, Outcome.ofRead, k1, k2, k3]⟩
  fails hh hf := by simp [Outcome.ofRead, healthy_congr hp.status, hh] at hf

theorem stepPost_ofSeek {ra : Bool} {op : Op} {q : Nat} {res : Bool × PullableReader}
    (hp : SeekPost S ra r q res)
    (hop : FlatAnswer S op r.pos ⟨decide (q ≤ S.length), [], min q S.length⟩)
    (hq : op ≠ .seek q → r.startPos ≤ q) : StepPost S ra op r (Outcome.ofSeek res) where
  inv := hp.inv
  hookFault := hp.hookFault
  flat hh := by
    obtain ⟨k1, k2, k3⟩ := hp.flat hh
    refine ⟨k1, ?_⟩
    simpa [Outcome.ofSeek, k2, k3] using hop
  fails hh hf := by
    obtain ⟨k1, k2⟩ := hp.fails hh hf
    refine ⟨k1, q, ?_, k2⟩
    by_contra hne; have := hq hne; omega

theorem stepPost_ofPull {ra : Bool} {m n : Nat} {res : Bool × PullableReader}
    (hp : PullPost S r m res) : StepPost S ra (.pull m n) r (⟨res.1, res.2.view, res.2.pos⟩, res.2) where
  inv := hp.inv
  hookFault := hp.hookFault
  flat hh := by
    have hh' : r.healthy = true := by rwa [healthy_congr hp.status] at hh
    obtain ⟨k1, k2⟩ := hp.flat hh'
    have hlen : res.2.view.length = res.2.available := length_view _
    have := hp.inv.pos_add_available; have := hp.inv.limitPos_le; have := hp.pos_eq
    refine ⟨hh', ?_⟩
    dsimp only [FlatAnswer]
    rw [hlen]
    refine ⟨k1, by omega, ?_, k2, hp.pos_eq⟩
    rw [hp.inv.view_eq, ← hp.pos_eq]; congr 1; omega
  fails hh hf := by simp [healthy_congr hp.status, hh] at hf

theorem stepPost_ofKeeps {ra : Bool} {op : Op} (k : Keeps S r r')
    (hop : FlatAnswer S op r.pos ⟨true, [], r.pos⟩) : StepPost S ra op r (⟨true, [], r'.pos⟩, r') where
  inv := k.inv
  hookFault := k.hookFault
  flat hh := ⟨by rwa [healthy_congr k.status] at hh, by rwa [k.pos_eq]⟩
  fails hh hf := by simp [healthy_congr k.status, hh] at hf

@[simp] theorem pos_step (op : Op) (r : PullableReader) :
    (step cfg src op r).1.pos = (step cfg src op r).2.pos := by
  cases op <;> rfl

theorem step_spec (op : Op) (h : Inv src.data r) :
    StepPost src.data src.supportsRandomAccess op r (step cfg src op r) := by
  have hread {slow : Nat → PullableReader → Bool × List Char × PullableReader}
      (hb : BehindSpec cfg src.data slow) (n : Nat) :
      ReadPost src.data r n (appendFast cfg (appendSlow cfg slow) n r) :=
    appendFast_spec (fun _ _ h' hl => appendSlow_spec hb h' hl) h
  have hstart := h.startPos_le_pos
  cases op with
  | pull m n => exact stepPost_ofPull (pull_spec h)
  | read n => exact stepPost_ofRead (read_spec h) fun _ _ => Iff.rfl
  | readChain n =>
    exact stepPost_ofRead (hread (fun _ _ h' hs hl => readBehindScratchChain_spec h' hs hl) n)
      fun _ _ => Iff.rfl
  | readCord n =>
    exact stepPost_ofRead (hread (fun _ _ h' hs hl => readBehindScratchCord_spec h' hs hl) n)
      fun _ _ => Iff.rfl
  | copy n =>
    exact stepPost_ofRead (hread (fun _ _ h' hs hl => copyBehindScratch_spec h' hs hl) n)
      fun _ _ => Iff.rfl
  | copyBackward n =>
    refine stepPost_ofBack ?_
    unfold appendFast
    split
    · exact BackPost.of_readPost (readPost_take h (by omega))
    · exact copySlowBackward_spec h (by omega)
  | seek q => exact stepPost_ofSeek (seek_spec h) rfl fun hne => absurd rfl hne
  | skip n => exact stepPost_ofSeek (seek_spec h) rfl fun _ => by omega
  | readHint n => exact stepPost_ofKeeps (readHint_keeps h) rfl
  | sync =>
    refine stepPost_ofSeek (syncImpl_spec h) ?_ fun _ => hstart
    simp [FlatAnswer, h.pos_le]

/-- Over a run from a valid state, a reader healthy at the end answered as the plain reader. -/
theorem run_spec (ops : List Op) (h : Inv src.data r) :
    Inv src.data (run cfg src ops r).2 ∧ (run cfg src ops r).2.hookFault = r.hookFault ∧
      ((run cfg src ops r).2.healthy = true →
        r.healthy = true ∧ FlatRun src.data ops r.pos (run cfg src ops r).1) ∧
      (r.healthy = true → src.supportsRandomAccess = true → (run cfg src ops r).2.healthy = true) := by
  induction ops generalizing r with
  | nil => exact ⟨h, rfl, fun hh => ⟨hh, .nil _⟩, fun hh _ => hh⟩
  | cons op ops ih =>
    have hs : StepPost src.data src.supportsRandomAccess op r (step cfg src op r) := step_spec op h
    have hpos : (step cfg src op r).1.pos = (step cfg src op r).2.pos := pos_step op r
    rw [run]
    generalize step cfg src op r = res at hs hpos ⊢
    obtain ⟨o, r1⟩ := res
    obtain ⟨i1, i2, i3, i4⟩ := ih hs.inv
    dsimp only at hs hpos ⊢
    refine ⟨i1, i2.trans hs.hookFault, fun hh => ?_, fun hh hra => i4 ?_ hra⟩
    · obtain ⟨hh1, hrun⟩ := i3 hh
      obtain ⟨hh0, hflat⟩ := hs.flat hh1
      exact ⟨hh0, .cons hflat (hpos ▸ hrun)⟩
    · by_contra hf
      have := (hs.fails hh (by simpa using hf)).1
      simp_all

theorem run_append (pre ops : List Op) (r : PullableReader) :
    run cfg src (pre ++ ops) r =
      ((run cfg src pre r).1 ++ (run cfg src ops (run cfg src pre r).2).1,
        (run cfg src ops (run cfg src pre r).2).2) := by
  induction pre generalizing r with
  | nil => rfl
  | cons op pre ih => rw [List.cons_append]; simp only [run, ih, List.cons_append]

/-- Without random access a healthy reader fails at a seek before its buffer, and only there:
the operations before that seek leave it healthy. -/
theorem run_fails_at_seek (ops : List Op) (h : Inv src.data r) (hh : r.healthy = true)
    (hf : (run cfg src ops r).2.healthy = false) :
    src.supportsRandomAccess = false ∧ ∃ pre q post, ops = pre ++ .seek q :: post ∧
      (run cfg src pre r).2.healthy = true ∧ q < (run cfg src pre r).2.startPos ∧
      (step cfg src (.seek q) (run cfg src pre r).2).2.healthy = false := by
  induction ops generalizing r with
  | nil => simp [run, hh] at hf
  | cons op ops ih =>
    have hs : StepPost src.data src.supportsRandomAccess op r (step cfg src op r) := step_spec op h
    cases h₁ : (step cfg src op r).2.healthy with
    | true =>
      obtain ⟨hra, pre, q, post, rfl, k⟩ := ih hs.inv h₁ hf
      exact ⟨hra, op :: pre, q, post, rfl, k⟩
    | false =>
      obtain ⟨hra, q, rfl, hq⟩ := hs.fails hh h₁
      exact ⟨hra, [], q, ops, rfl, hh, hq, h₁⟩

/-- Every run from a fresh reader over any fragmentation of `S` answers as the plain reader
over `S` from position 0 while it stays healthy, and with random access it always stays
healthy. Without random access it fails only at a seek before its buffer, and every answer
before that seek is the plain reader's. -/
theorem run_refines_flat (ops : List Op) :
    ((run cfg src ops fresh).2.healthy = true → FlatRun src.data ops 0 (run cfg src ops fresh).1) ∧
      (src.supportsRandomAccess = true → (run cfg src ops fresh).2.healthy = true) ∧
      ((run cfg src ops fresh).2.healthy = false → src.supportsRandomAccess = false ∧
        ∃ pre q post, ops = pre ++ .seek q :: post ∧
          (run cfg src pre fresh).1 <+: (run cfg src ops fresh).1 ∧
          FlatRun src.data pre 0 (run cfg src pre fresh).1 ∧
          q < (run cfg src pre fresh).2.startPos ∧
          (step cfg src (.seek q) (run cfg src pre fresh).2).2.healthy = false) := by
  have h : Inv src.data fresh := inv_empty (Nat.zero_le _) rfl rfl rfl rfl
  refine ⟨fun hh => ((run_spec ops h).2.2.1 hh).2, (run_spec ops h).2.2.2 rfl, fun hf => ?_⟩
  obtain ⟨hra, pre, q, post, rfl, hpre, hq, hfail⟩ := run_fails_at_seek _ h rfl hf
  refine ⟨hra, pre, q, post, rfl, ?_, ((run_spec pre h).2.2.1 hpre).2, hq, hfail⟩
  rw [run_append]
  exact List.prefix_append _ _

/-- States reachable from a fresh reader, also through `BehindScratch` scopes around hooks. -/
inductive Reachable (cfg : Config) (src : Source) : PullableReader → Prop
  | init : Reachable cfg src fresh
  | step (op : Op) {r : PullableReader} : Reachable cfg src r → Reachable cfg src (step cfg src op r).2
  | scope {hook : PullableReader → PullableReader} {r : PullableReader} :
      HookContract src.data hook → Reachable cfg src r → Reachable cfg src (behindScratch hook r)

theorem Reachable.inv_hookFault (hr : Reachable cfg src r) :
    Inv src.data r ∧ r.hookFault = false := by
  induction hr with
  | init => exact ⟨inv_empty (Nat.zero_le _) rfl rfl rfl rfl, rfl⟩
  | step op _ ih =>
    have hs : StepPost src.data src.supportsRandomAccess op _ (PullableReader.step cfg src op _) :=
      step_spec op ih.1
    exact ⟨hs.inv, hs.hookFault.trans ih.2⟩
  | @scope hook r hk _ ih =>
    cases hs : r.scratch with
    | none =>
      have he : behindScratch hook r = r := by simp [behindScratch, behindScratchEnter, hs]
      rw [he]; exact ih
    | some sc =>
      obtain ⟨i1, -, i3, -⟩ := behindScratch_spec ih.1 hs hk
      exact ⟨i1, i3.trans ih.2⟩

theorem limitPos_le_scratchEnds (r : PullableReader) : r.limitPos ≤ (scratchEnds r).2.limitPos := by
  unfold scratchEnds
  split
  · split
    · exact limitPos_le_syncScratch r
    · exact le_rfl
  · exact le_rfl

theorem scratchEnds_view (h : Inv S r) :
    (scratchEnds r).2.pos = r.pos ∧ r.view <+: (scratchEnds r).2.view := by
  obtain ⟨ht, -, -⟩ := scratchEnds_spec h (Prod.mk.eta (p := scratchEnds r)).symm
  have hi := ht.inv
  have hle := limitPos_le_scratchEnds r
  have := h.pos_add_available; have := hi.pos_add_available
  refine ⟨ht.pos_eq, ?_⟩
  rw [h.view_eq, hi.view_eq, ht.pos_eq, Nat.add_zero,
    ← slice_append_slice (b := r.limitPos) (by omega) hle]
  exact List.prefix_append _ _

/-- Every reachable state satisfies the scratch representation invariant, and leaving scratch
or `ScratchEnds()` restores a valid state at the same bytes. -/
theorem reachable_inv (hr : Reachable cfg src r) :
    Inv src.data r ∧ ∀ sc, r.scratch = some sc →
      (Inv src.data (syncScratch r) ∧ (syncScratch r).pos = r.limitPos) ∧
      ((scratchEnds r).1 = true → (scratchEnds r).2.pos = r.pos ∧ r.view <+: (scratchEnds r).2.view) := by
  have h := hr.inv_hookFault.1
  exact ⟨h, fun sc hs => ⟨h.syncScratch_of_some hs, fun _ => scratchEnds_view h⟩⟩

/-- `"abcdef"` exposed in fragments of two bytes, without random access. -/
def scenarioSource : Source := ⟨"abcdef".toList, fun _ => 2, false⟩

def scenarioConfig : Config := ⟨255, 65536, Nat.succ_pos _, fun a _ _ => a, fun a _ _ => a, id⟩

/-- The reader over `scenarioSource` after `Pull(5, 5)`, which gathers `"abcde"` in scratch. -/
def scenarioPulled : PullableReader := (step scenarioConfig scenarioSource (.pull 5 5) fresh).2

theorem reachable_inv_scenario :
    Reachable scenarioConfig scenarioSource scenarioPulled ∧
      Inv scenarioSource.data scenarioPulled ∧ ∀ sc, scenarioPulled.scratch = some sc →
        (Inv scenarioSource.data (syncScratch scenarioPulled) ∧
          (syncScratch scenarioPulled).pos = scenarioPulled.limitPos) ∧
        ((scratchEnds scenarioPulled).1 = true →
          (scratchEnds scenarioPulled).2.pos = scenarioPulled.pos ∧
            scenarioPulled.view <+: (scratchEnds scenarioPulled).2.view) :=
  have hr : Reachable scenarioConfig scenarioSource scenarioPulled := .step _ .init
  ⟨hr, reachable_inv hr⟩

/-- In every reachable state, and through `Done()`, every hook was entered with its precondition. -/
theorem reachable_hooks_ok (hr : Reachable cfg src r) :
    r.hookFault = false ∧ (done src r).hookFault = false := by
  have ⟨h, hf⟩ := hr.inv_hookFault
  exact ⟨hf, (done_hookFault h).trans hf⟩

theorem reachable_hooks_ok_scenario :
    Reachable scenarioConfig scenarioSource scenarioPulled ∧
      scenarioPulled.hookFault = false ∧ (done scenarioSource scenarioPulled).hookFault = false :=
  have hr : Reachable scenarioConfig scenarioSource scenarioPulled := .step _ .init
  ⟨hr, reachable_hooks_ok hr⟩

end PullableReader
end Riegeli
