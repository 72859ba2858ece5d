import Riegeli.IStreamReader

/-!
# The invariant of `IStreamReaderBase`

Every reachable state keeps the positions the code casts to `std::streamoff` in range
(`Bounds`). A healthy state also keeps the stream at `limit_pos()` with no state bit set,
and a cached size equal to the length of the data (`Inv`). `ReadInternal()` hands out
exactly the next bytes of the data.
-/

namespace Riegeli
namespace IStreamReader

/-- What every reachable state keeps, failed or not. -/
structure Bounds (r : IStreamReader) : Prop where
  limitPos_le : r.limitPos ≤ maxStreamOff
  size_le : ∀ n, r.size = some n → n ≤ maxStreamOff
  castFault : r.castFault = false

/-- What a healthy state keeps. -/
structure Inv (r : IStreamReader) : Prop where
  pos_eq : r.src.pos = r.limitPos
  pos_le : r.limitPos ≤ r.src.data.length
  size_eq : ∀ n, r.size = some n → n = r.src.data.length
  growing : r.growingSource = true → r.size = none
  good : r.src.good = true

/-- `r'` follows `r`: same data and `growing_source_`, and a failed or closed reader stays so. -/
structure Later (r r' : IStreamReader) : Prop where
  data : r'.src.data = r.src.data
  growing : r'.growingSource = r.growingSource
  status : r'.status = .ok → r.status = .ok
  isOpen : r'.isOpen = true → r.isOpen = true

section Basic

variable {r r' r'' : IStreamReader}

theorem Later.refl (r : IStreamReader) : Later r r := ⟨rfl, rfl, id, id⟩

theorem Later.trans (h1 : Later r r') (h2 : Later r' r'') : Later r r'' :=
  ⟨h2.data.trans h1.data, h2.growing.trans h1.growing, h1.status ∘ h2.status, h1.isOpen ∘ h2.isOpen⟩

theorem Later.healthy (h : Later r r') (h' : r'.healthy = true) : r.healthy = true := by
  simp only [IStreamReader.healthy, Bool.and_eq_true, decide_eq_true_eq] at h' ⊢
  exact ⟨h.isOpen h'.1, h.status h'.2⟩

@[simp] theorem healthy_fail_failed {code : StatusCode} {message : String} :
    (fail (.failed code message) r).healthy = false := by
  simp [IStreamReader.healthy]

@[simp] theorem healthy_failOperation {operation : String} : (failOperation operation r).healthy = false :=
  healthy_fail_failed

@[simp] theorem healthy_failOverflow : (failOverflow r).healthy = false := healthy_fail_failed

theorem Bounds.fail (h : Bounds r) (status : Status) : Bounds (fail status r) :=
  ⟨h.limitPos_le, h.size_le, h.castFault⟩

theorem Bounds.failOperation (h : Bounds r) (operation : String) : Bounds (failOperation operation r) :=
  h.fail _

theorem Bounds.foundSize (h : Bounds r) {n : Nat} (hn : n ≤ maxStreamOff) : Bounds (foundSize n r) := by
  refine ⟨h.limitPos_le, fun m hm => ?_, h.castFault⟩
  simp only [IStreamReader.foundSize] at hm
  split at hm
  · exact h.size_le m hm
  · simp only [Option.some.injEq] at hm; omega

theorem size_foundSize_eq {n : Nat} (hs : ∀ m, r.size = some m → m = n) :
    ∀ m, (foundSize n r).size = some m → m = n := by
  intro m hm
  simp only [IStreamReader.foundSize] at hm
  split at hm
  · exact hs m hm
  · exact (Option.some.inj hm).symm

theorem growing_foundSize {n : Nat} (hg : r.growingSource = true → r.size = none) :
    (foundSize n r).growingSource = true → (foundSize n r).size = none := by
  intro h
  simp only [IStreamReader.foundSize] at h ⊢
  simp [h, hg h]

theorem IStream.good_of_fail {s : IStream} (h : s.fail = true) : s.good = false := by
  obtain ⟨_, _, _ | _, _ | _, _, _, _⟩ := s <;> simp_all [IStream.fail, IStream.good]

end Basic

section RandomAccess

variable (b : Behaviour) {r : IStreamReader}

theorem later_probeRandomAccess : Later r (probeRandomAccess b r).2 := by
  unfold probeRandomAccess
  simp only
  split_ifs <;> constructor <;>
    simp [seekgEnd, seekgTo, clearErrno, foundSize, failOperation, IStreamReader.healthy]

/-- What `supports_random_access()` leaves behind from a healthy state. -/
structure ProbePost (r : IStreamReader) (p : Bool × IStreamReader) : Prop where
  later : Later r p.2
  limitPos : p.2.limitPos = r.limitPos
  inv : p.2.healthy = true → Inv p.2
  stuck : p.2.healthy = false → p.2.src.good = false ∨ p.2.src.data.length ≤ p.2.src.pos
  supported : p.1 = true → p.2.healthy = true

theorem probeRandomAccess_post (h : Inv r) (hh : r.healthy = true) :
    ProbePost r (probeRandomAccess b r) := by
  obtain ⟨hf, hb, he⟩ := IStream.good_eq_true.mp h.good
  unfold probeRandomAccess
  simp only [seekgEnd, clearErrno, seekgTo, IStream.tellg_snd]
  split_ifs with h1 h2 h3
  · have hp := IStream.pos_seekg_of_failbit (b := b) (t := List.length) (s := r.src)
      (by simpa [IStream.fail, hb] using h1)
    refine ⟨by constructor <;> simp, rfl, fun _ => ⟨?_, ?_, ?_, ?_, ?_⟩, fun h' => ?_, by simp⟩
    · simp [hp, h.pos_eq]
    · simpa using h.pos_le
    · simpa using h.size_eq
    · exact h.growing
    · simp [IStream.good_eq_true, hb]
    · simp_all [IStreamReader.healthy]
  all_goals
    have hok := IStream.seekg_ok (b := b) (t := List.length) (s := r.src)
      (by simpa [IStream.fail, hb] using h1)
  · refine ⟨by constructor <;> simp [failOperation], by simp [failOperation], by simp, fun _ => .inr ?_,
      by simp⟩
    simp [failOperation, hok.2.1]
  · refine ⟨by constructor <;> simp [failOperation], by simp [failOperation], by simp,
      fun _ => .inl ?_, by simp⟩
    simpa [failOperation] using IStream.good_of_fail h3
  · have ht := IStream.tellg_nonneg (Int.not_lt.mp h2)
    simp only [IStream.fail, Bool.or_eq_true, not_or, Bool.not_eq_true] at h3
    have hok2 := IStream.seekg_ok h3.1
    refine ⟨by constructor <;> simp [foundSize], by simp [foundSize], fun _ => ⟨?_, ?_, ?_, ?_, ?_⟩,
      fun h' => by simp_all [foundSize, IStreamReader.healthy],
      fun _ => by simp_all [foundSize, IStreamReader.healthy]⟩
    · simp_all [foundSize]
    · simpa [foundSize] using h.pos_le
    · cases hg : r.growingSource
      · simp_all [foundSize]
      · simpa [foundSize, hg] using h.size_eq
    · intro hg
      simp_all [foundSize, h.growing]
    · simp_all [foundSize, IStream.good_eq_true]

theorem Bounds.probeRandomAccess (h : Bounds r) : Bounds (probeRandomAccess b r).2 := by
  unfold IStreamReader.probeRandomAccess
  simp only [seekgEnd, clearErrno, seekgTo, IStream.tellg_snd]
  have hc : (r.castFault || decide (maxStreamOff < r.limitPos)) = false := by
    simp [h.castFault, h.limitPos_le]
  split_ifs with h1 h2 h3
  · exact ⟨h.1, h.2, h.3⟩
  · refine Bounds.failOperation ?_ _
    exact ⟨h.1, h.2, h.3⟩
  · refine Bounds.failOperation ?_ _
    exact ⟨h.1, h.2, hc⟩
  · have := IStream.tellg_nonneg (Int.not_lt.mp h2)
    refine Bounds.foundSize ?_ (by omega)
    exact ⟨h.1, h.2, hc⟩

theorem later_supportsRandomAccess : Later r (supportsRandomAccess b r).2 := by
  unfold supportsRandomAccess
  split
  · exact .refl r
  · exact .refl r
  · have hl := later_probeRandomAccess b (r := r)
    generalize probeRandomAccess b r = p at *
    exact ⟨hl.data, hl.growing, hl.status, hl.isOpen⟩

@[simp] theorem limitPos_probeRandomAccess : (probeRandomAccess b r).2.limitPos = r.limitPos := by
  unfold probeRandomAccess
  simp only
  split_ifs <;> simp [seekgEnd, seekgTo, clearErrno, failOperation, foundSize]

@[simp] theorem limitPos_supportsRandomAccess : (supportsRandomAccess b r).2.limitPos = r.limitPos := by
  unfold supportsRandomAccess
  split
  · rfl
  · rfl
  · have hl := limitPos_probeRandomAccess b (r := r)
    generalize probeRandomAccess b r = p at *
    exact hl

theorem Bounds.supportsRandomAccess (h : Bounds r) : Bounds (supportsRandomAccess b r).2 := by
  unfold IStreamReader.supportsRandomAccess
  split
  · exact h
  · exact h
  · have hb := h.probeRandomAccess b
    generalize IStreamReader.probeRandomAccess b r = p at *
    exact ⟨hb.limitPos_le, hb.size_le, hb.castFault⟩

theorem supportsRandomAccess_post (h : Inv r) (hh : r.healthy = true) :
    ProbePost r (supportsRandomAccess b r) := by
  unfold supportsRandomAccess
  split
  · exact ⟨.refl r, rfl, fun _ => h, by simp [hh], by simp⟩
  · exact ⟨.refl r, rfl, fun _ => h, by simp [hh], fun _ => hh⟩
  · have hp := probeRandomAccess_post b h hh
    generalize probeRandomAccess b r = p at *
    obtain ⟨hl, hlim, hinv, hstuck, hsup⟩ := hp
    refine ⟨⟨hl.data, hl.growing, hl.status, hl.isOpen⟩, hlim, fun h' => ?_, hstuck, hsup⟩
    have i := hinv h'
    exact ⟨i.pos_eq, i.pos_le, i.size_eq, i.growing, i.good⟩

end RandomAccess

section Read

variable (b : Behaviour) {r : IStreamReader} {maxLength : Nat}

/-- What a pass that reaches `fragment_read:` with `bytes` leaves behind. -/
structure FragmentPost (r : IStreamReader) (maxLength : Nat) (bytes : List Char) (r' : IStreamReader) :
    Prop where
  later : Later r r'
  bounds : Bounds r'
  limitPos : r'.limitPos = r.limitPos
  healthy : r'.healthy = true
  length_le : bytes.length ≤ maxLength
  bytes_eq : bytes = slice r.src.data r.limitPos (r.limitPos + bytes.length)
  pos_eq : r'.src.pos = r.limitPos + bytes.length
  size_eq : ∀ n, r'.size = some n → n = r.src.data.length
  growing : r'.growingSource = true → r'.size = none
  good : r'.src.fail = false → r'.src.good = true
  eof : r'.src.failbit = true → r'.src.badbit = false → r'.src.pos = r.src.data.length

/-- What one pass of the loop of `ReadInternal()` leaves behind from a healthy state. -/
def AttemptPost (r : IStreamReader) (maxLength : Nat) : Attempt → Prop
  | .finished result r' => result = false ∧ Later r r' ∧ Bounds r' ∧ r'.limitPos = r.limitPos ∧
      (r'.healthy = true → Inv r' ∧ r'.limitPos = r.src.data.length ∧
        (r.growingSource = false → r'.size = some r.src.data.length))
  | .fragment bytes r' => FragmentPost r maxLength bytes r'

theorem readFixed_post {n : Nat} (hb : Bounds r) (hi : Inv r) (hh : r.healthy = true)
    (hn : n ≤ maxLength) : AttemptPost r maxLength (readFixed b n r) := by
  obtain ⟨hm, hl⟩ := IStream.read_moved (b := b) (s := r.src) n
  have hp := hm.pos
  rw [hi.pos_eq] at hp
  unfold readFixed AttemptPost
  exact ⟨⟨hm.data, rfl, id, id⟩, ⟨hb.1, hb.2, hb.3⟩, rfl, hh, by omega,
    hm.bytes.trans (by rw [hp, hi.pos_eq]), hp, hi.size_eq, hi.growing,
    fun hf => (IStream.read_ok hf).2,
    fun hf hb' => IStream.read_eof hi.good (hi.pos_eq ▸ hi.pos_le) hf hb'⟩

theorem AttemptPost.of_later {r₁ : IStreamReader} {a : Attempt} (h : AttemptPost r₁ maxLength a)
    (hl : Later r r₁) (hlim : r₁.limitPos = r.limitPos) : AttemptPost r maxLength a := by
  cases a with
  | finished result r' =>
    obtain ⟨hres, hl', hb', hlim', hinv⟩ := h
    refine ⟨hres, hl.trans hl', hb', hlim'.trans hlim, fun hh => ?_⟩
    obtain ⟨i, hpos, hsize⟩ := hinv hh
    exact ⟨i, hpos.trans (by rw [hl.data]), fun hg => (hsize (hl.growing ▸ hg)).trans (by rw [hl.data])⟩
  | fragment bytes r' =>
    exact ⟨hl.trans h.later, h.bounds, h.limitPos.trans hlim, h.healthy, h.length_le,
      by rw [← hl.data, ← hlim]; exact h.bytes_eq, by rw [h.pos_eq, hlim],
      by rw [← hl.data]; exact h.size_eq, h.growing, h.good, by rw [← hl.data]; exact h.eof⟩

theorem readSome_post {lengthToRead maxLengthToRead : Nat} (hb : Bounds r)
    (hinv : r.healthy = true → Inv r)
    (hstuck : r.healthy = false → r.src.good = false ∨ r.src.data.length ≤ r.src.pos)
    (hl : lengthToRead ≤ maxLength) (hml : maxLengthToRead ≤ maxLength) :
    AttemptPost r maxLength (readSome b lengthToRead maxLengthToRead r) := by
  simp only [readSome]
  split
  · rename_i hc
    split_ifs with hf
    · exact ⟨rfl, ⟨by simp [failOperation], rfl, by simp [failOperation], by simp [failOperation]⟩,
        (show Bounds { r with src := (r.src.peek b).2 } from ⟨hb.1, hb.2, hb.3⟩).failOperation _,
        by simp [failOperation], by simp⟩
    · refine ⟨rfl, ⟨by simp [foundSize], rfl, by simp [foundSize], by simp [foundSize]⟩,
        (show Bounds { r with src := { (r.src.peek b).2 with eofbit := false } } from
          ⟨hb.1, hb.2, hb.3⟩).foundSize hb.1, by simp [foundSize], fun hh => ?_⟩
      have i := hinv (by simpa [foundSize, IStreamReader.healthy] using hh)
      obtain ⟨-, hend, hfb, hbb⟩ := IStream.peek_none_ok hc (by simpa using hf)
      have hlim : r.limitPos = r.src.data.length := by
        have := i.pos_le; rw [i.pos_eq] at hend; omega
      refine ⟨⟨by simp [foundSize, i.pos_eq], by simp [foundSize, i.pos_le], ?_, ?_, ?_⟩,
        by simp [foundSize, hlim], fun hg => by simp [foundSize, hg, hlim]⟩
      · intro n hn
        cases hg : r.growingSource
        · simp [foundSize, hg] at hn
          simp only [foundSize, IStream.data_peek]
          omega
        · simpa using i.size_eq n (by simpa [foundSize, hg] using hn)
      · intro hg
        replace hg : r.growingSource = true := by simpa [foundSize] using hg
        simp [foundSize, hg, i.growing hg]
      · simp [foundSize, IStream.good_eq_true, hfb, hbb]
  · rename_i c hc
    obtain ⟨hg, hlt, hg2⟩ := IStream.peek_some hc
    have hh : r.healthy = true := by
      cases hh : r.healthy
      · rcases hstuck hh with h | h
        · simp [hg] at h
        · omega
      · rfl
    have i := hinv hh
    obtain ⟨hm, hlen⟩ := IStream.readsome_moved (b := b) (s := (r.src.peek b).2) maxLengthToRead
    have hp := hm.pos
    rw [IStream.pos_peek, i.pos_eq] at hp
    have hd : ((r.src.peek b).2.readsome b maxLengthToRead).2.data = r.src.data := by
      rw [hm.data, IStream.data_peek]
    have hlt' : (r.src.peek b).2.pos < (r.src.peek b).2.data.length := by simpa using hlt
    have hbytes := hm.bytes
    rw [IStream.data_peek, IStream.pos_peek, i.pos_eq] at hbytes
    split_ifs with hpos
    · refine ⟨⟨hd, rfl, id, id⟩, ⟨hb.1, hb.2, hb.3⟩, rfl, hh, by omega, hbytes.trans (by rw [hp]), hp,
        i.size_eq, i.growing, fun hf => IStream.readsome_good hg2 hlt' ?_, fun hf => ?_⟩
      · exact (by simpa [IStream.fail] using hf : _ ∧ _).2
      · simp [IStream.readsome_failbit hg2] at hf
    · have hp0 : ((r.src.peek b).2.readsome b maxLengthToRead).2.pos = r.limitPos := by omega
      cases hbad : ((r.src.peek b).2.readsome b maxLengthToRead).2.badbit
      · have hgood := IStream.readsome_good hg2 hlt' hbad
        exact (readFixed_post b (r := { r with src := ((r.src.peek b).2.readsome b maxLengthToRead).2 })
          ⟨hb.1, hb.2, hb.3⟩
          ⟨hp0, by simpa [hd] using i.pos_le, by simpa [hd] using i.size_eq, i.growing, hgood⟩ hh hl).of_later
          ⟨hd, rfl, id, id⟩ rfl
      · have hng : ((r.src.peek b).2.readsome b maxLengthToRead).2.good = false := by
          simp [IStream.good, hbad]
        simp only [readFixed, AttemptPost, IStream.read_of_not_good hng]
        exact ⟨⟨hd, rfl, id, id⟩, ⟨hb.1, hb.2, hb.3⟩, rfl, hh, by simp, by simp, by simpa using hp0,
          i.size_eq, i.growing, by simp [IStream.fail], by simp [hbad]⟩

theorem readAttempt_post {minLength : Nat} (hb : Bounds r) (hi : Inv r) (hh : r.healthy = true)
    (hmin : minLength ≤ maxLength) : AttemptPost r maxLength (readAttempt b minLength maxLength r) := by
  simp only [readAttempt]
  split_ifs with hlt
  · have hsra := supportsRandomAccess_post b hi hh
    have hsb := hb.supportsRandomAccess b
    have hlim := limitPos_supportsRandomAccess b (r := r)
    generalize supportsRandomAccess b r = p at *
    obtain ⟨sup, r₁⟩ := p
    obtain ⟨hl, -, hinv, hstuck, hsup⟩ := hsra
    dsimp only at *
    split
    · have hh₁ := hsup rfl
      exact (readFixed_post b hsb (hinv hh₁) hh₁ (by omega)).of_later hl hlim
    · exact (readSome_post b hsb hinv hstuck (by omega) (by omega)).of_later hl hlim
  · exact readFixed_post b hb hi hh (by omega)

/-- What `ReadInternal()` and its loop leave behind from a healthy state. -/
structure ReadPost (r : IStreamReader) (minLength maxLength : Nat) (p : Bool × List Char × IStreamReader) :
    Prop where
  later : Later r p.2.2
  bounds : Bounds p.2.2
  length_le : p.2.1.length ≤ maxLength
  bytes_eq : p.2.1 = slice r.src.data r.limitPos (r.limitPos + p.2.1.length)
  limitPos : p.2.2.limitPos = r.limitPos + p.2.1.length
  result : p.1 = true → minLength ≤ p.2.1.length
  inv : p.2.2.healthy = true → Inv p.2.2
  exhausted : p.2.2.healthy = true → p.1 = false →
    p.2.2.limitPos = r.src.data.length ∧ (r.growingSource = false → p.2.2.size = some r.src.data.length)

theorem readLoop_of_finished {minLength : Nat} {result : Bool} {r' : IStreamReader}
    (h : readAttempt b minLength maxLength r = .finished result r') :
    readLoop b minLength maxLength r = (result, [], r') := by
  rw [readLoop]; split <;> simp_all

theorem readLoop_of_fragment {minLength : Nat} {bytes : List Char} {r₁ : IStreamReader}
    (h : readAttempt b minLength maxLength r = .fragment bytes r₁) :
    readLoop b minLength maxLength r =
      let r₂ := { r₁ with limitPos := r₁.limitPos + bytes.length }
      if r₂.src.fail then
        (decide (minLength ≤ bytes.length), bytes,
          if r₂.src.badbit then failOperation "istream::read()" r₂
          else foundSize r₂.limitPos { r₂ with src := { r₂.src with eofbit := false, failbit := false } })
      else if minLength ≤ bytes.length then (true, bytes, r₂)
      else
        let p := readLoop b (minLength - bytes.length) (maxLength - bytes.length) r₂
        (p.1, bytes ++ p.2.1, p.2.2) := by
  rw [readLoop]
  split
  · simp_all
  · rename_i heq
    rw [h] at heq
    cases heq
    simp only [dite_eq_ite]

theorem readLoop_post {minLength : Nat} (hb : Bounds r) (hi : Inv r) (hh : r.healthy = true)
    (h0 : 0 < minLength) (hmin : minLength ≤ maxLength) (hmax : maxLength ≤ maxStreamOff - r.limitPos) :
    ReadPost r minLength maxLength (readLoop b minLength maxLength r) := by
  induction minLength, maxLength, r using readLoop.induct b with
  | case1 minLength maxLength r result r₁ heq =>
    have ha := readAttempt_post b hb hi hh hmin
    rw [heq] at ha
    obtain ⟨rfl, hl, hb₁, hlim, hinv⟩ := ha
    rw [readLoop_of_finished b heq]
    exact ⟨hl, hb₁, by simp, by simp, by simpa using hlim, by simp, fun h => (hinv h).1,
      fun h _ => (hinv h).2⟩
  | case2 minLength maxLength r bytes r₁ heq r₂ hfail =>
    have fp : FragmentPost r maxLength bytes r₁ := by
      simpa [heq] using readAttempt_post b hb hi hh hmin
    rw [readLoop_of_fragment b heq]
    simp only [r₂] at hfail ⊢
    rw [if_pos hfail]
    have hlen := fp.length_le
    have hbound : r₁.limitPos + bytes.length ≤ maxStreamOff := by rw [fp.limitPos]; omega
    have hb₂ : Bounds { r₁ with limitPos := r₁.limitPos + bytes.length } :=
      ⟨hbound, fp.bounds.2, fp.bounds.3⟩
    cases hbad : r₁.src.badbit
    · have hfb : r₁.src.failbit = true := by simpa [IStream.fail, hbad] using hfail
      have hend := fp.eof hfb hbad
      have hlim : r₁.limitPos + bytes.length = r.src.data.length := by
        rw [fp.limitPos, ← fp.pos_eq, hend]
      simp only [Bool.false_eq_true, if_false]
      refine ⟨fp.later.trans ⟨by simp [foundSize], rfl, by simp [foundSize], by simp [foundSize]⟩,
        Bounds.foundSize ?_ hbound, hlen, fp.bytes_eq, by simp [foundSize, fp.limitPos],
        fun h => by simpa using h, fun h' => ⟨?_, ?_, ?_, ?_, ?_⟩, fun h' _ => ?_⟩
      · exact ⟨hbound, fp.bounds.2, fp.bounds.3⟩
      · simp [foundSize, hend, hlim]
      · simp [foundSize, hlim, fp.later.data]
      · intro n hn
        cases hg : r₁.growingSource
        · simp [foundSize, hg] at hn; simp [foundSize, ← hn, hlim, fp.later.data]
        · simpa [fp.later.data] using fp.size_eq n (by simpa [foundSize, hg] using hn)
      · intro hg
        replace hg : r₁.growingSource = true := by simpa [foundSize] using hg
        simp [foundSize, hg, fp.growing hg]
      · simp [foundSize, IStream.good_eq_true, hbad]
      · refine ⟨by simp [foundSize, hlim], fun hg => ?_⟩
        rw [← fp.later.growing] at hg
        simp [foundSize, hg, hlim]
    · simp only [if_true]
      exact ⟨fp.later.trans ⟨by simp [failOperation], rfl, by simp [failOperation], by simp [failOperation]⟩,
        hb₂.failOperation _, hlen, fp.bytes_eq, by simp [failOperation, fp.limitPos],
        fun h => by simpa using h, fun h' => by simp at h', fun h' => by simp at h'⟩
  | case3 minLength maxLength r bytes r₁ heq r₂ hfail hle =>
    have fp : FragmentPost r maxLength bytes r₁ := by
      simpa [heq] using readAttempt_post b hb hi hh hmin
    rw [readLoop_of_fragment b heq]
    simp only [r₂] at hfail ⊢
    rw [if_neg hfail, if_pos hle]
    have hlen := fp.length_le
    have hin : r.limitPos + bytes.length ≤ r.src.data.length := by
      have hl := congrArg List.length fp.bytes_eq
      simp only [length_slice] at hl
      have := hi.pos_le
      omega
    have hbound : r.limitPos + bytes.length ≤ maxStreamOff := by omega
    exact ⟨fp.later.trans ⟨rfl, rfl, id, id⟩, ⟨by simpa [fp.limitPos] using hbound, fp.bounds.2, fp.bounds.3⟩,
      hlen, fp.bytes_eq, by simp [fp.limitPos], fun _ => hle,
      fun _ => ⟨by simp [fp.pos_eq, fp.limitPos], by simpa [fp.limitPos, fp.later.data] using hin,
        by simpa [fp.later.data] using fp.size_eq, fp.growing, fp.good (by simpa using hfail)⟩,
      fun _ h => by simp at h⟩
  | case4 minLength maxLength r bytes r₁ heq r₂ hfail hlt result rest r₃ hrec ih =>
    have fp : FragmentPost r maxLength bytes r₁ := by
      simpa [heq] using readAttempt_post b hb hi hh hmin
    rw [readLoop_of_fragment b heq]
    simp only [r₂] at hfail hrec ih ⊢
    rw [if_neg hfail, if_neg hlt, hrec]
    have hlen := fp.length_le
    have hin : r.limitPos + bytes.length ≤ r.src.data.length := by
      have hl := congrArg List.length fp.bytes_eq
      simp only [length_slice] at hl
      have := hi.pos_le
      omega
    have hbound : r.limitPos + bytes.length ≤ maxStreamOff := by omega
    have ih' := ih ⟨by simpa [fp.limitPos] using hbound, fp.bounds.2, fp.bounds.3⟩
      ⟨by simp [fp.pos_eq, fp.limitPos], by simpa [fp.limitPos, fp.later.data] using hin,
        by simpa [fp.later.data] using fp.size_eq, fp.growing, fp.good (by simpa using hfail)⟩
      fp.healthy (by omega) (by omega) (by simp only [fp.limitPos]; omega)
    rw [hrec] at ih'
    obtain ⟨hl, hb₃, hlen₃, hbytes₃, hlim₃, hres₃, hinv₃, hexh₃⟩ := ih'
    dsimp only at hl hb₃ hlen₃ hbytes₃ hlim₃ hres₃ hinv₃ hexh₃ ⊢
    simp only [fp.limitPos, fp.later.data] at hbytes₃ hlim₃ hexh₃
    have hl₂ : Later r₁ { r₁ with limitPos := r₁.limitPos + bytes.length } := ⟨rfl, rfl, id, id⟩
    refine ⟨fp.later.trans (hl₂.trans hl), hb₃,
      by simp only [List.length_append]; omega, ?_, by rw [hlim₃, List.length_append]; omega,
      fun h => by have := hres₃ h; simp only [List.length_append]; omega, hinv₃, fun h h' => ?_⟩
    · calc bytes ++ rest
          = slice r.src.data r.limitPos (r.limitPos + bytes.length) ++
              slice r.src.data (r.limitPos + bytes.length) (r.limitPos + bytes.length + rest.length) := by
            rw [← fp.bytes_eq, ← hbytes₃]
        _ = slice r.src.data r.limitPos (r.limitPos + (bytes ++ rest).length) := by
            rw [slice_append_slice (by omega) (by omega), List.length_append, Nat.add_assoc]
    · obtain ⟨h1, h2⟩ := hexh₃ h h'
      exact ⟨h1, fun hg => h2 (by rw [← fp.later.growing] at hg; exact hg)⟩

theorem ReadPost.of_clearErrno {minLength maxLength' : Nat} {p : Bool × List Char × IStreamReader}
    (h : ReadPost (clearErrno r) minLength maxLength p) (hm : maxLength ≤ maxLength') :
    ReadPost r minLength maxLength' p :=
  ⟨⟨h.later.data, h.later.growing, h.later.status, h.later.isOpen⟩, h.bounds, by have := h.length_le; omega,
    h.bytes_eq, h.limitPos, h.result, h.inv, h.exhausted⟩

theorem Inv.clearErrno (h : Inv r) : Inv (clearErrno r) := ⟨h.1, h.2, h.3, h.4, by simpa using h.5⟩

theorem readInternal_post {minLength : Nat} (hb : Bounds r) (hi : Inv r) (hh : r.healthy = true)
    (h0 : 0 < minLength) (hmin : minLength ≤ maxLength) :
    ReadPost r minLength maxLength (readInternal b minLength maxLength r) := by
  have hl := hb.limitPos_le
  unfold readInternal
  split_ifs with hsize hover hunder
  · cases hn : r.size with
    | none => simp [hn] at hsize
    | some n =>
      simp only [hn, Option.any_some, decide_eq_true_eq] at hsize
      have hn' := hi.size_eq n hn
      have := hi.pos_le
      exact ⟨.refl r, hb, by simp, by simp, by simp, by simp, fun _ => hi,
        fun _ _ => ⟨by dsimp only; omega, fun _ => by rw [hn, hn']⟩⟩
  · exact ⟨⟨rfl, rfl, by simp [failOverflow, Status.overflow], by simp [failOverflow]⟩, hb.fail _,
      by simp, by simp, by simp [failOverflow], by simp, by simp, by simp⟩
  · exact (readLoop_post b (r := clearErrno r) ⟨hb.1, hb.2, hb.3⟩ hi.clearErrno
      (by simpa [clearErrno] using hh) h0 (by omega) (by simp [clearErrno])).of_clearErrno (by omega)
  · exact (readLoop_post b (r := clearErrno r) ⟨hb.1, hb.2, hb.3⟩ hi.clearErrno
      (by simpa [clearErrno] using hh) h0 hmin (by simp [clearErrno]; omega)).of_clearErrno le_rfl

end Read

/-- The invariant of every reachable state: `Bounds`, and `Inv` while healthy. -/
structure Good (r : IStreamReader) : Prop where
  bounds : Bounds r
  inv : r.healthy = true → Inv r

section Seek

variable (b : Behaviour) {r : IStreamReader}

/-- What `SeekBehindBuffer(new_pos)` leaves behind from a state that keeps the invariant. -/
structure SeekPost (r : IStreamReader) (newPos : Nat) (p : Bool × IStreamReader) : Prop where
  later : Later r p.2
  good : Good p.2
  reached : p.1 = true → p.2.limitPos = newPos ∧ p.2.src.pos = newPos
  ended : p.1 = false → p.2.healthy = true →
    r.src.data.length < newPos ∧ p.2.limitPos = r.src.data.length ∧ p.2.src.pos = r.src.data.length

/-- What `SizeImpl()` leaves behind from a state that keeps the invariant. -/
structure SizePost (r : IStreamReader) (p : Option Nat × IStreamReader) : Prop where
  later : Later r p.2
  good : Good p.2
  exact : ∀ size, p.1 = some size →
    size = r.src.data.length ∧ p.2.limitPos = r.limitPos ∧ p.2.src.pos = r.src.pos

theorem later_failOperation (operation : String) : Later r (failOperation operation r) :=
  ⟨rfl, rfl, by simp [failOperation], by simp [failOperation]⟩

theorem SeekPost.of_later {r₁ : IStreamReader} {newPos : Nat} {p : Bool × IStreamReader}
    (hl : Later r r₁) (h : SeekPost r₁ newPos p) : SeekPost r newPos p :=
  ⟨hl.trans h.later, h.good, h.reached, fun h1 h2 => by rw [← hl.data]; exact h.ended h1 h2⟩

theorem SeekPost.failOperation {r₁ : IStreamReader} {newPos : Nat} (hl : Later r r₁) (hb : Bounds r₁)
    (operation : String) : SeekPost r newPos (false, failOperation operation r₁) :=
  ⟨hl.trans (later_failOperation operation), ⟨hb.failOperation _, by simp⟩, by simp, by simp⟩

theorem SizePost.failOperation {r₁ : IStreamReader} (hl : Later r r₁) (hb : Bounds r₁)
    (operation : String) : SizePost r (none, failOperation operation r₁) :=
  ⟨hl.trans (later_failOperation operation), ⟨hb.failOperation _, by simp⟩, by simp⟩

theorem seekAbsolute_post {newPos : Nat} (hb : Bounds r) (hgood : r.src.good = true)
    (hs : ∀ n, r.size = some n → n = r.src.data.length) (hgr : r.growingSource = true → r.size = none)
    (hp : newPos ≤ maxStreamOff) : SeekPost r newPos (seekAbsolute b newPos r) := by
  obtain ⟨hf, hbb, he⟩ := IStream.good_eq_true.mp hgood
  have hc : (r.castFault || decide (maxStreamOff < newPos)) = false := by simp [hb.castFault, hp]
  unfold seekAbsolute seekgTo
  simp only
  split_ifs with h1
  · refine .failOperation ?_ ?_ _
    exacts [⟨by simp, rfl, id, id⟩, ⟨hb.1, hb.2, hc⟩]
  · simp only [IStream.fail, Bool.or_eq_true, not_or, Bool.not_eq_true] at h1
    have hok := IStream.seekg_ok h1.1
    exact ⟨⟨by simp, rfl, id, id⟩, ⟨⟨hp, hb.2, hc⟩, fun _ => ⟨hok.2.1, by simpa using hok.2.2,
      by simpa using hs, hgr, by simp [IStream.good_eq_true, h1.1, hbb]⟩⟩, fun _ => ⟨rfl, hok.2.1⟩, by simp⟩

theorem seekBehindBuffer_post {newPos : Nat} (hg : Good r) :
    SeekPost r newPos (seekBehindBuffer b newPos r) := by
  have hsb := hg.bounds.supportsRandomAccess b
  have hl := later_supportsRandomAccess b (r := r)
  have hpost : r.healthy = true → ProbePost r (supportsRandomAccess b r) :=
    fun hh => supportsRandomAccess_post b (hg.inv hh) hh
  unfold seekBehindBuffer
  simp only
  generalize supportsRandomAccess b r = p at *
  obtain ⟨sup, r₁⟩ := p
  dsimp only at *
  have hinv₁ : r₁.healthy = true → Inv r₁ := fun h₁ => (hpost (hl.healthy h₁)).inv h₁
  by_cases hs₁ : (!sup) = true
  · rw [if_pos hs₁]
    simp only [bufferedReaderSeekBehindBuffer]
    exact ⟨hl.trans ⟨rfl, rfl, by simp, by simp⟩, ⟨hsb.fail _, by simp⟩, by simp, by simp⟩
  rw [if_neg hs₁]
  by_cases hu : (!r₁.healthy) = true
  · rw [if_pos hu]
    exact ⟨hl, ⟨hsb, hinv₁⟩, by simp, fun _ h => by simp [h] at hu⟩
  rw [if_neg hu]
  have i₁ := hinv₁ (by simpa using hu)
  have hb₂ : Bounds (clearErrno r₁) := ⟨hsb.1, hsb.2, hsb.3⟩
  have hl₂ : Later r (clearErrno r₁) := hl.trans ⟨rfl, rfl, id, id⟩
  have i₂ := i₁.clearErrno
  generalize clearErrno r₁ = r₂ at *
  have hg₂ := IStream.good_eq_true.mp i₂.good
  refine SeekPost.of_later hl₂ ?_
  by_cases hlim : r₂.limitPos < newPos
  · rw [if_pos hlim]
    split
    · rename_i size hsize
      have hsz := hb₂.size_le size hsize
      have hsd := i₂.size_eq size hsize
      split_ifs with hlt h1
      · refine .failOperation ?_ ?_ _
        exacts [⟨by simp [seekgTo], rfl, id, id⟩, ⟨hb₂.1, hb₂.2, by simp [seekgTo, hb₂.3, hsz]⟩]
      · simp only [seekgTo, IStream.fail, Bool.or_eq_true, not_or, Bool.not_eq_true] at h1
        have hok := IStream.seekg_ok h1.1
        refine ⟨⟨by simp [seekgTo], rfl, id, id⟩,
          ⟨⟨hsz, hb₂.2, by simp [seekgTo, hb₂.3, hsz]⟩, fun _ => ⟨hok.2.1, by simpa [seekgTo] using hok.2.2,
            by simpa [seekgTo] using i₂.size_eq, i₂.growing,
            by simp [seekgTo, IStream.good_eq_true, h1.1, hg₂.2.1]⟩⟩, by simp, fun _ _ => ?_⟩
        exact ⟨hsd ▸ hlt, hsd, by simpa [seekgTo, hsd] using hok.2.1⟩
      · exact seekAbsolute_post b hb₂ i₂.good i₂.size_eq i₂.growing (show newPos ≤ maxStreamOff by omega)
    · simp only [seekgEnd]
      split
      · refine .failOperation ?_ ?_ _
        exacts [⟨by simp, rfl, id, id⟩, ⟨hb₂.1, hb₂.2, hb₂.3⟩]
      rename_i h1
      split
      · refine .failOperation ?_ ?_ _
        exacts [⟨by simp, rfl, id, id⟩, ⟨hb₂.1, hb₂.2, hb₂.3⟩]
      rename_i h2
      obtain ⟨ht, hmax, hd₄, hpos, hgood⟩ := IStream.tellg_seekg_end (by simpa using h1) h2
      generalize (r₂.src.seekg b List.length).tellg b = q at *
      obtain ⟨t, s₄⟩ := q
      dsimp only at ht hd₄ hpos hgood ⊢
      subst ht
      simp only [Int.toNat_ofNat]
      have hb₃ : Bounds (foundSize r₂.src.data.length { r₂ with src := s₄ }) :=
        Bounds.foundSize (r := { r₂ with src := s₄ }) ⟨hb₂.1, hb₂.2, hb₂.3⟩ hmax
      have hl₃ : Later r₂ (foundSize r₂.src.data.length { r₂ with src := s₄ }) :=
        ⟨by simp [foundSize, hd₄], rfl, id, id⟩
      have hs₃ := size_foundSize_eq (r := { r₂ with src := s₄ }) i₂.size_eq
      have hgr₃ := growing_foundSize (n := r₂.src.data.length) (r := { r₂ with src := s₄ }) i₂.growing
      split
      · rename_i hlt
        exact ⟨⟨by simp [foundSize, hd₄], rfl, id, id⟩, ⟨⟨hmax, hb₃.2, hb₃.3⟩, fun _ =>
          ⟨by simp [foundSize, hpos], by simp [foundSize, hd₄], by simpa [foundSize, hd₄] using hs₃, hgr₃,
            by simpa [foundSize] using hgood⟩⟩, by simp, fun _ _ => ⟨hlt, rfl, by simp [foundSize, hpos]⟩⟩
      · exact (seekAbsolute_post b hb₃ (by simpa [foundSize] using hgood)
          (by simpa [foundSize, hd₄] using hs₃) hgr₃ (show newPos ≤ maxStreamOff by omega)).of_later hl₃
  · rw [if_neg hlim]
    have hle : newPos ≤ maxStreamOff := by have := hb₂.1; omega
    exact seekAbsolute_post b hb₂ i₂.good i₂.size_eq i₂.growing hle

theorem seekBehindBuffer_good {newPos : Nat} (hg : Good r) :
    Later r (seekBehindBuffer b newPos r).2 ∧ Good (seekBehindBuffer b newPos r).2 :=
  have h : SeekPost r newPos (seekBehindBuffer b newPos r) := seekBehindBuffer_post b hg
  ⟨h.later, h.good⟩

theorem sizeImpl_post (hg : Good r) : SizePost r (sizeImpl b r) := by
  have hsb := hg.bounds.supportsRandomAccess b
  have hl := later_supportsRandomAccess b (r := r)
  have hpost : r.healthy = true → ProbePost r (supportsRandomAccess b r) :=
    fun hh => supportsRandomAccess_post b (hg.inv hh) hh
  unfold sizeImpl
  simp only
  generalize supportsRandomAccess b r = p at *
  obtain ⟨sup, r₁⟩ := p
  dsimp only at *
  have hinv₁ : r₁.healthy = true → Inv r₁ := fun h₁ => (hpost (hl.healthy h₁)).inv h₁
  by_cases hs₁ : (!sup) = true
  · rw [if_pos hs₁]
    simp only [bufferedReaderSizeImpl]
    exact ⟨hl.trans ⟨rfl, rfl, by simp, by simp⟩, ⟨hsb.fail _, by simp⟩, by simp⟩
  rw [if_neg hs₁]
  by_cases hu : (!r₁.healthy) = true
  · rw [if_pos hu]
    exact ⟨hl, ⟨hsb, hinv₁⟩, by simp⟩
  rw [if_neg hu]
  have i₁ := hinv₁ (by simpa using hu)
  have hh := hl.healthy (by simpa using hu)
  have hlim : r₁.limitPos = r.limitPos := (hpost hh).limitPos
  have hsrc : r.src.pos = r.limitPos := (hg.inv hh).pos_eq
  split
  · rename_i size hsize
    refine ⟨hl, ⟨hsb, hinv₁⟩, fun s hs => ?_⟩
    cases hs
    exact ⟨by rw [i₁.size_eq size hsize, hl.data], hlim, by rw [i₁.pos_eq, hlim, hsrc]⟩
  have hb₂ : Bounds (clearErrno r₁) := ⟨hsb.1, hsb.2, hsb.3⟩
  have hl₂ : Later r (clearErrno r₁) := hl.trans ⟨rfl, rfl, id, id⟩
  have hlim₂ : (clearErrno r₁).limitPos = r.limitPos := hlim
  have i₂ := i₁.clearErrno
  generalize clearErrno r₁ = r₂ at *
  have hc : (r₂.castFault || decide (maxStreamOff < r₂.limitPos)) = false := by
    simp [hb₂.castFault, hb₂.limitPos_le]
  simp only [seekgEnd, seekgTo]
  split
  · refine .failOperation ?_ ?_ _
    exacts [hl₂.trans ⟨by simp, rfl, id, id⟩, ⟨hb₂.1, hb₂.2, hb₂.3⟩]
  rename_i h1
  split
  · refine .failOperation ?_ ?_ _
    exacts [hl₂.trans ⟨by simp, rfl, id, id⟩, ⟨hb₂.1, hb₂.2, hb₂.3⟩]
  rename_i h2
  obtain ⟨ht, hmax, hd₄, -, -⟩ := IStream.tellg_seekg_end (by simpa using h1) h2
  generalize (r₂.src.seekg b List.length).tellg b = q at *
  obtain ⟨t, s₄⟩ := q
  dsimp only at ht hd₄ ⊢
  subst ht
  simp only [Int.toNat_ofNat]
  have hd₅ := IStream.data_seekg (b := b) (s := s₄) (t := fun _ => r₂.limitPos)
  have he₅ := IStream.eofbit_seekg (b := b) (s := s₄) (t := fun _ => r₂.limitPos)
  split
  · refine .failOperation ?_ ?_ _
    exacts [hl₂.trans ⟨by simp [hd₄], rfl, id, id⟩, ⟨hb₂.1, hb₂.2, hc⟩]
  rename_i h3
  simp only [IStream.fail, Bool.or_eq_true, not_or, Bool.not_eq_true] at h3
  have hok := IStream.seekg_ok h3.1
  generalize IStream.seekg b (fun _ => r₂.limitPos) s₄ = s₅ at *
  have hb₅ : Bounds { r₂ with src := s₅, castFault := r₂.castFault || decide (maxStreamOff < r₂.limitPos) } :=
    ⟨hb₂.1, hb₂.2, hc⟩
  refine ⟨hl₂.trans ⟨by simp [foundSize, hd₅, hd₄], rfl, id, id⟩, ⟨hb₅.foundSize hmax, fun _ =>
    ⟨by simpa [foundSize] using hok.2.1, by simpa [foundSize, hd₅, hd₄] using i₂.pos_le, ?_,
      growing_foundSize i₂.growing, by simp [foundSize, IStream.good_eq_true, h3.1, h3.2, he₅]⟩⟩,
    fun s hs => ?_⟩
  · simpa [foundSize, hd₅, hd₄] using size_foundSize_eq (n := r₂.src.data.length)
      (r := { r₂ with src := s₅, castFault := r₂.castFault || decide (maxStreamOff < r₂.limitPos) }) i₂.size_eq
  · cases hs
    exact ⟨hl₂.data ▸ rfl, by simpa [foundSize] using hlim₂, by simp [foundSize, hok.2.1, hlim₂, hsrc]⟩

theorem sizeImpl_good (hg : Good r) : Later r (sizeImpl b r).2 ∧ Good (sizeImpl b r).2 :=
  have h := sizeImpl_post b hg
  ⟨h.later, h.good⟩

end Seek

section Runs

variable (b : Behaviour) {r : IStreamReader}

@[simp] theorem healthy_done : (done r).healthy = false := by
  unfold done bufferedReaderDone; dsimp only; split <;> rfl

theorem supportsRandomAccess_good (hg : Good r) : Good (supportsRandomAccess b r).2 := by
  refine ⟨hg.bounds.supportsRandomAccess b, fun hh => ?_⟩
  have hh₀ := (later_supportsRandomAccess b).healthy hh
  exact (supportsRandomAccess_post b (hg.inv hh₀) hh₀).inv hh

theorem done_good (hg : Good r) : Good (done r) := by
  refine ⟨?_, by simp⟩
  unfold done bufferedReaderDone; dsimp only
  split <;> exact ⟨hg.1.1, hg.1.2, hg.1.3⟩

theorem readInternal_good {minLength maxLength : Nat} (hg : Good r) (h0 : 0 < minLength)
    (hmin : minLength ≤ maxLength) (hh : r.healthy = true) : Good (readInternal b minLength maxLength r).2.2 :=
  have h := readInternal_post b hg.bounds (hg.inv hh) hh h0 hmin
  ⟨h.bounds, h.inv⟩

theorem initializeFrom_good {src : IStream} {growingSource : Bool} {assumedPos : Option Nat}
    (h : Counted b src assumedPos) : Good (initializeFrom b src growingSource assumedPos) := by
  unfold initializeFrom opened
  dsimp only
  split
  · exact ⟨⟨by simp [failOperation, maxStreamOff], by simp [failOperation], rfl⟩, by simp⟩
  rename_i hf
  simp only [IStream.fail, Bool.or_eq_true, not_or, Bool.not_eq_true] at hf
  have hgood : ({ src with eofbit := false } : IStream).good = true := by
    simp [IStream.good, hf.1, hf.2]
  split
  · rename_i p
    split
    · exact ⟨⟨by simp [failOverflow, maxStreamOff], by simp [failOverflow], rfl⟩, by simp⟩
    · rename_i hp
      exact ⟨⟨by dsimp only; omega, by simp, rfl⟩, fun _ =>
        ⟨(h.assumed p rfl).symm, h.assumed p rfl ▸ h.pos_le, by simp, by simp, hgood⟩⟩
  · split
    · rename_i ht
      exact ⟨⟨by simp [maxStreamOff], by simp, rfl⟩, fun _ =>
        ⟨by simpa using h.untold rfl (by simpa using ht), by simp, by simp, by simp, by simpa using hgood⟩⟩
    · rename_i ht
      have hpos := IStream.tellg_nonneg (Int.not_lt.mp ht)
      simp only [IStream.tellg_fst_eofbit] at hpos ⊢
      exact ⟨⟨by simp; omega, by simp, rfl⟩, fun _ =>
        ⟨by simp; omega, by simp; have := h.pos_le; omega, by simp, by simp, by simpa using hgood⟩⟩

/-- Each call allowed from a state that keeps the invariant keeps it. -/
theorem step_good {op : Op} (hop : op.Allowed r) (hg : Good r) : Good (step b op r) := by
  cases op with
  | readInternal minLength maxLength => exact readInternal_good b hg hop.1 hop.2.1 hop.2.2
  | seekBehindBuffer newPos => exact (seekBehindBuffer_good b hg).2
  | sizeImpl => exact (sizeImpl_good b hg).2
  | supportsRandomAccess => exact supportsRandomAccess_good b hg
  | done => exact done_good hg

theorem reachable_good (hr : Reachable b r) : Good r := by
  induction hr with
  | init h => exact initializeFrom_good b h
  | step op _ hop ih => exact step_good b hop ih

/-- A stream over `"riegeli"` from its start, whose `readsome()` hands out two bytes at a time
and whose every other call works. -/
def sampleBehaviour : Behaviour := ⟨true, fun _ => 2, fun _ => none, fun _ => false, fun _ => false⟩

def sampleStream : IStream := ⟨['r', 'i', 'e', 'g', 'e', 'l', 'i'], 0, false, false, false, 0, 0⟩

/-- The reader right after `Initialize(src)`, which finds its position with `tellg()`. -/
def sampleOpened : IStreamReader := initializeFrom sampleBehaviour sampleStream false none

theorem reachable_sampleOpened : Reachable sampleBehaviour sampleOpened :=
  .init ⟨by decide, by simp, fun _ _ => rfl⟩

/-- In every reachable state every `IntCast<std::streamoff>` so far was in range and
`limit_pos()` is too; while `ok()`, the stream's next byte is the one at `limit_pos()`, and
`size_` is unknown or the length of the data, and unknown for a growing source. -/
theorem reachable_ok_state (hr : Reachable b r) :
    r.castFault = false ∧ r.limitPos ≤ maxStreamOff ∧
      (r.healthy = true → r.src.pos = r.limitPos ∧ r.limitPos ≤ r.src.data.length ∧
        (r.size = none ∨ r.size = some r.src.data.length) ∧ (r.growingSource = true → r.size = none)) := by
  have hg := reachable_good b hr
  refine ⟨hg.bounds.castFault, hg.bounds.limitPos_le, fun hh => ?_⟩
  have i := hg.inv hh
  refine ⟨i.pos_eq, i.pos_le, ?_, i.growing⟩
  cases hs : r.size with
  | none => exact .inl rfl
  | some n => exact .inr (by rw [i.size_eq n hs])

/-- `sampleOpened` after `ReadInternal(2, 4)`. -/
def sampleRead : IStreamReader := step sampleBehaviour (.readInternal 2 4) sampleOpened

theorem reachable_ok_state_read :
    Reachable sampleBehaviour sampleRead ∧ sampleRead.castFault = false ∧
      sampleRead.limitPos ≤ maxStreamOff ∧
      (sampleRead.healthy = true → sampleRead.src.pos = sampleRead.limitPos ∧
        sampleRead.limitPos ≤ sampleRead.src.data.length ∧
        (sampleRead.size = none ∨ sampleRead.size = some sampleRead.src.data.length) ∧
        (sampleRead.growingSource = true → sampleRead.size = none)) :=
  have hr : Reachable sampleBehaviour sampleRead := .step _ reachable_sampleOpened ⟨by decide, by decide, rfl⟩
  ⟨hr, reachable_ok_state sampleBehaviour hr⟩

/-- From a state that keeps the invariant and is `ok()`, `ReadInternal()` stores at `dest` at
most `max_length` bytes, exactly the next ones of the data, and moves `limit_pos()` over them,
within range; it succeeds only with `min_length` bytes, and fails while `ok()` only at the end
of the data, whose length it then records as the size of a source that does not grow. -/
theorem readInternal_delivers {minLength maxLength : Nat} (hg : Good r) (hh : r.healthy = true)
    (h0 : 0 < minLength) (hmin : minLength ≤ maxLength) :
    let (result, dest, r') := readInternal b minLength maxLength r
    dest.length ≤ maxLength ∧ dest = slice r.src.data r.limitPos (r.limitPos + dest.length) ∧
      r'.limitPos = r.limitPos + dest.length ∧ r'.limitPos ≤ maxStreamOff ∧
      (result = true → minLength ≤ dest.length) ∧
      (result = false → r'.healthy = true →
        r'.limitPos = r.src.data.length ∧ (r.growingSource = false → r'.size = some r.src.data.length)) := by
  have h := readInternal_post b hg.bounds (hg.inv hh) hh h0 hmin
  generalize readInternal b minLength maxLength r = p at h ⊢
  obtain ⟨result, dest, r'⟩ := p
  exact ⟨h.length_le, h.bytes_eq, h.limitPos, h.bounds.limitPos_le, h.result, fun h1 h2 => h.exhausted h2 h1⟩

theorem readInternal_delivers_sample :
    Good sampleOpened ∧ sampleOpened.healthy = true ∧ 0 < 2 ∧ 2 ≤ 4 ∧
      let (result, dest, r') := readInternal sampleBehaviour 2 4 sampleOpened
      dest.length ≤ 4 ∧
        dest = slice sampleOpened.src.data sampleOpened.limitPos (sampleOpened.limitPos + dest.length) ∧
        r'.limitPos = sampleOpened.limitPos + dest.length ∧ r'.limitPos ≤ maxStreamOff ∧
        (result = true → 2 ≤ dest.length) ∧
        (result = false → r'.healthy = true → r'.limitPos = sampleOpened.src.data.length ∧
          (sampleOpened.growingSource = false → r'.size = some sampleOpened.src.data.length)) :=
  have hg := reachable_good sampleBehaviour reachable_sampleOpened
  ⟨hg, rfl, by decide, by decide, readInternal_delivers sampleBehaviour hg rfl (by decide) (by decide)⟩

/-- From a state that keeps the invariant, whether `size_` is known, found on the way by the
probe of `supports_random_access()`, or never cached for a growing source: a successful
`SeekBehindBuffer(new_pos)` stands at `new_pos`, and a failed one that stays `ok()` was given
a `new_pos` past the end of the data and stands at that end; a size `SizeImpl()` answers is
the length of the data, with `limit_pos()` and the stream where they were. -/
theorem seekBehindBuffer_sizeImpl_exact (hg : Good r) (newPos : Nat) :
    ((seekBehindBuffer b newPos r).1 = true →
        (seekBehindBuffer b newPos r).2.limitPos = newPos ∧ (seekBehindBuffer b newPos r).2.src.pos = newPos) ∧
      ((seekBehindBuffer b newPos r).1 = false → (seekBehindBuffer b newPos r).2.healthy = true →
        r.src.data.length < newPos ∧ (seekBehindBuffer b newPos r).2.limitPos = r.src.data.length ∧
          (seekBehindBuffer b newPos r).2.src.pos = r.src.data.length) ∧
      ∀ size, (sizeImpl b r).1 = some size →
        size = r.src.data.length ∧ (sizeImpl b r).2.limitPos = r.limitPos ∧ (sizeImpl b r).2.src.pos = r.src.pos :=
  have h : SeekPost r newPos (seekBehindBuffer b newPos r) := seekBehindBuffer_post b hg
  ⟨h.reached, h.ended, (sizeImpl_post b hg).exact⟩

theorem seekBehindBuffer_sizeImpl_exact_past_end :
    Good sampleOpened ∧
      ((seekBehindBuffer sampleBehaviour 10 sampleOpened).1 = true →
        (seekBehindBuffer sampleBehaviour 10 sampleOpened).2.limitPos = 10 ∧
          (seekBehindBuffer sampleBehaviour 10 sampleOpened).2.src.pos = 10) ∧
      ((seekBehindBuffer sampleBehaviour 10 sampleOpened).1 = false →
        (seekBehindBuffer sampleBehaviour 10 sampleOpened).2.healthy = true →
        sampleOpened.src.data.length < 10 ∧
          (seekBehindBuffer sampleBehaviour 10 sampleOpened).2.limitPos = sampleOpened.src.data.length ∧
          (seekBehindBuffer sampleBehaviour 10 sampleOpened).2.src.pos = sampleOpened.src.data.length) ∧
      ∀ size, (sizeImpl sampleBehaviour sampleOpened).1 = some size →
        size = sampleOpened.src.data.length ∧
          (sizeImpl sampleBehaviour sampleOpened).2.limitPos = sampleOpened.limitPos ∧
          (sizeImpl sampleBehaviour sampleOpened).2.src.pos = sampleOpened.src.pos :=
  have hg := reachable_good sampleBehaviour reachable_sampleOpened
  ⟨hg, seekBehindBuffer_sizeImpl_exact sampleBehaviour hg 10⟩

end Runs

section Closed

variable (b : Behaviour) {r r' : IStreamReader}

/-- Closed, with `supports_random_access_` resolved, so that nothing is left to probe. -/
structure Closed (r : IStreamReader) : Prop where
  isOpen : r.isOpen = false
  resolved : r.randomAccess ≠ .kUnknown

theorem closed_done (r : IStreamReader) : Closed (done r) := by
  unfold done bufferedReaderDone
  dsimp only
  split
  · exact ⟨rfl, nofun⟩
  · exact ⟨rfl, ‹_›⟩

theorem src_done (r : IStreamReader) : (done r).src = r.src := by
  unfold done bufferedReaderDone; dsimp only; split <;> rfl

theorem Closed.healthy (h : Closed r) : r.healthy = false := by simp [IStreamReader.healthy, h.isOpen]

theorem Closed.supportsRandomAccess (h : Closed r) :
    ∃ s, IStreamReader.supportsRandomAccess b r = (s, r) := by
  unfold IStreamReader.supportsRandomAccess
  cases hr : r.randomAccess
  · exact ⟨false, rfl⟩
  · exact ⟨true, rfl⟩
  · exact absurd hr h.resolved

theorem Closed.fail (h : Closed r) (status : Status) : Closed (fail status r) := ⟨h.isOpen, h.resolved⟩

/-- A call allowed on a closed reader leaves it closed and makes no call on the stream. -/
theorem Closed.step {op : Op} (h : Closed r) (hop : op.Allowed r) :
    Closed (step b op r) ∧ (step b op r).src = r.src := by
  cases op with
  | readInternal => exact absurd hop.2.2 (by simp [h.healthy])
  | seekBehindBuffer newPos =>
    obtain ⟨s, hs⟩ := h.supportsRandomAccess b
    cases s <;> simp only [IStreamReader.step, seekBehindBuffer, hs, Bool.not_false, Bool.not_true,
      h.healthy, bufferedReaderSeekBehindBuffer, if_true, if_false, Bool.false_eq_true] <;>
      first | exact ⟨h.fail _, rfl⟩ | exact ⟨h, trivial⟩
  | sizeImpl =>
    obtain ⟨s, hs⟩ := h.supportsRandomAccess b
    cases s <;> simp only [IStreamReader.step, sizeImpl, hs, Bool.not_false, Bool.not_true,
      h.healthy, bufferedReaderSizeImpl, if_true, if_false, Bool.false_eq_true] <;>
      first | exact ⟨h.fail _, rfl⟩ | exact ⟨h, trivial⟩
  | supportsRandomAccess =>
    obtain ⟨s, hs⟩ := h.supportsRandomAccess b
    simp only [IStreamReader.step, hs]
    exact ⟨h, trivial⟩
  | done => exact ⟨closed_done r, src_done r⟩

/-- The states that runs of allowed calls reach from `r`. -/
inductive Follows (r : IStreamReader) : IStreamReader → Prop
  | refl : Follows r r
  | step {r' : IStreamReader} (op : Op) (h : Follows r r') (hop : op.Allowed r') :
      Follows r (step b op r')

/-- `Done()` resolves `supports_random_access_` so that nothing later "might access a closed
stream": after it, no run of the calls `BufferedReader` makes touches the istream, whose state,
position and count of calls stay as they were, and the reader stays closed. -/
theorem done_stream_untouched (hf : Follows b (done r) r') : r'.src = r.src ∧ r'.healthy = false := by
  suffices h : Closed r' ∧ r'.src = r.src from ⟨h.2, h.1.healthy⟩
  induction hf with
  | refl => exact ⟨closed_done r, src_done r⟩
  | step op _ hop ih =>
    obtain ⟨hc, hs⟩ := ih.1.step b hop
    exact ⟨hc, hs.trans ih.2⟩

theorem done_stream_untouched_probe :
    Follows sampleBehaviour (done sampleOpened)
        (step sampleBehaviour (.seekBehindBuffer 3) (step sampleBehaviour .sizeImpl (done sampleOpened))) ∧
      (step sampleBehaviour (.seekBehindBuffer 3) (step sampleBehaviour .sizeImpl (done sampleOpened))).src =
        sampleOpened.src ∧
      (step sampleBehaviour (.seekBehindBuffer 3) (step sampleBehaviour .sizeImpl (done sampleOpened))).healthy =
        false :=
  have hf : Follows sampleBehaviour (done sampleOpened)
      (step sampleBehaviour (.seekBehindBuffer 3) (step sampleBehaviour .sizeImpl (done sampleOpened))) :=
    .step _ (.step _ .refl trivial) (by decide)
  ⟨hf, done_stream_untouched sampleBehaviour hf⟩

end Closed

end IStreamReader
end Riegeli
