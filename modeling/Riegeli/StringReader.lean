import Riegeli.Base

/-!
# `StringReader`: the buffer is the string, wherever the string moves

`StringReader(src)` points its buffer at the whole string that `src` provides. Moving a
`StringReader` moves its `Src`, whose bytes move with it when `Src` is not stable (a
`std::string` keeps short contents inside the object); `MoveSrc()` then rebases the pointers on
the new storage, keeping the cursor's index. Addresses are `Nat`, `0` standing for `nullptr`.
Reading is the `Reader` fast path, modelled from the spec. Over every interleaving of reads and
moves the reader reads its string once, in order.
-/

namespace Riegeli

/-- What `Dependency<absl::string_view, Src>::ptr()` gives; only an empty string may be null. -/
structure StringReader.Src where
  data : Nat
  contents : List Char
  null_empty : data = 0 → contents = []

/-- The `Reader` state of a `StringReader` (buffer pointers and `limit_pos()`), and its `src_`. -/
structure StringReader where
  start : Nat
  cursor : Nat
  limit : Nat
  limitPos : Nat
  src : StringReader.Src

namespace StringReader

def available (r : StringReader) : Nat := r.limit - r.cursor
def pos (r : StringReader) : Nat := r.limitPos - r.available
def readFromBuffer (r : StringReader) : Nat := r.cursor - r.start

/-- The bytes `[cursor, limit)`, as stored where `src_` keeps the string. -/
def view (r : StringReader) : List Char :=
  slice r.src.contents (r.cursor - r.src.data) (r.limit - r.src.data)

/-- `StringReader(Src src)`. -/
def ofSrc (src : Src) : StringReader :=
  { start := src.data, cursor := src.data, limit := src.data + src.contents.length,
    limitPos := src.contents.length, src := src }

/-- `MoveSrc(std::move(that))` after the `Reader` base took the pointers of `that`; `moved` is the
moved `src_`, and `isStable` is `src_.kIsStable()`. -/
def moveSrc (isStable : Bool) (moved : Src) (r : StringReader) : StringReader :=
  if isStable then { r with src := moved }
  else
    let cursorIndex := r.readFromBuffer
    let r := { r with src := moved }
    if r.start ≠ 0 then
      { r with start := moved.data, cursor := moved.data + cursorIndex,
               limit := moved.data + moved.contents.length }
    else r

@[simp] theorem src_moveSrc (isStable : Bool) (moved : Src) (r : StringReader) :
    (r.moveSrc isStable moved).src = moved := by
  unfold moveSrc; dsimp only; split_ifs <;> rfl

/-- Modelled from the spec: `Read(length, dest)` copies the next `length` bytes from `cursor`, or
all there are, and succeeds when there were `length`. -/
def read (length : Nat) (r : StringReader) : Bool × List Char × StringReader :=
  (decide (length ≤ r.available), r.view.take length,
    { r with cursor := r.cursor + min length r.available })

/-- What moving the `Dependency` gives: the same bytes, at the same address when `Src` is stable. -/
structure Moved (isStable : Bool) (src moved : Src) : Prop where
  contents : moved.contents = src.contents
  stable : isStable = true → moved.data = src.data

/-- The pointers are null, or the buffer is the whole string with the cursor in it. -/
def WholeString (r : StringReader) : Prop :=
  (r.start = 0 ∧ r.cursor = 0 ∧ r.limit = 0) ∨
    (r.start = r.src.data ∧ r.start ≤ r.cursor ∧ r.cursor ≤ r.limit ∧
      r.limit = r.src.data + r.src.contents.length ∧ r.limitPos = r.src.contents.length)

section WholeString

variable {r : StringReader}

theorem wholeString_ofSrc (src : Src) : WholeString (ofSrc src) :=
  .inr ⟨rfl, le_refl _, Nat.le_add_right _ _, rfl, rfl⟩

theorem WholeString.length_view (h : WholeString r) : r.view.length = r.available := by
  rcases h with ⟨-, hc, hl⟩ | ⟨hs, hsc, hc, hl, -⟩
  · simp [view, available, hc, hl]
  · simp only [view, available, length_slice]; omega

theorem WholeString.read (h : WholeString r) (length : Nat) : WholeString (r.read length).2.2 := by
  rcases h with ⟨hs, hc, hl⟩ | ⟨hs, hsc, hcl, hl, hp⟩
  · exact .inl ⟨hs, by simp [StringReader.read, available, hc, hl], hl⟩
  · refine .inr ⟨hs, ?_, ?_, hl, hp⟩ <;> simp only [StringReader.read, available] <;> omega

theorem WholeString.view_read (h : WholeString r) (length : Nat) :
    (r.read length).2.1 ++ (r.read length).2.2.view = r.view := by
  have hv := h.length_view
  have hk : (r.read length).2.2.view = r.view.drop (min length r.available) := by
    rcases h with ⟨-, hc, hl⟩ | ⟨hs, hsc, -, -, -⟩
    · simp [StringReader.read, view, available, hc, hl]
    · simp only [StringReader.read, view, drop_slice]
      congr 1; omega
  have ht : r.view.take length = r.view.take (min length r.available) :=
    List.take_eq_take.mpr (by rw [hv]; omega)
  rw [hk, show (r.read length).2.1 = r.view.take length from rfl, ht, List.take_append_drop]

theorem WholeString.available_le (h : WholeString r) : r.available ≤ r.limitPos := by
  unfold available
  rcases h with ⟨-, hc, hl⟩ | ⟨hs, hsc, -, hl, hp⟩ <;> omega

theorem WholeString.pos_read (h : WholeString r) (length : Nat) :
    (r.read length).2.2.pos = r.pos + (r.read length).2.1.length := by
  simp only [StringReader.read, pos, available, List.length_take, h.length_view, Nat.sub_add_eq]
  have key : ∀ a b c : Nat, b ≤ a → c ≤ b → a - (b - c) = a - b + c := by omega
  exact key _ _ _ h.available_le (min_le_right _ _)

/-- `MoveSrc()` keeps the position and the bytes of the view, read from the moved storage. -/
theorem WholeString.moveSrc {isStable : Bool} {moved : Src} (h : WholeString r)
    (hm : Moved isStable r.src moved) :
    WholeString (r.moveSrc isStable moved) ∧ (r.moveSrc isStable moved).pos = r.pos ∧
      (r.moveSrc isStable moved).view = r.view := by
  obtain ⟨hc, hst⟩ := hm
  cases isStable with
  | true =>
    have hd := hst rfl
    refine ⟨?_, rfl, by simp only [StringReader.moveSrc, if_true, view, hc, hd]⟩
    simpa only [WholeString, StringReader.moveSrc, if_true, hc, hd] using h
  | false =>
    by_cases h0 : r.start = 0
    · have hnull : r.cursor = 0 ∧ r.limit = 0 := by
        rcases h with ⟨-, hc', hl⟩ | ⟨hs, hsc, hcl, hl, -⟩
        · exact ⟨hc', hl⟩
        · simp only [r.src.null_empty (hs ▸ h0), List.length_nil] at hl; omega
      simp only [StringReader.moveSrc, readFromBuffer, Bool.false_eq_true, if_false, ne_eq,
        h0, not_true_eq_false]
      exact ⟨.inl ⟨rfl, hnull⟩, rfl, by simp [view, hnull]⟩
    · rcases h with ⟨hs, -, -⟩ | ⟨hs, hsc, hcl, hl, hp⟩
      · exact absurd hs h0
      have hx : r.limit - r.cursor = r.src.contents.length - (r.cursor - r.start) := by omega
      simp only [StringReader.moveSrc, readFromBuffer, Bool.false_eq_true, if_false, ne_eq, h0,
        not_false_eq_true, if_true]
      refine ⟨.inr ⟨rfl, Nat.le_add_right _ _, Nat.add_le_add_left (by rw [hc]; omega) _, rfl, hc ▸ hp⟩,
        by simp only [pos, available, hc, Nat.add_sub_add_left, hx], ?_⟩
      simp only [view, hc, Nat.add_sub_cancel_left, hs, hl]

end WholeString

/-- The bytes read from `src`, and the reader, after the constructor and any reads and moves. -/
inductive Reachable (src : Src) : List Char → StringReader → Prop
  | init : Reachable src [] (ofSrc src)
  | read {delivered : List Char} {r : StringReader} (length : Nat) (hr : Reachable src delivered r) :
      Reachable src (delivered ++ (r.read length).2.1) (r.read length).2.2
  | move {delivered : List Char} {r : StringReader} {isStable : Bool} {moved : Src}
      (hr : Reachable src delivered r) (hm : Moved isStable r.src moved) :
      Reachable src delivered (r.moveSrc isStable moved)

/-- A `StringReader` reads its string once and in order, however often it is moved and wherever
the moves carry its bytes: what was read followed by the view is the string, and the position is
the number of bytes read. -/
theorem reachable_reads_string {src : Src} {delivered : List Char} {r : StringReader}
    (hr : Reachable src delivered r) :
    WholeString r ∧ r.src.contents = src.contents ∧ delivered ++ r.view = src.contents ∧
      r.pos = delivered.length := by
  induction hr with
  | init =>
    refine ⟨wholeString_ofSrc src, rfl, ?_, ?_⟩
    · simp [ofSrc, view, slice]
    · simp [ofSrc, pos, available]
  | read length _ ih =>
    obtain ⟨hw, hc, hv, hp⟩ := ih
    refine ⟨hw.read length, hc, ?_, ?_⟩
    · rw [List.append_assoc, hw.view_read]; exact hv
    · rw [hw.pos_read, hp, List.length_append]
  | move _ hm ih =>
    obtain ⟨hw, hc, hv, hp⟩ := ih
    obtain ⟨hw', hp', hv'⟩ := hw.moveSrc hm
    exact ⟨hw', by rw [src_moveSrc, hm.contents, hc], hv' ▸ hv, hp' ▸ hp⟩

/-- `"abc"` at address 16, read one byte, moved as a `std::string` to address 32. -/
def sampleSrc : Src := ⟨16, "abc".toList, by decide⟩

def sampleMoved : Src := ⟨32, "abc".toList, by decide⟩

theorem reachable_reads_string_moved :
    ∃ delivered r, Reachable sampleSrc delivered r ∧ r.src.data = 32 ∧ delivered = "abc".toList ∧
      WholeString r ∧ r.src.contents = sampleSrc.contents ∧ delivered ++ r.view = sampleSrc.contents ∧
        r.pos = delivered.length :=
  have hm : Moved false ((ofSrc sampleSrc).read 1).2.2.src sampleMoved := ⟨rfl, fun h => by cases h⟩
  have hr := Reachable.read 5 (.move (.read 1 .init) hm)
  ⟨_, _, hr, rfl, rfl, reachable_reads_string hr⟩

end StringReader

end Riegeli
