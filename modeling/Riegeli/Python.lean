import Mathlib.Data.List.Basic

/-!
# `PythonWrapped<T>` and the statics of `utils.h` allocated on first use

`PythonWrapped<T>` embeds a C++ object in a Python object that `PyType_GenericAlloc()` fills
with zero bytes. Beside its field `has_value_`, the model keeps the C++ object model of
`storage_` as ghost state: the object living there, the log of constructions and
destructions, and a flag raised by an operation the object model leaves undefined. Its purpose
is `optional<T>`, and over every sequence of operations from zero bytes it is one.

`Identifier`, `ImportedConstant` and `ImportedCapsule` hold a pointer allocated on the first
`Verify()` or `get()` that finds it null. What an allocation does is not under src/: each call
is resolved by the outcome the run supplies for it.
-/

namespace Riegeli
namespace Python

/-- A Python exception, as `PyErr_SetString(type, message)` raises it. -/
structure PyErr where
  type : String
  message : String
  deriving DecidableEq, Repr

inductive Lifetime (T : Type)
  | constructed (v : T)
  | destroyed (v : T)
  deriving DecidableEq, Repr

structure PythonWrapped (T : Type) where
  hasValue : Bool
  /-- Ghost: the object living in `storage_`. -/
  live : Option T
  lifetimes : List (Lifetime T)
  /-- Ghost: a destructor ran where no object lives, or an object was built over a live one. -/
  undefined : Bool
  deriving DecidableEq, Repr

namespace PythonWrapped

variable {T : Type}

/-- Storage filled with zero bytes: absent, and no object lives in it. -/
def zeroed : PythonWrapped T := ⟨false, none, [], false⟩

/-- `reinterpret_cast<T*>(storage_)->~T()`. -/
def destroyStorage (w : PythonWrapped T) : PythonWrapped T :=
  match w.live with
  | some v => { w with live := none, lifetimes := w.lifetimes ++ [.destroyed v] }
  | none => { w with undefined := true }

/-- `new (storage_) T(std::forward<Args>(args)...)`. -/
def constructStorage (v : T) (w : PythonWrapped T) : PythonWrapped T :=
  { w with live := some v, lifetimes := w.lifetimes ++ [.constructed v],
           undefined := w.undefined || w.live.isSome }

def emplace (v : T) (w : PythonWrapped T) : PythonWrapped T :=
  constructStorage v (if w.hasValue then destroyStorage w else { w with hasValue := true })

def reset (w : PythonWrapped T) : PythonWrapped T :=
  if w.hasValue then destroyStorage { w with hasValue := false } else w

/-- `get()`: after asserting `has_value_`, the object living in `storage_`, if any. -/
def get (w : PythonWrapped T) : Except String (Option T) :=
  if w.hasValue then .ok w.live else .error "Object uninitialized"

/-- `Verify()`: its result, and the exception it raises (`PyExc_ValueError`). -/
def verify (w : PythonWrapped T) : Bool × Option PyErr :=
  if !w.hasValue then (false, some ⟨"ValueError", "Object uninitialized"⟩) else (true, none)

inductive Op (T : Type)
  | emplace (v : T)
  | reset
  deriving DecidableEq, Repr

def step : Op T → PythonWrapped T → PythonWrapped T
  | .emplace v, w => emplace v w
  | .reset, w => reset w

def run : List (Op T) → PythonWrapped T → PythonWrapped T
  | [], w => w
  | op :: ops, w => run ops (step op w)

def emplaced : List (Op T) → List T
  | [] => []
  | .emplace v :: ops => v :: emplaced ops
  | .reset :: ops => emplaced ops

end PythonWrapped

/-- `optional<T>`, with the lifetimes of the values it held. -/
structure Optional (T : Type) where
  value : Option T
  lifetimes : List (Lifetime T)
  deriving DecidableEq, Repr

namespace Optional

variable {T : Type}

def empty : Optional T := ⟨none, []⟩

def closed (o : Optional T) : List (Lifetime T) := o.lifetimes ++ o.value.toList.map .destroyed

def step : PythonWrapped.Op T → Optional T → Optional T
  | .emplace v, o => ⟨some v, o.closed ++ [.constructed v]⟩
  | .reset, o => ⟨none, o.closed⟩

def run : List (PythonWrapped.Op T) → Optional T → Optional T
  | [], o => o
  | op :: ops, o => run ops (step op o)

theorem closed_run (ops : List (PythonWrapped.Op T)) (o : Optional T) :
    (run ops o).closed =
      o.closed ++ (PythonWrapped.emplaced ops).flatMap fun v => [.constructed v, .destroyed v] := by
  induction ops generalizing o with
  | nil => simp [run, PythonWrapped.emplaced]
  | cons op ops ih =>
    rw [run, ih]
    cases op <;> simp [step, closed, PythonWrapped.emplaced]

end Optional

namespace PythonWrapped

variable {T : Type}

/-- `w` is the `optional<T>` `o`, and nothing undefined has happened. -/
structure Refines (w : PythonWrapped T) (o : Optional T) : Prop where
  hasValue : w.hasValue = o.value.isSome
  live : w.live = o.value
  lifetimes : w.lifetimes = o.lifetimes
  defined : w.undefined = false

theorem refines_zeroed : Refines (zeroed : PythonWrapped T) .empty := ⟨rfl, rfl, rfl, rfl⟩

theorem Refines.step {w : PythonWrapped T} {o : Optional T} (h : Refines w o) (op : Op T) :
    Refines (step op w) (Optional.step op o) := by
  obtain ⟨hasValue, live, lifetimes, undefined⟩ := w
  obtain ⟨_ | v, log⟩ := o <;> obtain ⟨h₁, h₂, h₃, h₄⟩ := h <;> dsimp only at h₁ h₂ h₃ h₄ <;>
    subst h₁ h₂ h₃ h₄ <;> cases op <;>
    exact ⟨rfl, rfl, by simp [PythonWrapped.step, emplace, reset, destroyStorage, constructStorage,
      Optional.step, Optional.closed], rfl⟩

theorem Refines.run {w : PythonWrapped T} {o : Optional T} (h : Refines w o) (ops : List (Op T)) :
    Refines (run ops w) (Optional.run ops o) := by
  induction ops generalizing w o with
  | nil => exact h
  | cons op ops ih => exact ih (h.step op)

theorem Refines.get {w : PythonWrapped T} {o : Optional T} (h : Refines w o) :
    w.get = match o.value with
      | some v => .ok (some v)
      | none => .error "Object uninitialized" := by
  rw [PythonWrapped.get, h.hasValue, h.live]
  cases o.value <;> rfl

theorem Refines.verify {w : PythonWrapped T} {o : Optional T} (h : Refines w o) :
    w.verify = match o.value with
      | some _ => (true, none)
      | none => (false, some ⟨"ValueError", "Object uninitialized"⟩) := by
  rw [PythonWrapped.verify, h.hasValue]
  cases o.value <;> rfl

/-- From zero bytes, every sequence of `emplace()` and `reset()` leaves the `optional<T>` the
same sequence builds, with nothing undefined in `storage_` and `get()`, `Verify()` answering
from its value. -/
theorem run_refines_optional (ops : List (Op T)) :
    let w := run ops zeroed
    let o := Optional.run ops .empty
    Refines w o ∧
      w.get = (match o.value with
        | some v => .ok (some v)
        | none => .error "Object uninitialized") ∧
      w.verify = match o.value with
        | some _ => (true, none)
        | none => (false, some ⟨"ValueError", "Object uninitialized"⟩) :=
  have h := refines_zeroed.run ops
  ⟨h, h.get, h.verify⟩

/-- After the `reset()` of `tp_dealloc`, every object constructed in `storage_` has been
destroyed exactly once, before the next one was constructed. -/
theorem reset_run_lifetimes (ops : List (Op T)) :
    let w := reset (run ops zeroed)
    w.undefined = false ∧ w.hasValue = false ∧
      w.lifetimes = (emplaced ops).flatMap fun v => [.constructed v, .destroyed v] := by
  have h := (refines_zeroed.run ops).step .reset
  exact ⟨h.defined, h.hasValue,
    h.lifetimes.trans ((Optional.closed_run ops .empty).trans (List.nil_append _))⟩

end PythonWrapped

/-- What one call of `AllocateValue()` or `ImportValue()` does: fail with a message, or allocate. -/
inductive Allocation (V : Type)
  | failed (message : String)
  | allocated (value : V)
  deriving DecidableEq, Repr

/-- `value_` of a static object, and as ghost state how often `RegisterThis()` ran. -/
structure StaticValue (V : Type) where
  value : Option V
  registrations : Nat
  deriving DecidableEq, Repr

inductive Call (V : Type)
  | verify (a : Allocation V)
  | get (a : Allocation V)
  deriving DecidableEq, Repr

inductive Reply (V : Type)
  | verified (ok : Bool)
  | got (value : Option V)
  /-- `RIEGELI_CHECK` failed: the process dies with this message. -/
  | died (message : String)
  deriving DecidableEq, Repr

namespace StaticValue

variable {V : Type}

def fresh : StaticValue V := ⟨none, 0⟩

/-- Modelled from the spec and the declarations in `utils.h`, the bodies of `AllocateValue()`
and `ImportValue()` not being under src/: the value is stored or a failure stores nothing, and a
`StaticObject` (`registers`) calls `RegisterThis()` once it is stored. -/
def allocateValue (registers : Bool) (a : Allocation V) (s : StaticValue V) :
    Except String (StaticValue V) :=
  match a with
  | .failed message => .error message
  | .allocated v => .ok ⟨some v, if registers then s.registrations + 1 else s.registrations⟩

def verify (registers : Bool) (a : Allocation V) (s : StaticValue V) : Bool × StaticValue V :=
  if s.value.isNone then
    match allocateValue registers a s with
    | .ok s' => (true, s')
    | .error _ => (false, s)
  else (true, s)

def get (registers : Bool) (a : Allocation V) (s : StaticValue V) :
    Except String (Option V × StaticValue V) :=
  if s.value.isNone then (allocateValue registers a s).map fun s' => (s'.value, s')
  else .ok (s.value, s)

def run (registers : Bool) : List (Call V) → StaticValue V → List (Reply V) × StaticValue V
  | [], s => ([], s)
  | .verify a :: calls, s =>
    let rest := run registers calls (verify registers a s).2
    (.verified (verify registers a s).1 :: rest.1, rest.2)
  | .get a :: calls, s =>
    match get registers a s with
    | .error message => ([.died message], s)
    | .ok (value, s) =>
      let rest := run registers calls s
      (.got value :: rest.1, rest.2)

end StaticValue

variable {V : Type}

/-- `Identifier::Verify()`; an `Identifier` is a `StaticObject`. -/
def Identifier.verify (a : Allocation V) (s : StaticValue V) : Bool × StaticValue V :=
  StaticValue.verify true a s

def Identifier.get (a : Allocation V) (s : StaticValue V) : Except String (Option V × StaticValue V) :=
  StaticValue.get true a s

/-- `ImportedConstant::Verify()`; an `ImportedConstant` is a `StaticObject`. -/
def ImportedConstant.verify (a : Allocation V) (s : StaticValue V) : Bool × StaticValue V :=
  StaticValue.verify true a s

def ImportedConstant.get (a : Allocation V) (s : StaticValue V) :
    Except String (Option V × StaticValue V) :=
  StaticValue.get true a s

/-- `ImportedCapsuleBase::Verify()`, with `ImportValue()`; a capsule is not a `StaticObject`. -/
def ImportedCapsuleBase.verify (a : Allocation V) (s : StaticValue V) : Bool × StaticValue V :=
  StaticValue.verify false a s

/-- `ImportedCapsule<T>::get()`, with `ImportValue()`. -/
def ImportedCapsule.get (a : Allocation V) (s : StaticValue V) :
    Except String (Option V × StaticValue V) :=
  StaticValue.get false a s

namespace StaticValue

variable {registers : Bool}

def Call.answer (v : V) : Call V → Reply V
  | .verify _ => .verified true
  | .get _ => .got (some v)

theorem verify_of_value {s : StaticValue V} {v : V} (h : s.value = some v) (a : Allocation V) :
    verify registers a s = (true, s) := by
  simp [verify, h]

theorem get_of_value {s : StaticValue V} {v : V} (h : s.value = some v) (a : Allocation V) :
    get registers a s = .ok (some v, s) := by
  simp [get, h]

theorem run_of_value {s : StaticValue V} {v : V} (h : s.value = some v) (calls : List (Call V)) :
    run registers calls s = (calls.map (Call.answer v), s) := by
  induction calls with
  | nil => rfl
  | cons call calls ih =>
    cases call <;> simp [run, verify_of_value h, get_of_value h, ih, Call.answer]

theorem value_of_verify {s : StaticValue V} {a : Allocation V} (h : (verify registers a s).1 = true) :
    ∃ v, (verify registers a s).2.value = some v := by
  cases hs : s.value with
  | some v => exact ⟨v, by rw [verify_of_value hs]; exact hs⟩
  | none =>
    cases a with
    | failed message => simp [verify, hs, allocateValue] at h
    | allocated v => exact ⟨v, by simp [verify, hs, allocateValue]⟩

/-- "If `Verify()` returns true, `get()` does not die": after it, whatever the allocations would
do, every call answers from the value `Verify()` left in `value_`, changing nothing. -/
theorem verified_run_never_dies (registers : Bool) (a : Allocation V) (s : StaticValue V)
    (calls : List (Call V)) (h : (verify registers a s).1 = true) :
    ∃ v, (verify registers a s).2.value = some v ∧
      run registers calls (verify registers a s).2 =
        (calls.map (Call.answer v), (verify registers a s).2) :=
  let ⟨v, hv⟩ := value_of_verify h
  ⟨v, hv, run_of_value hv calls⟩

theorem verified_run_never_dies_failing :
    (verify true (.allocated 7) (fresh : StaticValue Nat)).1 = true ∧
      ∃ v, (verify true (.allocated 7) (fresh : StaticValue Nat)).2.value = some v ∧
        run true [.get (.failed "ImportError"), .verify (.failed "ImportError")]
            (verify true (.allocated 7) (fresh : StaticValue Nat)).2 =
          ([.get (.failed "ImportError"), .verify (.failed "ImportError")].map (Call.answer v),
            (verify true (.allocated 7) (fresh : StaticValue Nat)).2) :=
  ⟨rfl, verified_run_never_dies true (.allocated 7) fresh _ rfl⟩

/-- `RegisterThis()` has run once if `value_` is set, and never otherwise. -/
def Registered (registers : Bool) (s : StaticValue V) : Prop :=
  s.registrations = if registers && s.value.isSome then 1 else 0

theorem registered_fresh : Registered registers (fresh : StaticValue V) := by
  simp [Registered, fresh]

theorem registered_allocateValue {s s' : StaticValue V} {a : Allocation V} (hs : s.value = none)
    (hr : Registered registers s) (h : allocateValue registers a s = .ok s') :
    Registered registers s' ∧ s'.value.isSome := by
  cases a with
  | failed message => cases h
  | allocated v =>
    cases h
    cases registers <;> simp_all [Registered]

theorem registered_verify {s : StaticValue V} (hr : Registered registers s) (a : Allocation V) :
    Registered registers (verify registers a s).2 := by
  cases hs : s.value with
  | some v => rwa [verify_of_value hs]
  | none =>
    cases ha : allocateValue registers a s with
    | error message => simpa [verify, hs, ha] using hr
    | ok s' => simpa [verify, hs, ha] using (registered_allocateValue hs hr ha).1

theorem registered_get {s s' : StaticValue V} {a : Allocation V} {x : Option V}
    (hr : Registered registers s) (h : get registers a s = .ok (x, s')) :
    Registered registers s' ∧ ∃ v, x = some v ∧ s'.value = some v := by
  cases hs : s.value with
  | some v =>
    rw [get_of_value hs] at h
    cases h
    exact ⟨hr, v, rfl, hs⟩
  | none =>
    cases ha : allocateValue registers a s with
    | error message => simp [get, hs, ha, Except.map] at h
    | ok s₁ =>
      simp only [get, hs, Option.isNone_none, if_true, ha, Except.map, Except.ok.injEq,
        Prod.mk.injEq] at h
      obtain ⟨rfl, rfl⟩ := h
      obtain ⟨hr₁, hv⟩ := registered_allocateValue hs hr ha
      obtain ⟨v, hv⟩ := Option.isSome_iff_exists.mp hv
      exact ⟨hr₁, v, hv, hv⟩

theorem got_mem_map_answer {v : V} {x : Option V} {calls : List (Call V)}
    (h : Reply.got x ∈ calls.map (Call.answer v)) : x = some v := by
  obtain ⟨call, -, hc⟩ := List.mem_map.mp h
  cases call <;> simp_all [Call.answer]

theorem run_registered {s : StaticValue V} (hr : Registered registers s) (calls : List (Call V)) :
    Registered registers (run registers calls s).2 ∧
      ∀ x, .got x ∈ (run registers calls s).1 → x.isSome ∧ x = (run registers calls s).2.value := by
  induction calls generalizing s with
  | nil => exact ⟨hr, by simp [run]⟩
  | cons call calls ih =>
    cases call with
    | verify a =>
      obtain ⟨h₁, h₂⟩ := ih (registered_verify hr a)
      exact ⟨h₁, fun x hx => h₂ x (by simpa [run] using hx)⟩
    | get a =>
      cases hg : get registers a s with
      | error message => simpa [run, hg] using hr
      | ok r =>
        obtain ⟨x, s₁⟩ := r
        obtain ⟨hr₁, v, rfl, hv⟩ := registered_get hr hg
        simp only [run, hg, run_of_value hv, List.mem_cons, Reply.got.injEq]
        exact ⟨hr₁, fun y hy => by
          rcases hy with rfl | hy
          · exact ⟨rfl, hv.symm⟩
          · rw [got_mem_map_answer hy]; exact ⟨rfl, hv.symm⟩⟩

/-- Over every run of calls from a static object never used, `RegisterThis()` runs once exactly
when `value_` ends set, and every `get()` that returns gives the value `value_` keeps. -/
theorem run_registers_once (registers : Bool) (calls : List (Call V)) :
    let r := run registers calls fresh
    r.2.registrations = (if registers && r.2.value.isSome then 1 else 0) ∧
      ∀ x, .got x ∈ r.1 → x.isSome ∧ x = r.2.value :=
  run_registered registered_fresh calls

end StaticValue

end Python
end Riegeli
