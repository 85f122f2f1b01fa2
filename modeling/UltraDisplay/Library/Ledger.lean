import UltraDisplay.Library.Transition
import Mathlib.Data.Finset.Basic

/-! What a program holds. A resource is acquired while it is not held and used or
released while it is, so that a trace which does otherwise has no run. -/
namespace Ledger
open Transition
variable {R : Type*} [DecidableEq R]

inductive Entry (R : Type*) where
  | acquire (resource : R)
  | use (resource : R)
  | release (resource : R)
  deriving DecidableEq

def step (held : Finset R) : Entry R → Option (Finset R)
  | .acquire resource => if resource ∈ held then none else some (insert resource held)
  | .use resource => if resource ∈ held then some held else none
  | .release resource => if resource ∈ held then some (held.erase resource) else none

/-- The trace can be run, and leaves held what it should. -/
def Leaves (held : Finset R) (trace : List (Entry R)) (after : Finset R) : Prop :=
  run step held trace = some after

instance (held : Finset R) (trace : List (Entry R)) (after : Finset R) :
    Decidable (Leaves held trace after) := inferInstanceAs (Decidable (_ = _))

namespace Leaves
variable {held middle after other : Finset R} {first rest trace : List (Entry R)} {resource : R}

theorem nil : Leaves held [] held := rfl

@[simp] theorem nil_iff : Leaves held [] after ↔ held = after := Option.some_inj

@[simp] theorem acquire_iff : Leaves held (.acquire resource :: rest) after ↔
    resource ∉ held ∧ Leaves (insert resource held) rest after := by
  rw [Leaves, run_cons, step]
  split
  case isTrue owned => exact iff_of_false (by simp) fun both => both.1 owned
  case isFalse free => exact (and_iff_right free).symm

@[simp] theorem use_iff : Leaves held (.use resource :: rest) after ↔
    resource ∈ held ∧ Leaves held rest after := by
  rw [Leaves, run_cons, step]
  split
  case isTrue owned => exact (and_iff_right owned).symm
  case isFalse free => exact iff_of_false (by simp) fun both => free both.1

@[simp] theorem release_iff : Leaves held (.release resource :: rest) after ↔
    resource ∈ held ∧ Leaves (held.erase resource) rest after := by
  rw [Leaves, run_cons, step]
  split
  case isTrue owned => exact (and_iff_right owned).symm
  case isFalse free => exact iff_of_false (by simp) fun both => free both.1

theorem acquire (free : resource ∉ held) (then' : Leaves (insert resource held) rest after) :
    Leaves held (.acquire resource :: rest) after :=
  acquire_iff.mpr ⟨free, then'⟩

theorem use (owned : resource ∈ held) (then' : Leaves held rest after) :
    Leaves held (.use resource :: rest) after :=
  use_iff.mpr ⟨owned, then'⟩

theorem release (owned : resource ∈ held) (then' : Leaves (held.erase resource) rest after) :
    Leaves held (.release resource :: rest) after :=
  release_iff.mpr ⟨owned, then'⟩

theorem unique (leaves : Leaves held trace after) (also : Leaves held trace other) :
    after = other :=
  Option.some.inj (leaves.symm.trans also)

theorem uses (owned : ∀ entry ∈ trace, ∃ resource ∈ held, entry = .use resource) :
    Leaves held trace held := by
  induction trace with
  | nil => exact nil
  | cons entry rest ih =>
    obtain ⟨resource, owns, rfl⟩ := owned entry List.mem_cons_self
    exact use owns (ih fun later mem => owned later (List.mem_cons_of_mem _ mem))

/-- What follows a trace starts with what the trace leaves. -/
theorem append_iff (leaves : Leaves held first middle) :
    Leaves held (first ++ rest) after ↔ Leaves middle rest after := by
  rw [Leaves, run_append, leaves]
  rfl

theorem append (leaves : Leaves held first middle) (then' : Leaves middle rest after) :
    Leaves held (first ++ rest) after :=
  leaves.append_iff.mpr then'

/-- What is held and not released is held at the end. -/
theorem keeps (leaves : Leaves held trace after) (owned : resource ∈ held)
    (kept : .release resource ∉ trace) : resource ∈ after := by
  induction trace generalizing held with
  | nil =>
    cases nil_iff.mp leaves
    exact owned
  | cons entry rest ih =>
    have kept' : .release resource ∉ rest := fun later => kept (List.mem_cons_of_mem entry later)
    cases entry with
    | acquire other => exact ih (acquire_iff.mp leaves).2 (Finset.mem_insert_of_mem owned) kept'
    | use other => exact ih (use_iff.mp leaves).2 owned kept'
    | release other =>
      have different : resource ≠ other := fun same => kept (same ▸ List.mem_cons_self)
      exact ih (release_iff.mp leaves).2 (Finset.mem_erase.mpr ⟨different, owned⟩) kept'

theorem acquired (leaves : Leaves held (.acquire resource :: rest) after)
    (kept : .release resource ∉ rest) : resource ∈ after :=
  keeps (acquire_iff.mp leaves).2 (Finset.mem_insert_self ..) kept

theorem bracket (free : resource ∉ held)
    (inside : Leaves (insert resource held) trace (insert resource held)) :
    Leaves held (.acquire resource :: (trace ++ [.release resource])) held := by
  refine acquire free (inside.append (release (Finset.mem_insert_self ..) ?_))
  rw [Finset.erase_insert free]
  exact nil

end Leaves

/-- What a machine whose moves tell what they do to resources does along a run. -/
def traceOf {S E : Type*} (move : S → E → Option (S × List (Entry R))) (s : S) :
    List E → List (Entry R)
  | [] => []
  | e :: es =>
    match move s e with
    | none => []
    | some (t, entries) => entries ++ traceOf move t es

/-- Moves that leave what each state owns make runs that do. -/
theorem traceOf_leaves {S E : Type*} {move : S → E → Option (S × List (Entry R))}
    {owned : S → Finset R} {I : S → Prop}
    (moves : ∀ s e t entries, I s → move s e = some (t, entries) →
      I t ∧ Leaves (owned s) entries (owned t)) {s t : S} (start : I s) (es : List E)
    (reached : run (fun s e => (move s e).map Prod.fst) s es = some t) :
    I t ∧ Leaves (owned s) (traceOf move s es) (owned t) := by
  induction es generalizing s with
  | nil =>
    cases Option.some.inj reached
    exact ⟨start, .nil⟩
  | cons e es ih =>
    obtain ⟨u, first, reached⟩ := run_cons_iff.mp reached
    obtain ⟨⟨_, entries⟩, moved, rfl⟩ := Option.map_eq_some_iff.mp first
    obtain ⟨here, leaves⟩ := moves s e _ entries start moved
    obtain ⟨there, later⟩ := ih here reached
    simp only [traceOf, moved]
    exact ⟨there, leaves.append later⟩

theorem erased {held : Finset R} {order : List R} (all : ∀ resource ∈ held, resource ∈ order) :
    order.foldl Finset.erase held = ∅ := by
  induction order generalizing held with
  | nil => exact Finset.eq_empty_of_forall_notMem fun resource owned => by simpa using all resource owned
  | cons first rest ih =>
    refine ih fun resource owned => ?_
    obtain ⟨other, owned⟩ := Finset.mem_erase.mp owned
    exact (List.mem_cons.mp (all resource owned)).resolve_left other

end Ledger
