import Mathlib.Data.List.Basic
import Mathlib.Logic.Function.Basic

/-! Null-terminated lists threaded through a memory of `next` cells: the list a
head pointer denotes, what is reachable from it, and writes that leave it alone. -/
namespace LinkedList
variable {β : Type*} {next : β → Option β}

inductive Linked (next : β → Option β) : Option β → List β → Prop where
  | nil : Linked next none []
  | cons : Linked next (next b) bs → Linked next (some b) (b :: bs)

inductive Reachable (next : β → Option β) : Option β → β → Prop where
  | here : Reachable next (some b) b
  | later : Reachable next (next a) b → Reachable next (some a) b

namespace Linked

theorem reachable_mem (linked : Linked next head bs) (reached : Reachable next head b) : b ∈ bs := by
  induction reached generalizing bs with
  | here =>
    cases linked with
    | cons rest => exact List.mem_cons_self
  | later _ ih =>
    cases linked with
    | cons rest => exact List.mem_cons_of_mem _ (ih rest)

theorem uncons (linked : Linked next (some b) bs) :
    ∃ rest, bs = b :: rest ∧ Linked next (next b) rest := by
  cases linked with
  | cons rest => exact ⟨_, rfl, rest⟩

theorem head_none_iff (linked : Linked next head bs) : head = none ↔ bs = [] := by
  cases linked with
  | nil => simp
  | cons rest => simp

theorem unique (linked : Linked next head bs) (other : Linked next head cs) : bs = cs := by
  induction linked generalizing cs with
  | nil =>
    cases other
    rfl
  | cons _ ih =>
    obtain ⟨rest, rfl, after⟩ := other.uncons
    rw [ih after]

/-- A write to a cell outside the list is not seen by it. -/
theorem frame [DecidableEq β] (linked : Linked next head bs) (outside : b ∉ bs)
    (value : Option β) : Linked (Function.update next b value) head bs := by
  induction linked with
  | nil => exact .nil
  | @cons a rest linked ih =>
    have other : a ≠ b := fun same => outside (same ▸ List.mem_cons_self)
    apply Linked.cons
    rw [Function.update_of_ne other]
    exact ih fun member => outside (List.mem_cons_of_mem _ member)

end Linked
end LinkedList
