import Mathlib.Data.List.Basic

/-! One parity element over an operation in which everything is its own inverse:
a single erasure is determined by the survivors and the parity, and two changes
that cancel are invisible to it. -/
namespace Parity
variable {α : Type*} {op : α → α → α} {e : α}

structure Laws (op : α → α → α) (e : α) : Prop where
  assoc : ∀ a b c, op (op a b) c = op a (op b c)
  comm : ∀ a b, op a b = op b a
  identity : ∀ a, op e a = a
  inverse : ∀ a, op a a = e

def parity (op : α → α → α) (e : α) (elements : List α) : α := elements.foldr op e

namespace Laws

theorem undo (laws : Laws op e) (a b : α) : op a (op a b) = b := by
  rw [← laws.assoc, laws.inverse, laws.identity]

theorem cancel (laws : Laws op e) (same : op a b = op a c) : b = c := by
  rw [← laws.undo a b, same, laws.undo]

/-- Two words that agree off one place and have the same parity are equal. -/
theorem erasure_determined (laws : Laws op e) {word other : List α} (place : Nat)
    (length : word.length = other.length) (agree : ∀ i, i ≠ place → word[i]? = other[i]?)
    (same : parity op e word = parity op e other) : word = other := by
  induction word generalizing other place with
  | nil => exact (List.eq_nil_of_length_eq_zero length.symm).symm
  | cons a word ih =>
    obtain ⟨b, other, rfl⟩ := List.exists_cons_of_length_eq_add_one length.symm
    simp only [parity, List.foldr_cons] at same
    cases place with
    | zero =>
      have rest : word = other := by
        apply List.ext_getElem?
        intro i
        simpa using agree (i + 1) (by omega)
      subst rest
      rw [laws.comm a, laws.comm b] at same
      rw [laws.cancel same]
    | succ place =>
      have first : a = b := by simpa using agree 0 (by omega)
      subst first
      have rest : word = other := by
        apply ih place (by simpa using length) _ (laws.cancel same)
        intro i elsewhere
        simpa using agree (i + 1) (by omega)
      rw [rest]

/-- An element and the parity of the others make the parity of all. -/
theorem parity_eraseIdx (laws : Laws op e) {word : List α} (here : word[i]? = some a) :
    parity op e word = op a (parity op e (word.eraseIdx i)) := by
  induction word generalizing i with
  | nil => simp at here
  | cons c word ih =>
    cases i with
    | zero =>
      have same : c = a := by simpa using here
      rw [same]
      rfl
    | succ i =>
      have rest := ih (by simpa using here)
      simp only [parity, List.eraseIdx_cons_succ, List.foldr_cons] at rest ⊢
      rw [rest, ← laws.assoc, laws.comm c, laws.assoc]

/-- Replacing an element moves the parity by the old and the new one. -/
theorem parity_set (laws : Laws op e) (word : List α) (here : word[i]? = some a) (b : α) :
    parity op e (word.set i b) = op (op a b) (parity op e word) := by
  have inside := (List.getElem?_eq_some_iff.mp here).1
  have replaced : (word.set i b)[i]? = some b := List.getElem?_set_self inside
  rw [laws.parity_eraseIdx replaced, laws.parity_eraseIdx here, List.eraseIdx_set_eq]
  rw [laws.comm a b, laws.assoc, laws.undo]

theorem recover (laws : Laws op e) {word : List α} (here : word[i]? = some a) :
    op (parity op e word) (parity op e (word.eraseIdx i)) = a := by
  rw [laws.parity_eraseIdx here, laws.comm a, laws.comm, laws.undo]

theorem parity_two_changes (laws : Laws op e) {word : List α} (first : word[i]? = some a)
    (second : word[j]? = some a) (distinct : i ≠ j) (b : α) :
    parity op e ((word.set i b).set j b) = parity op e word := by
  have untouched : (word.set i b)[j]? = some a := by rwa [List.getElem?_set_ne distinct]
  rw [laws.parity_set _ untouched, laws.parity_set _ first, laws.undo]

end Laws
end Parity
