import Mathlib.Data.List.Basic

/-! An array that is shifted by one place to take each new item in at its end. -/
namespace SlidingWindow
variable {α : Type*}

/-- Copies each item over the one before it, up to the last. -/
def shift (items : List α) : List α :=
  (List.range (items.length - 1)).foldl
    (fun items i => match items[i + 1]? with
      | none => items
      | some item => items.set i item) items

def push (items : List α) (item : α) : List α := (shift items).set (items.length - 1) item

theorem foldl_shift (items : List α) {k : Nat} (inside : k < items.length) :
    (List.range k).foldl
      (fun items i => match items[i + 1]? with
        | none => items
        | some item => items.set i item) items = (items.drop 1).take k ++ items.drop k := by
  induction k with
  | zero => rfl
  | succ k ih =>
    have shifted : ((items.drop 1).take k).length = k := by
      rw [List.length_take, List.length_drop]
      omega
    have next : items.drop k = items[k] :: items[k + 1] :: items.drop (k + 2) := by
      rw [List.drop_eq_getElem_cons (by omega), List.drop_eq_getElem_cons (by omega)]
    have front : (items.drop 1).take (k + 1) = (items.drop 1).take k ++ [items[k + 1]] := by
      rw [List.take_add_one, List.getElem?_drop, Nat.add_comm 1 k, List.getElem?_eq_getElem inside]
      rfl
    rw [List.range_succ, List.foldl_append, ih (by omega)]
    simp only [List.foldl_cons, List.foldl_nil]
    rw [List.getElem?_append_right (by omega), shifted, next, front,
      List.drop_eq_getElem_cons inside]
    simp only [Nat.add_sub_cancel_left, List.getElem?_cons_succ, List.getElem?_cons_zero]
    rw [List.set_append_right _ _ (by omega), shifted, Nat.sub_self, List.set_cons_zero,
      List.append_assoc, List.singleton_append]

theorem push_eq (items : List α) (item : α) (some_item : items ≠ []) :
    push items item = items.drop 1 ++ [item] := by
  have positive := List.length_pos_iff.mpr some_item
  have length : ((items.drop 1).take (items.length - 1)).length = items.length - 1 := by
    rw [List.length_take, List.length_drop, Nat.min_self]
  have last : (items.drop (items.length - 1)).length = 1 := by
    rw [List.length_drop]
    omega
  obtain ⟨old, single⟩ := List.length_eq_one_iff.mp last
  unfold push shift
  rw [foldl_shift items (by omega), List.set_append_right _ _ (Nat.le_of_eq length), length, Nat.sub_self,
    single, List.set_cons_zero, List.take_of_length_le (by simp)]

theorem length_push (items : List α) (item : α) : (push items item).length = items.length := by
  by_cases empty : items = []
  · subst empty
    rfl
  · have positive := List.length_pos_iff.mpr empty
    rw [push_eq items item empty, List.length_append, List.length_drop, List.length_singleton]
    omega

/-- The window holds the end of what it began with and what came. -/
theorem foldl_push (arrived items : List α) (some_item : items ≠ []) :
    arrived.foldl push items = (items ++ arrived).drop arrived.length := by
  induction arrived generalizing items with
  | nil => simp
  | cons item arrived ih =>
    have positive := List.length_pos_iff.mpr some_item
    have first : (items ++ item :: arrived).drop 1 = items.drop 1 ++ item :: arrived :=
      List.drop_append_of_le_length positive
    rw [List.foldl_cons, push_eq items item some_item, ih _ (by simp), List.append_assoc,
      List.singleton_append, List.length_cons, Nat.add_comm, ← List.drop_drop, first]

end SlidingWindow
