import Mathlib.Algebra.Order.Field.Basic
import Mathlib.Algebra.Order.Field.Rat

/-! A stream cut into consecutive windows of one size, the last of them still open:
what counters measure that start again when a window is full. -/

structure TumblingWindow (α : Type*) (size : Nat) where
  /-- Oldest first. -/
  closed : List (List α)
  current : List α
  full : ∀ window ∈ closed, window.length = size
  short : current.length < size

namespace TumblingWindow
variable {α : Type*} {size : Nat}

/-- The stream that the windows are cut from. -/
def items (windows : TumblingWindow α size) : List α := windows.closed.flatten ++ windows.current

def start (positive : 0 < size) : TumblingWindow α size :=
  ⟨[], [], by simp, positive⟩

def fill (windows : TumblingWindow α size) (item : α) (room : windows.current.length + 1 < size) :
    TumblingWindow α size :=
  { windows with
    current := windows.current ++ [item]
    short := by rwa [List.length_append, List.length_singleton] }

def close (windows : TumblingWindow α size) (item : α)
    (last : windows.current.length + 1 = size) : TumblingWindow α size where
  closed := windows.closed ++ [windows.current ++ [item]]
  current := []
  full := by
    intro window member
    rcases List.mem_append.mp member with earlier | new
    · exact windows.full window earlier
    · rw [List.mem_singleton.mp new, List.length_append, List.length_singleton, last]
  short := last ▸ Nat.succ_pos _

@[simp] theorem fill_items (windows : TumblingWindow α size) (item : α)
    (room : windows.current.length + 1 < size) :
    (windows.fill item room).items = windows.items ++ [item] := by
  simp only [items, fill, List.append_assoc]

@[simp] theorem close_items (windows : TumblingWindow α size) (item : α)
    (last : windows.current.length + 1 = size) :
    (windows.close item last).items = windows.items ++ [item] := by
  simp only [items, close, List.flatten_append, List.flatten_singleton, List.append_nil,
    List.append_assoc]

/-- One more item leaves the current window open, or is its last. -/
theorem room_or_last (windows : TumblingWindow α size) :
    windows.current.length + 1 < size ∨ windows.current.length + 1 = size :=
  Nat.lt_or_eq_of_le windows.short

theorem share_unit [BEq α] (windows : TumblingWindow α size) (item : α) :
    ∀ window ∈ windows.closed,
      0 ≤ (window.count item : ℚ) / size ∧ (window.count item : ℚ) / size ≤ 1 := by
  intro window member
  have some_item : 0 < size := (Nat.zero_le _).trans_lt windows.short
  have positive : (0 : ℚ) < size := Nat.cast_pos.mpr some_item
  have part : window.count item ≤ size := windows.full window member ▸ List.count_le_length
  constructor
  · exact div_nonneg (Nat.cast_nonneg _) positive.le
  · rw [div_le_one positive]
    exact Nat.cast_le.mpr part

end TumblingWindow
