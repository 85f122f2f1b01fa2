import Mathlib.Data.List.Basic

/-! Writing a buffer with every index checked, and counting in a signed type that does
not hold every sum. -/
namespace CheckedWrite
variable {α : Type*}

/-- What a writer must not do: write outside of the buffer, or count too far. -/
inductive Fault where
  | outOfBounds (index : Nat)
  | overflow
  deriving DecidableEq

abbrev Writer := Except Fault

def write (buf : List α) (index : Nat) (item : α) : Writer (List α) :=
  if index < buf.length then .ok (buf.set index item) else .error (.outOfBounds index)

def writeAll (buf : List α) (index : Nat) : List α → Writer (List α)
  | [] => .ok buf
  | item :: items => do
    let buf ← write buf index item
    writeAll buf (index + 1) items

def add (largest a b : Nat) : Writer Nat :=
  if a + b ≤ largest then .ok (a + b) else .error .overflow

theorem write_append (front : List α) (old item : α) (back : List α) :
    write (front ++ old :: back) front.length item = .ok (front ++ item :: back) := by
  have inside : front.length < (front ++ old :: back).length := by simp
  rw [write, if_pos inside, List.set_append_right _ _ (Nat.le_refl _), Nat.sub_self,
    List.set_cons_zero]

/-- What has been written fitted. -/
theorem writeAll_fits {buf items result : List α} {index : Nat}
    (written : writeAll buf index items = .ok result) (some : items ≠ []) :
    index + items.length ≤ buf.length := by
  induction items generalizing buf index with
  | nil => exact absurd rfl some
  | cons item items ih =>
    rw [writeAll, write] at written
    split at written
    case isFalse => cases written
    case isTrue inside =>
      cases items with
      | nil => exact inside
      | cons next items =>
        have rest := ih written (List.cons_ne_nil next items)
        rw [List.length_set] at rest
        rw [List.length_cons]
        omega

theorem writeAll_append {front back items : List α} (fits : items.length ≤ back.length) :
    writeAll (front ++ back) front.length items =
      .ok (front ++ items ++ back.drop items.length) := by
  induction items generalizing front back with
  | nil => simp [writeAll]
  | cons item items ih =>
    obtain ⟨old, back, rfl⟩ := List.exists_cons_of_length_pos (Nat.lt_of_lt_of_le (by simp) fits)
    have moved : front ++ item :: back = front ++ [item] ++ back := by simp
    have length : front.length + 1 = (front ++ [item]).length := by simp
    rw [writeAll, write_append, moved, length]
    refine (ih (Nat.le_of_succ_le_succ fits)).trans ?_
    simp

theorem drop_written (front items back : List α) {index : Nat}
    (behind : front.length + items.length ≤ index) :
    (front ++ items ++ back.drop items.length).drop index = (front ++ back).drop index := by
  obtain ⟨more, rfl⟩ := Nat.exists_eq_add_of_le behind
  have changed : (front ++ items ++ back.drop items.length).drop
      ((front ++ items).length + more) = back.drop (items.length + more) := by
    rw [List.drop_length_add_append, List.drop_drop]
  have whole : (front ++ back).drop (front.length + (items.length + more)) =
      back.drop (items.length + more) := List.drop_length_add_append _
  rw [List.length_append] at changed
  rw [changed, Nat.add_assoc, whole]

end CheckedWrite
