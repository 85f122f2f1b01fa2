import Mathlib.Data.List.Basic

/-! A memory of cells, read and written a span at a time. A reader that is given the
address of a span gets what the cells hold when it reads. -/
abbrev Memory (α : Type*) := Nat → α

namespace Memory
variable {α : Type*} {memory : Memory α} {address count start : Nat} {bytes : List α}

def load (memory : Memory α) (address count : Nat) : List α :=
  (List.range' address count).map memory

def store (memory : Memory α) (address : Nat) (bytes : List α) : Memory α := fun cell =>
  if address ≤ cell then bytes.getD (cell - address) (memory cell) else memory cell

/-- No cell belongs to both spans. -/
def Separate (address count start length : Nat) : Prop :=
  address + count ≤ start ∨ start + length ≤ address

@[simp] theorem load_length : (memory.load address count).length = count := by simp [load]

theorem store_outside {cell : Nat} (outside : cell < start ∨ start + bytes.length ≤ cell) :
    memory.store start bytes cell = memory cell := by
  unfold store
  split
  case isTrue after =>
    have past : bytes.length ≤ cell - start := by omega
    simp [past]
  case isFalse => rfl

/-- A store leaves every span it does not touch as it was. -/
theorem load_store_of_separate (separate : Separate address count start bytes.length) :
    (memory.store start bytes).load address count = memory.load address count := by
  apply List.map_congr_left
  intro cell member
  rw [List.mem_range'_1] at member
  apply store_outside
  unfold Separate at separate
  omega

theorem load_store : (memory.store address bytes).load address bytes.length = bytes := by
  apply List.ext_getElem load_length
  intro i inside _
  have bound : i < bytes.length := by rwa [load_length] at inside
  simp [load, store, bound]

end Memory
