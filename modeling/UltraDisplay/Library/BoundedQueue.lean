import Mathlib.Data.List.Basic
import UltraDisplay.Library.Simulation

/-! A FIFO queue that never holds more than `bound` items: the purpose of a
ring buffer, stated without indices. The bound is a field of the queue, so no
operation can leave it over-full. -/

structure BoundedQueue (α : Type*) (bound : Nat) where
  /-- Oldest first. -/
  items : List α
  fits : items.length ≤ bound

namespace BoundedQueue
variable {α : Type*} {bound : Nat}

def empty : BoundedQueue α bound := ⟨[], Nat.zero_le _⟩

def append (queue : BoundedQueue α bound) (item : α) (room : queue.items.length ≠ bound) :
    BoundedQueue α bound :=
  ⟨queue.items ++ [item], by
    have := queue.fits
    rw [List.length_append, List.length_singleton]
    omega⟩

/-- Append and drop the oldest. -/
def rotate (queue : BoundedQueue α bound) (item : α) : BoundedQueue α bound :=
  ⟨(queue.items ++ [item]).tail, by simpa using queue.fits⟩

@[simp] theorem rotate_items (queue : BoundedQueue α bound) (item : α) :
    (queue.rotate item).items = (queue.items ++ [item]).tail := rfl

def tryPush (queue : BoundedQueue α bound) (item : α) : BoundedQueue α bound × Bool :=
  if full : queue.items.length = bound then (queue, false)
  else (queue.append item full, true)

def tryPop (queue : BoundedQueue α bound) : BoundedQueue α bound × Option α :=
  (⟨queue.items.tail, by
    have := queue.fits
    rw [List.length_tail]
    omega⟩, queue.items.head?)

@[simp] theorem tryPop_items (queue : BoundedQueue α bound) :
    queue.tryPop.1.items = queue.items.tail := rfl

@[simp] theorem tryPop_item (queue : BoundedQueue α bound) :
    queue.tryPop.2 = queue.items.head? := rfl

def pushOverwrite (queue : BoundedQueue α bound) (item : α) : BoundedQueue α bound :=
  if full : queue.items.length = bound then queue.rotate item
  else queue.append item full

def size (queue : BoundedQueue α bound) : Nat := queue.items.length

inductive Call (α : Type*) where
  | tryPush (item : α)
  | tryPop
  | pushOverwrite (item : α)
  | size

inductive Answer (α : Type*) where
  | pushed (accepted : Bool)
  | popped (item : Option α)
  | overwritten
  | held (count : Nat)
  deriving DecidableEq

def call (queue : BoundedQueue α bound) : Call α → BoundedQueue α bound × Answer α
  | .tryPush item => ((queue.tryPush item).1, .pushed (queue.tryPush item).2)
  | .tryPop => (queue.tryPop.1, .popped queue.tryPop.2)
  | .pushOverwrite item => (queue.pushOverwrite item, .overwritten)
  | .size => (queue, .held queue.size)

/-! ### Pushes until the queue is full, and pops until it is empty -/

open Simulation

theorem tryPush_room {queue : BoundedQueue α bound} (room : queue.items.length ≠ bound) (item : α) :
    queue.tryPush item = (queue.append item room, true) := by
  rw [tryPush, dif_neg room]

theorem fill {queue : BoundedQueue α bound} {items : List α}
    (room : queue.items.length + items.length ≤ bound) (calls : List (Call α)) :
    ∃ full : BoundedQueue α bound, full.items = queue.items ++ items ∧
      answers call queue (items.map .tryPush ++ calls) =
        List.replicate items.length (.pushed true) ++ answers call full calls := by
  induction items generalizing queue with
  | nil => exact ⟨queue, (List.append_nil _).symm, rfl⟩
  | cons item items ih =>
    rw [List.length_cons] at room
    have free : queue.items.length ≠ bound := by omega
    have longer : (queue.append item free).items = queue.items ++ [item] := rfl
    obtain ⟨full, held, same⟩ := @ih (queue.append item free) (by
      rw [longer, List.length_append, List.length_singleton]
      omega)
    refine ⟨full, ?_, ?_⟩
    · rw [held, longer, List.append_assoc, List.singleton_append]
    · rw [List.map_cons, List.cons_append, answers, List.length_cons, List.replicate_succ,
        List.cons_append]
      simp only [call, tryPush_room free]
      rw [same]

theorem overfill {queue : BoundedQueue α bound} {items : List α}
    (more : bound < queue.items.length + items.length) (calls : List (Call α)) :
    .pushed false ∈ answers call queue (items.map .tryPush ++ calls) := by
  induction items generalizing queue with
  | nil =>
    have fits := queue.fits
    rw [List.length_nil] at more
    omega
  | cons item items ih =>
    rw [List.map_cons, List.cons_append, answers]
    by_cases full : queue.items.length = bound
    · simp [call, tryPush, full]
    · simp only [call, tryPush_room full]
      refine List.mem_cons_of_mem _ (ih ?_)
      rw [List.length_cons] at more
      simp only [append, List.length_append, List.length_singleton]
      omega

theorem drain {queue : BoundedQueue α bound} {items : List α} (held : queue.items = items) :
    answers call queue (List.replicate items.length .tryPop) =
      items.map fun item => .popped (some item) := by
  induction items generalizing queue with
  | nil => rfl
  | cons item items ih =>
    rw [List.length_cons, List.replicate_succ, answers]
    simp only [call, tryPop_item, held, List.head?_cons, List.map_cons]
    rw [ih]
    rw [tryPop_items, held, List.tail_cons]

end BoundedQueue
