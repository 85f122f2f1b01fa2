import UltraDisplay.Shared.RingBuffer.Queue

/-! How many items a ring takes, against the capacity that was asked for. The request
is rounded up to a power of two, but one slot stays empty. -/
namespace UltraDisplay.RingBuffer
open BoundedQueue (Answer)
variable {α : Type} {capacity : Nat}

/-- A push of each item succeeds, and the pops after them return the items in order. -/
def HoldsItems (movedFrom : α → α) (ring : RingBuffer α) (items : List α) : Prop :=
  Simulation.answers (call movedFrom) ring
      (items.map .tryPush ++ List.replicate items.length .tryPop) =
    List.replicate items.length (.pushed true) ++ items.map fun item => .popped (some item)

theorem holdsItems_iff_le {ring : RingBuffer α} {bound : Nat} (movedFrom : α → α)
    (shows : Represents ring (BoundedQueue.empty : BoundedQueue α bound)) (items : List α) :
    HoldsItems movedFrom ring items ↔ items.length ≤ bound := by
  unfold HoldsItems
  rw [(Represents.simulates movedFrom).answers_eq shows]
  constructor
  · intro same
    by_contra more
    have refused := @BoundedQueue.overfill α bound BoundedQueue.empty items
      (by simpa [BoundedQueue.empty] using more) (List.replicate items.length .tryPop)
    rw [same] at refused
    simp at refused
  · intro enough
    obtain ⟨full, held, same⟩ := @BoundedQueue.fill α bound BoundedQueue.empty items
      (by simpa [BoundedQueue.empty] using enough) (List.replicate items.length .tryPop)
    have all : full.items = items := held
    rw [same, BoundedQueue.drain all]

/-- Rounded up to a power of two, a request leaves room for one slot more unless it is
one already. -/
theorem le_rounded_iff (positive : 1 ≤ capacity) :
    capacity ≤ 2 ^ Nat.clog 2 capacity - 1 ↔ ¬ capacity.isPowerOfTwo := by
  have rounded : capacity ≤ 2 ^ Nat.clog 2 capacity := Nat.le_pow_clog (by decide) capacity
  constructor
  · rintro less ⟨k, rfl⟩
    rw [Nat.clog_pow 2 k (by decide)] at less
    omega
  · intro other
    have differs : capacity ≠ 2 ^ Nat.clog 2 capacity := fun same => other ⟨_, same⟩
    omega

/-- A ring holds as many items as were asked for precisely when their number is not a
power of two. -/
theorem holds_request_iff [Inhabited α] (movedFrom : α → α) (capacity : Nat)
    (positive : 1 ≤ capacity) (most : capacity ≤ 2 ^ 62) (items : List α)
    (count : items.length = capacity) :
    ∃ ring : RingBuffer α, construct capacity = some ring ∧
      (HoldsItems movedFrom ring items ↔ ¬ capacity.isPowerOfTwo) := by
  obtain ⟨ring, built, slots⟩ := @construct_clog α capacity _ (by omega)
  refine ⟨ring, built, ?_⟩
  have rounded := Nat.two_pow_pos (Nat.clog 2 capacity)
  have shows : Represents ring
      (BoundedQueue.empty : BoundedQueue α (2 ^ Nat.clog 2 capacity - 1)) :=
    Represents.start built (by omega)
  rw [holdsItems_iff_le movedFrom shows, count]
  exact le_rounded_iff positive

theorem holds_request_iff_three :
    ∃ ring : RingBuffer Nat, construct 3 = some ring ∧
      (HoldsItems id ring [7, 8, 9] ↔ ¬ (3).isPowerOfTwo) :=
  holds_request_iff id 3 (by decide) (by decide) [7, 8, 9] rfl

/-- A ring for eight items refuses the eighth. -/
theorem eight_holds_seven : ¬ ∀ (capacity : Nat) (items : List Nat) (ring : RingBuffer Nat),
    1 ≤ capacity → capacity ≤ 2 ^ 62 → items.length = capacity →
    construct capacity = some ring → HoldsItems id ring items := by
  intro claim
  have holds := claim 8 [1, 2, 3, 4, 5, 6, 7, 8]
    { capacity := 8, mask := 7, buffer := fun _ => default, head := 0, tail := 0 }
    (by decide) (by decide) rfl rfl
  revert holds
  unfold HoldsItems
  decide

end UltraDisplay.RingBuffer
