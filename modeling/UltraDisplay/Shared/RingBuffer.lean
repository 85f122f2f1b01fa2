import Mathlib.Tactic.Ring
import Mathlib.Logic.Function.Basic
import Mathlib.Data.Nat.Log

/-! `RingBuffer<T>` of shared/util/ring_buffer.hpp, with every load and store of
`head_` and `tail_` and every slot access as one atomic step. One producer and
one consumer share the ring; an event says which of them moves next. Slots are
a function of the masked index, which the invariant keeps below `capacity_`. -/
namespace UltraDisplay

structure RingBuffer (α : Type) where
  capacity : Nat
  mask : Nat
  buffer : Nat → α
  head : Nat
  tail : Nat

namespace RingBuffer
variable {α : Type} {capacity rounded rounds k : Nat}

/-- `while (capacity_ < capacity) capacity_ <<= 1;` on a 64-bit `size_t`. The
shift reaches zero after 64 rounds, so running out of them means no return. -/
def doubling (capacity : Nat) : Nat → Nat → Option Nat
  | 0, current => if current < capacity then none else some current
  | rounds + 1, current =>
      if current < capacity then doubling capacity rounds (current <<< 1 % 2 ^ 64)
      else some current

def roundedCapacity (capacity : Nat) : Option Nat :=
  if capacity = 0 ∨ capacity &&& (capacity - 1) ≠ 0 then doubling capacity 64 1
  else some capacity

/-- The constructor, for a requested capacity below 2^64. -/
def construct [Inhabited α] (capacity : Nat) : Option (RingBuffer α) :=
  (roundedCapacity capacity).map fun rounded =>
    { capacity := rounded, mask := rounded - 1, buffer := fun _ => default, head := 0, tail := 0 }

theorem doubling_pow (bound : rounds + k = 64) :
    doubling capacity rounds (2 ^ k % 2 ^ 64) = some rounded → 0 < capacity →
    ∃ j, rounded = 2 ^ j := by
  induction rounds generalizing k with
  | zero =>
    obtain rfl : k = 64 := by omega
    intro returned positive
    simp [doubling, positive] at returned
  | succ rounds ih =>
    have small : 2 ^ k < 2 ^ 64 := Nat.pow_lt_pow_right (by decide) (by omega)
    intro returned positive
    simp only [doubling, Nat.mod_eq_of_lt small] at returned
    split at returned
    · apply ih (k := k + 1) (by omega) _ positive
      simpa only [Nat.shiftLeft_eq, Nat.pow_one, Nat.pow_succ] using returned
    · exact ⟨k, (Option.some.inj returned).symm⟩

/-- Whatever was asked for, the ring that comes out has a power of two slots. -/
theorem roundedCapacity_pow (returned : roundedCapacity capacity = some rounded) :
    ∃ j, rounded = 2 ^ j := by
  unfold roundedCapacity at returned
  split at returned
  · by_cases empty : capacity = 0
    · subst empty
      exact ⟨0, by simpa [doubling] using returned.symm⟩
    · exact doubling_pow (k := 0) rfl returned (by omega)
  · rename_i exact_power
    rw [not_or, not_not] at exact_power
    obtain ⟨j, same⟩ := (Nat.and_sub_one_eq_zero_iff_isPowerOfTwo exact_power.1).mp exact_power.2
    exact ⟨j, (Option.some.inj returned).symm.trans same⟩

theorem doubling_clog (low : k ≤ Nat.clog 2 capacity) (enough : Nat.clog 2 capacity ≤ rounds + k)
    (fits : Nat.clog 2 capacity < 64) :
    doubling capacity rounds (2 ^ k) = some (2 ^ Nat.clog 2 capacity) := by
  have reached (high : Nat.clog 2 capacity ≤ k) : k = Nat.clog 2 capacity := by omega
  induction rounds generalizing k with
  | zero =>
    have there := reached (by omega)
    subst there
    simp only [doubling]
    rw [if_neg (Nat.not_lt.mpr (Nat.le_pow_clog (by decide) _))]
  | succ rounds ih =>
    simp only [doubling]
    split
    case isTrue short =>
      have below : k < Nat.clog 2 capacity := (Nat.lt_clog_iff_pow_lt (by decide)).mpr short
      have small : 2 ^ (k + 1) < 2 ^ 64 := Nat.pow_lt_pow_right (by decide) (by omega)
      rw [Nat.shiftLeft_eq, Nat.pow_one, ← Nat.pow_succ, Nat.mod_eq_of_lt small]
      exact ih below (by omega) (by omega)
    case isFalse long =>
      rw [reached (Nat.clog_le_of_le_pow (Nat.not_lt.mp long))]

/-- The constructor returns for every request up to 2^63, with the request
rounded up to a power of two. -/
theorem construct_clog [Inhabited α] (fits : capacity ≤ 2 ^ 63) :
    ∃ ring : RingBuffer α, construct capacity = some ring ∧
      ring.capacity = 2 ^ Nat.clog 2 capacity := by
  have returned : roundedCapacity capacity = some (2 ^ Nat.clog 2 capacity) := by
    unfold roundedCapacity
    split
    case isTrue =>
      have short : Nat.clog 2 capacity ≤ 63 := Nat.clog_le_of_le_pow fits
      exact doubling_clog (k := 0) (Nat.zero_le _) (by omega) (by omega)
    case isFalse exact_power =>
      rw [not_or, not_not] at exact_power
      obtain ⟨j, same⟩ := (Nat.and_sub_one_eq_zero_iff_isPowerOfTwo exact_power.1).mp exact_power.2
      rw [same, Nat.clog_pow 2 j (by decide)]
  rw [construct, returned]
  exact ⟨_, rfl, rfl⟩

/-- The two calls of the producer. -/
inductive Push where
  | tryPush
  | pushOverwrite
  deriving DecidableEq

/-- Where the producer stands; each constructor holds its local variables. -/
inductive Producer (α : Type) where
  | idle
  | loaded (call : Push) (item : α) (head : Nat)
  | cleared (item : α) (head : Nat)
  | wrote (call : Push) (item : α) (head : Nat)
  | published (nextHead : Nat)
  | bumping (tail : Nat)

/-- After the store of `head_`, `try_push` returns and `push_overwrite` goes on. -/
def Push.afterStore (nextHead : Nat) : Push → Producer α
  | .tryPush => .idle
  | .pushOverwrite => .published nextHead

/-- Where the consumer stands in `try_pop`. -/
inductive Consumer (α : Type) where
  | idle
  | loaded (tail : Nat)
  | nonempty (tail : Nat)
  | took (tail : Nat) (item : α)

/-- The ring, both parties, and a history that no step reads: the successful
pushes with the slot each was written to, the successful pops, and the number
of stores to `tail_`. -/
structure State (α : Type) where
  ring : RingBuffer α
  producer : Producer α
  consumer : Consumer α
  pushed : List (Nat × α)
  popped : List α
  advances : Nat

/-- `push` and `pop` call and make the first load; `produce` and `consume` are
the next atomic step of the call in progress. -/
inductive Event (α : Type) where
  | push (call : Push) (item : α)
  | pop
  | produce
  | consume

def nextIndex (ring : RingBuffer α) (index : Nat) : Nat := (index + 1) &&& ring.mask

/-- One atomic step of `try_push` or `push_overwrite` after the load of `head_`. -/
def State.produce (s : State α) : Option (State α) :=
  match s.producer with
  | .idle => none
  | .loaded .tryPush item head =>
      if s.ring.nextIndex head = s.ring.tail then some { s with producer := .idle }
      else some { s with producer := .cleared item head }
  | .loaded .pushOverwrite item head =>
      some { s with
        ring := { s.ring with buffer := Function.update s.ring.buffer head item }
        producer := .wrote .pushOverwrite item head }
  | .cleared item head =>
      some { s with
        ring := { s.ring with buffer := Function.update s.ring.buffer head item }
        producer := .wrote .tryPush item head }
  | .wrote call item head =>
      some { s with
        ring := { s.ring with head := s.ring.nextIndex head }
        producer := call.afterStore (s.ring.nextIndex head)
        pushed := s.pushed ++ [(head, item)] }
  | .published nextHead =>
      if nextHead = s.ring.tail then some { s with producer := .bumping s.ring.tail }
      else some { s with producer := .idle }
  | .bumping tail =>
      some { s with
        ring := { s.ring with tail := s.ring.nextIndex tail }
        producer := .idle
        advances := s.advances + 1 }

/-- One atomic step of `try_pop` after the load of `tail_`. The move out of the
slot leaves `movedFrom` of what it held. -/
def State.consume (movedFrom : α → α) (s : State α) : Option (State α) :=
  match s.consumer with
  | .idle => none
  | .loaded tail =>
      if tail = s.ring.head then some { s with consumer := .idle }
      else some { s with consumer := .nonempty tail }
  | .nonempty tail =>
      some { s with
        ring := { s.ring with
          buffer := Function.update s.ring.buffer tail (movedFrom (s.ring.buffer tail)) }
        consumer := .took tail (s.ring.buffer tail) }
  | .took tail item =>
      some { s with
        ring := { s.ring with tail := s.ring.nextIndex tail }
        consumer := .idle
        popped := s.popped ++ [item]
        advances := s.advances + 1 }

def step (movedFrom : α → α) (s : State α) : Event α → Option (State α)
  | .push call item =>
      match s.producer with
      | .idle => some { s with producer := .loaded call item s.ring.head }
      | _ => none
  | .pop =>
      match s.consumer with
      | .idle => some { s with consumer := .loaded s.ring.tail }
      | _ => none
  | .produce => s.produce
  | .consume => s.consume movedFrom

def State.start (ring : RingBuffer α) : State α :=
  { ring := ring, producer := .idle, consumer := .idle, pushed := [], popped := [], advances := 0 }

/-- The items pushed so far, oldest first. -/
def State.items (s : State α) : List α := s.pushed.map Prod.snd

end RingBuffer
end UltraDisplay
