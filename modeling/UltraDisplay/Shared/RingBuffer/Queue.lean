import UltraDisplay.Shared.RingBuffer.Invariant
import UltraDisplay.Library.BoundedQueue
import UltraDisplay.Library.Simulation

/-! The ring called by one thread: each call is the run of its atomic steps that
nothing interrupts. Used so, the ring is a bounded queue of one item less than
it has slots. -/
namespace UltraDisplay.RingBuffer
open BoundedQueue (Call Answer)
open Transition (run)
variable {α : Type} {requested rounded dropped : Nat} {ring : RingBuffer α} {log : List α}

def store (ring : RingBuffer α) (item : α) : RingBuffer α :=
  { ring with
    buffer := Function.update ring.buffer ring.head item
    head := ring.nextIndex ring.head }

def tryPush (ring : RingBuffer α) (item : α) : RingBuffer α × Bool :=
  if ring.nextIndex ring.head = ring.tail then (ring, false) else (ring.store item, true)

def release (movedFrom : α → α) (ring : RingBuffer α) : RingBuffer α :=
  { ring with
    buffer := Function.update ring.buffer ring.tail (movedFrom (ring.buffer ring.tail))
    tail := ring.nextIndex ring.tail }

/-- The result is the item moved out, or none for `return false`. -/
def tryPop (movedFrom : α → α) (ring : RingBuffer α) : RingBuffer α × Option α :=
  if ring.tail = ring.head then (ring, none)
  else (ring.release movedFrom, some (ring.buffer ring.tail))

def bump (ring : RingBuffer α) : RingBuffer α := { ring with tail := ring.nextIndex ring.tail }

def pushOverwrite (ring : RingBuffer α) (item : α) : RingBuffer α :=
  if ring.nextIndex ring.head = ring.tail then (ring.store item).bump else ring.store item

def size (ring : RingBuffer α) : Nat :=
  if ring.head ≥ ring.tail then ring.head - ring.tail
  else ring.capacity - ring.tail + ring.head

def call (movedFrom : α → α) (ring : RingBuffer α) : Call α → RingBuffer α × Answer α
  | .tryPush item => ((ring.tryPush item).1, .pushed (ring.tryPush item).2)
  | .tryPop => ((ring.tryPop movedFrom).1, .popped (ring.tryPop movedFrom).2)
  | .pushOverwrite item => (ring.pushOverwrite item, .overwritten)
  | .size => (ring, .held ring.size)

/-- A call that nothing interrupts takes these atomic steps. -/
theorem tryPush_steps {s : State α} (movedFrom : α → α) (idle : s.producer = .idle) (item : α) :
    ∃ es t, run (step movedFrom) s (.push .tryPush item :: es) = some t ∧
      t.ring = (s.ring.tryPush item).1 ∧ t.producer = .idle ∧ t.consumer = s.consumer := by
  unfold tryPush
  by_cases full : s.ring.nextIndex s.ring.head = s.ring.tail
  · refine ⟨[.produce], { s with producer := .idle }, ?_, ?_, rfl, rfl⟩
    · simp only [run, step, State.produce, idle, Option.bind_some, if_pos full]
    · rw [if_pos full]
  · refine ⟨[.produce, .produce, .produce],
      { s with
        ring := s.ring.store item
        producer := .idle
        pushed := s.pushed ++ [(s.ring.head, item)] }, ?_, ?_, rfl, rfl⟩
    · simp only [run, step, State.produce, idle, Option.bind_some, if_neg full]
      rfl
    · rw [if_neg full]

theorem tryPop_steps {s : State α} (movedFrom : α → α) (idle : s.consumer = .idle) :
    ∃ es t, run (step movedFrom) s (.pop :: es) = some t ∧
      t.ring = (s.ring.tryPop movedFrom).1 ∧ t.consumer = .idle ∧ t.producer = s.producer ∧
      t.popped = s.popped ++ (s.ring.tryPop movedFrom).2.toList := by
  unfold tryPop
  by_cases empty : s.ring.tail = s.ring.head
  · refine ⟨[.consume], { s with consumer := .idle }, ?_, ?_, rfl, rfl, ?_⟩
    · simp only [run, step, State.consume, idle, Option.bind_some, if_pos empty]
    · rw [if_pos empty]
    · rw [if_pos empty, Option.toList_none, List.append_nil]
  · refine ⟨[.consume, .consume, .consume],
      { s with
        ring := s.ring.release movedFrom
        consumer := .idle
        popped := s.popped ++ [s.ring.buffer s.ring.tail]
        advances := s.advances + 1 }, ?_, ?_, rfl, rfl, ?_⟩
    · simp only [run, step, State.consume, idle, Option.bind_some, if_neg empty]
      rfl
    · rw [if_neg empty]
    · rw [if_neg empty, Option.toList_some]

theorem pushOverwrite_steps {s : State α} (movedFrom : α → α) (idle : s.producer = .idle)
    (item : α) :
    ∃ es t, run (step movedFrom) s (.push .pushOverwrite item :: es) = some t ∧
      t.ring = s.ring.pushOverwrite item ∧ t.producer = .idle ∧ t.consumer = s.consumer := by
  unfold pushOverwrite
  by_cases full : s.ring.nextIndex s.ring.head = s.ring.tail
  · refine ⟨[.produce, .produce, .produce, .produce],
      { s with
        ring := (s.ring.store item).bump
        producer := .idle
        pushed := s.pushed ++ [(s.ring.head, item)]
        advances := s.advances + 1 }, ?_, ?_, rfl, rfl⟩
    · have overtaken : (s.ring.head + 1) &&& s.ring.mask = s.ring.tail := full
      simp only [run, step, State.produce, idle, Option.bind_some, Push.afterStore, nextIndex,
        if_pos overtaken]
      rfl
    · rw [if_pos full]
  · refine ⟨[.produce, .produce, .produce],
      { s with
        ring := s.ring.store item
        producer := .idle
        pushed := s.pushed ++ [(s.ring.head, item)] }, ?_, ?_, rfl, rfl⟩
    · have behind : ¬ (s.ring.head + 1) &&& s.ring.mask = s.ring.tail := full
      simp only [run, step, State.produce, idle, Option.bind_some, Push.afterStore, nextIndex,
        if_neg behind]
      rfl
    · rw [if_neg full]

/-- `log` is everything pushed so far and `dropped` how much of it has left,
popped or overwritten. -/
structure Logged (ring : RingBuffer α) (log : List α) (dropped : Nat) : Prop where
  masked : ∀ index, ring.nextIndex index = (index + 1) % ring.capacity
  head : ring.head = log.length % ring.capacity
  tail : ring.tail = dropped % ring.capacity
  behind : dropped ≤ log.length
  room : log.length + 1 ≤ dropped + ring.capacity
  slots : CyclicLog.Holds ring.capacity ring.buffer log (dropped ≤ ·)

namespace Logged

theorem next_head (logged : Logged ring log dropped) :
    ring.nextIndex ring.head = (log.length + 1) % ring.capacity := by
  rw [logged.masked, logged.head, Nat.mod_add_mod]

/-- One slot stays empty, so that the ring is full one item early. -/
theorem full_iff (logged : Logged ring log dropped) :
    ring.nextIndex ring.head = ring.tail ↔ log.length + 1 = dropped + ring.capacity := by
  have behind := logged.behind
  have room := logged.room
  rw [logged.next_head, logged.tail]
  constructor
  · intro same
    by_contra short
    have := CyclicLog.residue_inj same.symm (by omega) (by omega)
    omega
  · intro full
    rw [full, Nat.add_mod_right]

theorem empty_iff (logged : Logged ring log dropped) :
    ring.tail = ring.head ↔ dropped = log.length := by
  have behind := logged.behind
  have room := logged.room
  rw [logged.head, logged.tail]
  constructor
  · intro same
    exact CyclicLog.residue_inj same behind (by omega)
  · intro same
    rw [same]

theorem store (logged : Logged ring log dropped)
    (free : log.length + 1 < dropped + ring.capacity) :
    Logged (ring.store item) (log ++ [item]) dropped := by
  have behind := logged.behind
  refine ⟨logged.masked, ?_, logged.tail, ?_, ?_, ?_⟩
  · rw [List.length_append, List.length_singleton]
    exact logged.next_head
  · rw [List.length_append, List.length_singleton]
    omega
  · rw [List.length_append, List.length_singleton]
    exact free
  · simp only [RingBuffer.store, logged.head]
    exact logged.slots.append item

theorem overwrite (logged : Logged ring log dropped)
    (full : log.length + 1 = dropped + ring.capacity) :
    Logged (ring.store item).bump (log ++ [item]) (dropped + 1) := by
  have room := logged.room
  have behind := logged.behind
  refine ⟨logged.masked, ?_, ?_, ?_, ?_, ?_⟩
  · rw [List.length_append, List.length_singleton]
    exact logged.next_head
  · change ring.nextIndex ring.tail = _
    rw [logged.masked, logged.tail, Nat.mod_add_mod]
    rfl
  · rw [List.length_append, List.length_singleton]
    omega
  · rw [List.length_append, List.length_singleton]
    change log.length + 1 + 1 ≤ dropped + 1 + ring.capacity
    omega
  · simp only [RingBuffer.store, logged.head]
    refine (logged.slots.append item).mono ?_
    intro j later
    omega

theorem oldest (logged : Logged ring log dropped) (found : log[dropped]? = some item) :
    ring.buffer ring.tail = item := by
  have room := logged.room
  rw [logged.tail]
  exact logged.slots dropped item (Nat.le_refl _) (by omega) found

theorem release (movedFrom : α → α) (logged : Logged ring log dropped)
    (held : dropped < log.length) : Logged (ring.release movedFrom) log (dropped + 1) := by
  have room := logged.room
  refine ⟨logged.masked, logged.head, ?_, held, ?_, ?_⟩
  · change ring.nextIndex ring.tail = _
    rw [logged.masked, logged.tail, Nat.mod_add_mod]
    rfl
  · change log.length + 1 ≤ dropped + 1 + ring.capacity
    omega
  · simp only [RingBuffer.release, logged.tail]
    refine (logged.slots.clobber (by omega) held _).mono ?_
    intro j later
    exact ⟨by omega, by omega⟩

end Logged

/-- The ring shows the queue: what it logged and has not dropped. -/
def Represents (ring : RingBuffer α) (queue : BoundedQueue α bound) : Prop :=
  ring.capacity = bound + 1 ∧ ∃ log dropped, Logged ring log dropped ∧ queue.items = log.drop dropped

namespace Represents
variable {bound : Nat} {queue : BoundedQueue α bound}

theorem held_length (logged : Logged ring log dropped) (same : queue.items = log.drop dropped) :
    log.length = dropped + queue.items.length := by
  have behind := logged.behind
  rw [same, List.length_drop]
  omega

theorem grown (logged : Logged ring log dropped) (same : queue.items = log.drop dropped) :
    queue.items ++ [item] = (log ++ [item]).drop dropped := by
  rw [same, List.drop_append_of_le_length logged.behind]

theorem tryPush (related : Represents ring queue) (item : α) :
    Represents (ring.tryPush item).1 (queue.tryPush item).1 ∧
      (ring.tryPush item).2 = (queue.tryPush item).2 := by
  obtain ⟨capacity, log, dropped, logged, same⟩ := related
  have held := held_length logged same
  have room := logged.room
  unfold RingBuffer.tryPush BoundedQueue.tryPush
  by_cases full : queue.items.length = bound
  · rw [if_pos (logged.full_iff.mpr (by omega)), dif_pos full]
    exact ⟨⟨capacity, log, dropped, logged, same⟩, rfl⟩
  · have free : log.length + 1 < dropped + ring.capacity := by omega
    rw [if_neg (fun shown => absurd (logged.full_iff.mp shown) (by omega)), dif_neg full]
    exact ⟨⟨capacity, _, dropped, logged.store free, grown logged same⟩, rfl⟩

theorem tryPop (movedFrom : α → α) (related : Represents ring queue) :
    Represents (ring.tryPop movedFrom).1 queue.tryPop.1 ∧
      (ring.tryPop movedFrom).2 = queue.tryPop.2 := by
  obtain ⟨capacity, log, dropped, logged, same⟩ := related
  have held := held_length logged same
  unfold RingBuffer.tryPop
  by_cases empty : dropped = log.length
  · have nothing : queue.items = [] := List.eq_nil_of_length_eq_zero (by omega)
    rw [if_pos (logged.empty_iff.mpr empty)]
    refine ⟨⟨capacity, log, dropped, logged, ?_⟩, ?_⟩
    · rw [BoundedQueue.tryPop_items, ← same, nothing, List.tail_nil]
    · rw [BoundedQueue.tryPop_item, nothing, List.head?_nil]
  · have inside : dropped < log.length := by omega
    have found : log[dropped]? = some log[dropped] := List.getElem?_eq_getElem inside
    rw [if_neg (fun shown => empty (logged.empty_iff.mp shown))]
    refine ⟨⟨capacity, log, dropped + 1, logged.release movedFrom inside, ?_⟩, ?_⟩
    · rw [BoundedQueue.tryPop_items, same, List.tail_drop]
    · rw [BoundedQueue.tryPop_item, logged.oldest found, same, List.head?_drop, found]

theorem pushOverwrite (related : Represents ring queue) (item : α) :
    Represents (ring.pushOverwrite item) (queue.pushOverwrite item) := by
  obtain ⟨capacity, log, dropped, logged, same⟩ := related
  have held := held_length logged same
  have room := logged.room
  unfold RingBuffer.pushOverwrite BoundedQueue.pushOverwrite
  by_cases full : queue.items.length = bound
  · have last : log.length + 1 = dropped + ring.capacity := by omega
    rw [if_pos (logged.full_iff.mpr last), dif_pos full]
    refine ⟨capacity, _, dropped + 1, logged.overwrite last, ?_⟩
    rw [BoundedQueue.rotate_items, grown logged same, List.tail_drop]
  · have free : log.length + 1 < dropped + ring.capacity := by omega
    rw [if_neg (fun shown => absurd (logged.full_iff.mp shown) (by omega)), dif_neg full]
    exact ⟨capacity, _, dropped, logged.store free, grown logged same⟩

theorem size (related : Represents ring queue) : ring.size = queue.size := by
  obtain ⟨capacity, log, dropped, logged, same⟩ := related
  have held := held_length logged same
  have room := logged.room
  rw [RingBuffer.size, logged.head, logged.tail,
    CyclicLog.residue_distance logged.behind (by omega), BoundedQueue.size]
  omega

theorem simulates (movedFrom : α → α) :
    Simulation.Simulates (call movedFrom) BoundedQueue.call
      (Represents : RingBuffer α → BoundedQueue α bound → Prop) := by
  intro ring queue c related
  cases c with
  | tryPush item =>
    obtain ⟨later, same⟩ := related.tryPush item
    exact ⟨later, congrArg Answer.pushed same⟩
  | tryPop =>
    obtain ⟨later, same⟩ := related.tryPop movedFrom
    exact ⟨later, congrArg Answer.popped same⟩
  | pushOverwrite item => exact ⟨related.pushOverwrite item, rfl⟩
  | size => exact ⟨related, congrArg Answer.held related.size⟩

theorem start [Inhabited α] (built : construct requested = some ring)
    (capacity : ring.capacity = bound + 1) :
    Represents ring (BoundedQueue.empty : BoundedQueue α bound) := by
  obtain ⟨head, tail, positive, masked⟩ := construct_spec built
  refine ⟨capacity, [], 0, ⟨masked, ?_, ?_, Nat.le_refl _, ?_, ?_⟩, rfl⟩
  · rw [head, List.length_nil, Nat.zero_mod]
  · rw [tail, Nat.zero_mod]
  · rw [List.length_nil]
    omega
  · intro j x _ _ found
    simp at found

end Represents

/-- For every request up to 2^63 the ring answers every list of calls as the
queue bounded by the rounded request less one does. -/
theorem refines_bounded_queue [Inhabited α] (movedFrom : α → α) (requested : Nat)
    (fits : requested ≤ 2 ^ 63) :
    ∃ ring : RingBuffer α, construct requested = some ring ∧
      ∀ calls, Simulation.answers (call movedFrom) ring calls =
        Simulation.answers BoundedQueue.call
          (BoundedQueue.empty : BoundedQueue α (2 ^ Nat.clog 2 requested - 1)) calls := by
  obtain ⟨ring, built, capacity⟩ := construct_clog (α := α) fits
  have slots : ring.capacity = 2 ^ Nat.clog 2 requested - 1 + 1 := by
    have := Nat.two_pow_pos (Nat.clog 2 requested)
    omega
  exact ⟨ring, built, (Represents.simulates movedFrom).answers_eq (Represents.start built slots)⟩

/-- A request of three gives a queue of three. -/
theorem refines_bounded_queue_three :
    ∃ ring : RingBuffer Nat, construct 3 = some ring ∧
      ∀ calls, Simulation.answers (call id) ring calls =
        Simulation.answers BoundedQueue.call
          (BoundedQueue.empty : BoundedQueue Nat (2 ^ Nat.clog 2 3 - 1)) calls :=
  refines_bounded_queue id 3 (by decide)

end UltraDisplay.RingBuffer
