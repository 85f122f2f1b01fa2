import UltraDisplay.Shared.RingBuffer.Interleaving
import UltraDisplay.Shared.RingBuffer.Queue
import UltraDisplay.Library.Linearization

/-! `size` called by either thread while the other one pushes or pops. It loads
`head_` first and `tail_` second, so a size of the producer acts at the second
load and one of the consumer already at the first. -/
namespace UltraDisplay.RingBuffer
open BoundedQueue (Call Answer)
open Linearization Transition
variable {α : Type} {requested bound : Nat}

inductive Side where
  | producer
  | consumer
  deriving DecidableEq

/-- The ring and both threads, with the `head_` that a `size` in progress loaded. -/
structure Counted (α : Type) where
  base : State α
  counting : Side → Option Nat

inductive CountedEvent (α : Type) where
  | other (e : Event α)
  | loadHead (side : Side)
  | loadTail (side : Side)

def Event.side : Event α → Side
  | .push _ _ | .produce => .producer
  | .pop | .consume => .consumer

def State.rests (s : State α) : Side → Prop
  | .producer => s.producer = .idle
  | .consumer => s.consumer = .idle

instance (s : State α) : (side : Side) → Decidable (s.rests side)
  | .producer => match place : s.producer with
    | .idle => isTrue place
    | .loaded .. | .cleared .. | .wrote .. | .published _ | .bumping _ =>
      isFalse fun idle => by simp [State.rests, place] at idle
  | .consumer => match place : s.consumer with
    | .idle => isTrue place
    | .loaded _ | .nonempty _ | .took .. => isFalse fun idle => by simp [State.rests, place] at idle

/-- What `size` returns for the two values it loaded. -/
def sizeFrom (ring : RingBuffer α) (head : Nat) : Nat := size { ring with head := head }

namespace Counted

def start (ring : RingBuffer α) : Counted α := ⟨State.start ring, fun _ => none⟩

def count (s : Counted α) (side : Side) (head : Option Nat) : Counted α :=
  { s with counting := Function.update s.counting side head }

theorem count_other {s : Counted α} {side other : Side} (different : other ≠ side)
    (head : Option Nat) : (s.count side head).counting other = s.counting other :=
  Function.update_of_ne different ..

/-- One atomic step; a thread in `size` makes no other call. -/
def step (movedFrom : α → α) (s : Counted α) : CountedEvent α → Option (Counted α)
  | .other e =>
      if s.counting e.side = none then
        (RingBuffer.step movedFrom s.base e).map fun base => { s with base := base }
      else none
  | .loadHead side =>
      if s.base.rests side ∧ s.counting side = none then some (s.count side (some s.base.ring.head))
      else none
  | .loadTail side => (s.counting side).map fun _ => s.count side none

end Counted

def Push.call (item : α) : Push → Call α
  | .tryPush => .tryPush item
  | .pushOverwrite => .pushOverwrite item

/-- What the producer's next step returns to its caller. -/
def State.pushAnswer (s : State α) : Option (Answer α) :=
  match s.producer with
  | .loaded .tryPush _ head => if s.ring.nextIndex head = s.ring.tail then some (.pushed false) else none
  | .wrote .tryPush _ _ => some (.pushed true)
  | .published nextHead => if nextHead = s.ring.tail then none else some .overwritten
  | .bumping _ => some .overwritten
  | _ => none

def State.popAnswer (s : State α) : Option (Answer α) :=
  match s.consumer with
  | .loaded tail => if tail = s.ring.head then some (.popped none) else none
  | .took _ item => some (.popped (some item))
  | _ => none

/-- Calls are seen with their first load and returns with the last access. -/
def Counted.sees (s : Counted α) : CountedEvent α → List (Action Side (Call α) (Answer α))
  | .other (.push call item) => [.invoke .producer (call.call item)]
  | .other .pop => [.invoke .consumer .tryPop]
  | .other .produce => (s.base.pushAnswer.map (.respond .producer)).toList
  | .other .consume => (s.base.popAnswer.map (.respond .consumer)).toList
  | .loadHead side => [.invoke side .size]
  | .loadTail side =>
      ((s.counting side).map fun head => .respond side (.held (s.base.ring.sizeFrom head))).toList

/-- The producer's calls have yet to act for as long as they run. -/
def Counted.PushPending (s : Counted α) (pending : Pending (Call α) (Answer α)) : Prop :=
  match s.counting .producer with
  | some head => s.base.producer = .idle ∧ head = s.base.ring.head ∧ pending = .called .size
  | none => match s.base.producer with
    | .loaded _ item _ | .cleared item _ | .wrote _ item _ => pending = .called (.tryPush item)
    | _ => pending = .none

/-- A pop has yet to act; a size has acted when it loaded `head_`, at that time
the number of pushes modulo the capacity. -/
def Counted.PopPending (s : Counted α) (pending : Pending (Call α) (Answer α)) : Prop :=
  match s.counting .consumer with
  | some head => s.base.consumer = .idle ∧ ∃ pushes, s.base.popped.length ≤ pushes ∧
      pushes < s.base.popped.length + s.base.ring.capacity ∧
      head = pushes % s.base.ring.capacity ∧
      pending = .answered (.held (pushes - s.base.popped.length))
  | none => match s.base.consumer with
    | .idle => pending = .none
    | _ => pending = .called .tryPop

/-- The ring shows the atomic queue: what was pushed and not popped. -/
structure Shows (s : Counted α) (a : Atomic (BoundedQueue α bound) Side (Call α) (Answer α)) :
    Prop where
  inv : Inv s.base
  plain : Plain s.base
  capacity : s.base.ring.capacity = bound + 1
  items : a.object.items = s.base.items.drop s.base.popped.length
  producer : s.PushPending (a.pending .producer)
  consumer : s.PopPending (a.pending .consumer)

namespace Counted

theorem PushPending.keep {s t : Counted α} {pending : Pending (Call α) (Answer α)}
    (shown : s.PushPending pending) (producer : t.base.producer = s.base.producer)
    (head : t.base.ring.head = s.base.ring.head)
    (counting : t.counting .producer = s.counting .producer) : t.PushPending pending := by
  unfold PushPending at shown ⊢
  rwa [producer, head, counting]

theorem PopPending.keep {s t : Counted α} {pending : Pending (Call α) (Answer α)}
    (shown : s.PopPending pending) (consumer : t.base.consumer = s.base.consumer)
    (popped : t.base.popped = s.base.popped) (capacity : t.base.ring.capacity = s.base.ring.capacity)
    (counting : t.counting .consumer = s.counting .consumer) : t.PopPending pending := by
  unfold PopPending at shown ⊢
  rwa [consumer, popped, capacity, counting]

end Counted

namespace Shows
variable {s : Counted α} {a : Atomic (BoundedQueue α bound) Side (Call α) (Answer α)}
  {base : State α}

theorem length (shows : Shows s a) :
    s.base.pushed.length = s.base.popped.length + a.object.items.length := by
  have behind := shows.inv.behind
  rw [shows.plain.advances] at behind
  rw [shows.items, List.length_drop, State.items, List.length_map]
  omega

/-- No step of the producer or of the consumer leaves the shape of a run without
overwriting pushes. -/
theorem base_step (movedFrom : α → α) (shows : Shows s a) {e : Event α}
    (plainCall : ∀ item, e ≠ .push .pushOverwrite item)
    (stepped : step movedFrom s.base e = some base) : Inv base ∧ Plain base :=
  ⟨step_inv movedFrom s.base e base shows.inv (shows.plain.undisturbed e) stepped,
    plain_step movedFrom shows.plain plainCall stepped⟩

theorem full_iff (shows : Shows s a) :
    s.base.ring.nextIndex (s.base.pushed.length % s.base.ring.capacity) = s.base.ring.tail ↔
      a.object.items.length = bound := by
  have held := shows.length
  have fits := a.object.fits
  have capacity := shows.capacity
  rw [shows.inv.masked, Nat.mod_add_mod, shows.inv.tail, shows.plain.advances]
  constructor
  · intro same
    by_contra free
    have := CyclicLog.residue_inj same.symm (by omega) (by omega)
    omega
  · intro full
    rw [held, full, Nat.add_assoc, ← capacity, Nat.add_mod_right]

theorem empty_iff (shows : Shows s a) :
    s.base.ring.tail = s.base.ring.head ↔ a.object.items = [] := by
  have held := shows.length
  have fits := a.object.fits
  have capacity := shows.capacity
  rw [shows.inv.tail, shows.inv.head, shows.plain.advances]
  constructor
  · intro same
    have := CyclicLog.residue_inj same (by omega) (by omega)
    exact List.eq_nil_of_length_eq_zero (by omega)
  · intro empty
    rw [held, empty, List.length_nil, Nat.add_zero]

theorem sizeFrom_eq (shows : Shows s a) {pushes : Nat} (behind : s.base.popped.length ≤ pushes)
    (room : pushes < s.base.popped.length + s.base.ring.capacity) :
    s.base.ring.sizeFrom (pushes % s.base.ring.capacity) = pushes - s.base.popped.length := by
  rw [sizeFrom, RingBuffer.size]
  simp only [shows.inv.tail, shows.plain.advances]
  exact CyclicLog.residue_distance behind room

theorem produce (movedFrom : α → α) (shows : Shows s a) (free : s.counting .producer = none)
    (stepped : s.base.produce = some base) :
    ∃ b, Moves BoundedQueue.call a ((s.base.pushAnswer.map (.respond .producer)).toList) b ∧
      Shows { s with base := base } b := by
  obtain ⟨inv, plain⟩ := shows.base_step movedFrom (e := .produce) (by simp) stepped
  have ready := shows.inv.producer
  have calls := shows.plain.producer
  have producer := shows.producer
  have different : Side.consumer ≠ .producer := by simp
  simp only [Counted.PushPending, free] at producer
  unfold State.produce at stepped
  unfold State.pushAnswer
  cases place : s.base.producer with
  | idle => simp [place] at stepped
  | published | bumping => simp [place] at calls
  | loaded call item head =>
    simp only [place, ProducerReady] at calls ready producer
    subst calls ready
    simp only [place] at stepped ⊢
    have full := shows.full_iff
    split at stepped
    case isTrue overflow =>
      cases Option.some.inj stepped
      have refused : BoundedQueue.call a.object (.tryPush item) = (a.object, .pushed false) := by
        simp [BoundedQueue.call, BoundedQueue.tryPush, full.mp overflow]
      rw [if_pos overflow]
      refine ⟨_, Moves.returns producer refused, inv, plain, shows.capacity, shows.items, ?_, ?_⟩
      · simp [Counted.PushPending, free]
      · rw [Atomic.set_other different]
        exact shows.consumer.keep rfl rfl rfl rfl
    case isFalse room =>
      cases Option.some.inj stepped
      rw [if_neg room]
      refine ⟨a, .rest, inv, plain, shows.capacity, shows.items, ?_,
        shows.consumer.keep rfl rfl rfl rfl⟩
      simpa [Counted.PushPending, free] using producer
  | cleared item head =>
    simp only [place, Option.some.injEq] at producer stepped ⊢
    subst base
    refine ⟨a, .rest, inv, plain, shows.capacity, shows.items, ?_,
      shows.consumer.keep rfl rfl rfl rfl⟩
    simpa [Counted.PushPending, free] using producer
  | wrote call item head =>
    simp only [place, ProducerReady] at calls ready producer
    subst calls
    simp only [place, Option.some.injEq] at stepped ready ⊢
    subst base
    have held := shows.length
    have room : a.object.items.length ≠ bound := by
      have := ready.2
      have := shows.plain.advances
      have := shows.capacity
      omega
    have accepted : BoundedQueue.call a.object (.tryPush item) =
        (a.object.append item room, .pushed true) := by
      simp [BoundedQueue.call, BoundedQueue.tryPush, room]
    refine ⟨_, Moves.returns producer accepted, inv, plain, shows.capacity, ?_, ?_, ?_⟩
    · have behind : s.base.popped.length ≤ s.base.items.length := by
        rw [State.items, List.length_map]
        omega
      simp only [Atomic.set_object, BoundedQueue.append, shows.items, State.items, List.map_append, List.map_cons, List.map_nil]
      exact (List.drop_append_of_le_length behind).symm
    · simp [Counted.PushPending, free, Push.afterStore]
    · rw [Atomic.set_other different]
      exact shows.consumer.keep rfl rfl rfl rfl

theorem oldest {tail : Nat} {item : α} (shows : Shows s a) (place : s.base.consumer = .took tail item) :
    a.object.items.head? = some item := by
  have undisturbed := shows.plain.undisturbed .consume
  simp only [TailUndisturbed, place, Consumer.Finds] at undisturbed
  obtain ⟨position, before, found, popped, _⟩ := shows.inv.taken place undisturbed
  have count := popped.length_le
  rw [List.length_take] at count
  have advances := shows.plain.advances
  obtain rfl : position = s.base.popped.length := by omega
  rw [shows.items, List.head?_drop, found]

theorem consume (movedFrom : α → α) (shows : Shows s a) (free : s.counting .consumer = none)
    (stepped : s.base.consume movedFrom = some base) :
    ∃ b, Moves BoundedQueue.call a ((s.base.popAnswer.map (.respond .consumer)).toList) b ∧
      Shows { s with base := base } b := by
  obtain ⟨inv, plain⟩ := shows.base_step movedFrom (e := .consume) (by simp) stepped
  have finds := shows.plain.consumer
  have consumer := shows.consumer
  have different : Side.producer ≠ .consumer := by simp
  simp only [Counted.PopPending, free] at consumer
  unfold State.consume at stepped
  unfold State.popAnswer
  cases place : s.base.consumer with
  | idle => simp [place] at stepped
  | loaded tail =>
    simp only [place] at finds consumer stepped ⊢
    subst finds
    have empty := shows.empty_iff
    split at stepped
    case isTrue same =>
      cases Option.some.inj stepped
      have nothing := empty.mp same
      have refused : BoundedQueue.call a.object .tryPop = (a.object, .popped none) := by
        have same : a.object.tryPop.1 = a.object := by
          rw [BoundedQueue.mk.injEq, BoundedQueue.tryPop_items, nothing, List.tail_nil]
        simp [BoundedQueue.call, nothing, same]
      rw [if_pos same]
      refine ⟨_, Moves.returns consumer refused, inv, plain, shows.capacity, shows.items, ?_, ?_⟩
      · rw [Atomic.set_other different]
        exact shows.producer.keep rfl rfl rfl
      · simp [Counted.PopPending, free]
    case isFalse several =>
      cases Option.some.inj stepped
      rw [if_neg several]
      refine ⟨a, .rest, inv, plain, shows.capacity, shows.items,
        shows.producer.keep rfl rfl rfl, ?_⟩
      simpa [Counted.PopPending, free] using consumer
  | nonempty tail =>
    simp only [place, Option.some.injEq] at consumer stepped ⊢
    subst base
    refine ⟨a, .rest, inv, plain, shows.capacity, shows.items, shows.producer.keep rfl rfl rfl, ?_⟩
    simpa [Counted.PopPending, free] using consumer
  | took tail item =>
    simp only [place, Option.some.injEq] at consumer stepped ⊢
    subst base
    have answer : BoundedQueue.call a.object .tryPop = (a.object.tryPop.1, .popped (some item)) := by
      simp only [BoundedQueue.call, BoundedQueue.tryPop_item, shows.oldest place]
    refine ⟨_, Moves.returns consumer answer, inv, plain, shows.capacity, ?_, ?_, ?_⟩
    · simp only [Atomic.set_object, BoundedQueue.tryPop_items, shows.items, List.tail_drop,
        List.length_append, List.length_singleton]
      rfl
    · rw [Atomic.set_other different]
      exact shows.producer.keep rfl rfl rfl
    · simp [Counted.PopPending, free]

theorem push (movedFrom : α → α) {item : α} (shows : Shows s a) (free : s.counting .producer = none)
    (stepped : step movedFrom s.base (.push .tryPush item) = some base) :
    ∃ b, Moves BoundedQueue.call a [.invoke .producer (.tryPush item)] b ∧
      Shows { s with base := base } b := by
  obtain ⟨inv, plain⟩ := shows.base_step movedFrom (by simp) stepped
  have producer := shows.producer
  have different : Side.consumer ≠ .producer := by simp
  simp only [step] at stepped
  split at stepped
  · rename_i idle
    cases Option.some.inj stepped
    simp only [Counted.PushPending, free, idle] at producer
    refine ⟨_, .invoke producer .rest, inv, plain, shows.capacity, shows.items, ?_, ?_⟩
    · simp [Counted.PushPending, free]
    · rw [Atomic.set_other different]
      exact shows.consumer.keep rfl rfl rfl rfl
  · contradiction

theorem pop (movedFrom : α → α) (shows : Shows s a) (free : s.counting .consumer = none)
    (stepped : step movedFrom s.base .pop = some base) :
    ∃ b, Moves BoundedQueue.call a [.invoke .consumer .tryPop] b ∧
      Shows { s with base := base } b := by
  obtain ⟨inv, plain⟩ := shows.base_step movedFrom (by simp) stepped
  have consumer := shows.consumer
  have different : Side.producer ≠ .consumer := by simp
  simp only [step] at stepped
  split at stepped
  · rename_i idle
    cases Option.some.inj stepped
    simp only [Counted.PopPending, free, idle] at consumer
    refine ⟨_, .invoke consumer .rest, inv, plain, shows.capacity, shows.items, ?_, ?_⟩
    · rw [Atomic.set_other different]
      exact shows.producer.keep rfl rfl rfl
    · simp [Counted.PopPending, free]
  · contradiction

/-- The first load of `size`. What the consumer will return is settled here: only
its own pops could move `tail_` before the second load. -/
theorem loadHead (side : Side) (shows : Shows s a) (rests : s.base.rests side)
    (free : s.counting side = none) :
    ∃ b, Moves BoundedQueue.call a [.invoke side .size] b ∧
      Shows (s.count side (some s.base.ring.head)) b := by
  have held := shows.length
  have fits := a.object.fits
  have capacity := shows.capacity
  cases side with
  | producer =>
    have producer := shows.producer
    have different : Side.consumer ≠ .producer := by simp
    have idle : s.base.producer = .idle := rests
    simp only [Counted.PushPending, free, idle] at producer
    refine ⟨_, .invoke producer .rest, shows.inv, shows.plain, capacity, shows.items, ?_, ?_⟩
    · simp [Counted.PushPending, Counted.count, idle]
    · rw [Atomic.set_other different]
      exact shows.consumer.keep rfl rfl rfl (Counted.count_other different _)
  | consumer =>
    have consumer := shows.consumer
    have different : Side.producer ≠ .consumer := by simp
    have idle : s.base.consumer = .idle := rests
    simp only [Counted.PopPending, free, idle] at consumer
    refine ⟨_, .invoke consumer (.act (Atomic.set_self ..) .rest), shows.inv, shows.plain, capacity,
      shows.items, ?_, ?_⟩
    · rw [Atomic.act_other different, Atomic.set_other different]
      exact shows.producer.keep rfl rfl (Counted.count_other different _)
    · simp only [Counted.PopPending, Counted.count, Function.update_self]
      refine ⟨idle, s.base.pushed.length, by omega, by omega, shows.inv.head, ?_⟩
      rw [Atomic.act_self]
      simp only [BoundedQueue.call, Atomic.set_object, BoundedQueue.size]
      rw [held, Nat.add_sub_cancel_left]

theorem loadTail {head : Nat} (side : Side) (shows : Shows s a) (counting : s.counting side = some head) :
    ∃ b, Moves BoundedQueue.call a [.respond side (.held (s.base.ring.sizeFrom head))] b ∧
      Shows (s.count side none) b := by
  have held := shows.length
  have fits := a.object.fits
  have capacity := shows.capacity
  cases side with
  | producer =>
    have producer := shows.producer
    have different : Side.consumer ≠ .producer := by simp
    simp only [Counted.PushPending, counting] at producer
    obtain ⟨idle, rfl, called⟩ := producer
    have answer : BoundedQueue.call a.object .size =
        (a.object, .held (s.base.ring.sizeFrom s.base.ring.head)) := by
      rw [shows.inv.head, shows.sizeFrom_eq (by omega) (by omega), held, Nat.add_sub_cancel_left]
      rfl
    refine ⟨_, Moves.returns called answer, shows.inv, shows.plain, capacity, shows.items, ?_, ?_⟩
    · simp [Counted.PushPending, Counted.count, idle]
    · rw [Atomic.set_other different]
      exact shows.consumer.keep rfl rfl rfl (Counted.count_other different _)
  | consumer =>
    have consumer := shows.consumer
    have different : Side.producer ≠ .consumer := by simp
    simp only [Counted.PopPending, counting] at consumer
    obtain ⟨idle, pushes, behind, room, rfl, answered⟩ := consumer
    rw [shows.sizeFrom_eq behind room]
    refine ⟨_, .respond answered .rest, shows.inv, shows.plain, capacity, shows.items, ?_, ?_⟩
    · rw [Atomic.set_other different]
      exact shows.producer.keep rfl rfl (Counted.count_other different _)
    · simp [Counted.PopPending, Counted.count, idle]

/-- One case for each atomic step of either thread. -/
theorem moves_step (movedFrom : α → α) (shows : Shows s a) {e : CountedEvent α} {t : Counted α}
    (tryCall : ∀ item, e ≠ .other (.push .pushOverwrite item))
    (stepped : s.step movedFrom e = some t) :
    ∃ b, Moves BoundedQueue.call a (s.sees e) b ∧ Shows t b := by
  cases e with
  | loadHead side =>
    obtain ⟨⟨rests, free⟩, moved⟩ := Option.ite_none_right_eq_some.mp stepped
    cases Option.some.inj moved
    exact shows.loadHead side rests free
  | loadTail side =>
    obtain ⟨head, counting, rfl⟩ := Option.map_eq_some_iff.mp stepped
    simp only [Counted.sees, counting]
    exact shows.loadTail side counting
  | other e =>
    obtain ⟨free, moved⟩ := Option.ite_none_right_eq_some.mp stepped
    obtain ⟨base, inner, rfl⟩ := Option.map_eq_some_iff.mp moved
    clear stepped moved
    cases e with
    | push call item =>
      cases call with
      | tryPush => exact shows.push movedFrom free inner
      | pushOverwrite => exact absurd rfl (tryCall item)
    | pop => exact shows.pop movedFrom free inner
    | produce => exact shows.produce movedFrom free inner
    | consume => exact shows.consume movedFrom free inner

theorem start [Inhabited α] {ring : RingBuffer α} (built : construct requested = some ring)
    (capacity : ring.capacity = bound + 1) :
    Shows (Counted.start ring)
      (Atomic.start (BoundedQueue.empty : BoundedQueue α bound)) :=
  ⟨start_inv built, ⟨trivial, rfl, trivial⟩, capacity, rfl, rfl, rfl⟩

end Shows

/-- Under every schedule of `try_push`, `try_pop` and `size`, each made by the
thread it belongs to and `size` by either, the ring answers as a bounded queue
whose calls act at one instant. -/
theorem linearizable [Inhabited α] (movedFrom : α → α) {ring : RingBuffer α} {s : Counted α}
    (built : construct requested = some ring) (es : List (CountedEvent α))
    (tryOnly : ∀ item, CountedEvent.other (.push .pushOverwrite item) ∉ es)
    (reached : run (Counted.step movedFrom) (Counted.start ring) es = some s) :
    Linearizable BoundedQueue.call (BoundedQueue.empty : BoundedQueue α (ring.capacity - 1))
      (history (Counted.step movedFrom) Counted.sees (Counted.start ring) es) := by
  have positive := (construct_spec built).2.2.1
  have shows : Shows (Counted.start ring)
      (Atomic.start (BoundedQueue.empty : BoundedQueue α (ring.capacity - 1))) :=
    Shows.start built (by omega)
  have guarded : Guarded (Counted.step movedFrom)
      (fun _ e => ∀ item, e ≠ .other (.push .pushOverwrite item)) (Counted.start ring) es := by
    apply Guarded.of_forall
    rintro e member item rfl
    exact tryOnly item member
  obtain ⟨b, moves, _⟩ := moves_of_simulation
    (fun _ _ _ _ tryCall shows stepped => shows.moves_step movedFrom tryCall stepped)
    shows guarded reached
  exact ⟨b, moves⟩

/-- A size of the consumer overlaps the store that ends a push: it loads `head_`
before and returns after, and so counts nothing. -/
theorem linearizable_overlap : ∃ ring : RingBuffer Nat, construct 2 = some ring ∧
    ∃ es s, run (Counted.step id) (Counted.start ring) es = some s ∧
      history (Counted.step id) Counted.sees (Counted.start ring) es =
        [.invoke .producer (.tryPush 5), .invoke .consumer .size, .respond .producer (.pushed true),
          .respond .consumer (.held 0)] ∧
      Linearizable BoundedQueue.call (BoundedQueue.empty : BoundedQueue Nat (ring.capacity - 1))
        (history (Counted.step id) Counted.sees (Counted.start ring) es) := by
  refine ⟨_, rfl, [.other (.push .tryPush 5), .other .produce, .other .produce, .loadHead .consumer,
    .other .produce, .loadTail .consumer], _, rfl, rfl, ?_⟩
  exact linearizable id (show construct 2 = some _ from rfl) _ (by simp) rfl

end UltraDisplay.RingBuffer
