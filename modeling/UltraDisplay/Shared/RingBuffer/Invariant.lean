import UltraDisplay.Shared.RingBuffer
import UltraDisplay.Library.CyclicLog
import UltraDisplay.Library.Transition

/-! The invariant of the ring under every interleaving of one producer and one
consumer. Both indices are read as unbounded positions: `head_` is the number
of pushes and `tail_` the number of stores to it, each modulo the capacity. -/
namespace UltraDisplay.RingBuffer
variable {α : Type} {requested head tail : Nat}

def Producer.inFlight : Producer α → List α
  | .wrote _ item _ => [item]
  | _ => []

@[simp] theorem Push.inFlight_afterStore (call : Push) (nextHead : Nat) :
    (call.afterStore nextHead : Producer α).inFlight = [] := by
  cases call <;> rfl

/-- Slots that must stay free: one, except between the store of `head_` and the
end of a `push_overwrite`, when the ring may be over-full by one item. -/
def Producer.gap : Producer α → Nat
  | .published _ | .bumping _ => 0
  | _ => 1

/-- The items whose slot has been written, with or without `head_` moved. -/
def State.written (s : State α) : List α := s.items ++ s.producer.inFlight

def State.Holds (s : State α) (live : Nat → Prop) : Prop :=
  CyclicLog.Holds s.ring.capacity s.ring.buffer s.written live

def ProducerReady (s : State α) : Prop :=
  match s.producer with
  | .idle => True
  | .loaded _ _ head | .wrote .pushOverwrite _ head => head = s.pushed.length % s.ring.capacity
  | .cleared _ head | .wrote .tryPush _ head =>
      head = s.pushed.length % s.ring.capacity ∧
        s.pushed.length + 1 < s.advances + s.ring.capacity
  | .published nextHead => nextHead = s.pushed.length % s.ring.capacity
  | .bumping tail => tail = s.pushed.length % s.ring.capacity

/-- `start` is the position `tail_` had when the pop loaded it. The producer may
have moved `tail_` since; an item is then read that is newer than `start`. -/
def ConsumerReady (s : State α) : Prop :=
  match s.consumer with
  | .idle => s.popped.Sublist (s.items.take s.advances) ∧ s.Holds (s.advances ≤ ·)
  | .loaded tail => ∃ start ≤ s.advances, tail = start % s.ring.capacity ∧
      (start = s.advances ∨ s.advances + s.ring.capacity ≤ s.pushed.length + 1) ∧
      s.popped.Sublist (s.items.take start) ∧ s.Holds (start ≤ ·)
  | .nonempty tail => 1 < s.ring.capacity ∧ s.advances < s.pushed.length ∧
      ∃ start ≤ s.advances, tail = start % s.ring.capacity ∧
      s.popped.Sublist (s.items.take start) ∧ s.Holds (start ≤ ·)
  | .took tail item => 1 < s.ring.capacity ∧ s.advances < s.pushed.length ∧
      ∃ position, tail = position % s.ring.capacity ∧
      s.popped.Sublist (s.items.take position) ∧ s.written[position]? = some item ∧
      s.Holds (fun j => s.advances ≤ j ∧ j ≠ position)

structure Inv (s : State α) : Prop where
  masked : ∀ index, s.ring.nextIndex index = (index + 1) % s.ring.capacity
  positive : 0 < s.ring.capacity
  head : s.ring.head = s.pushed.length % s.ring.capacity
  tail : s.ring.tail = s.advances % s.ring.capacity
  behind : s.advances ≤ s.pushed.length
  room : s.pushed.length + s.producer.gap ≤ s.advances + s.ring.capacity
  slots : ∀ j entry, s.pushed[j]? = some entry → entry.1 = j % s.ring.capacity
  producer : ProducerReady s
  consumer : ConsumerReady s

/-- A pop about to store `tail_` finds there the index it loaded. -/
def Consumer.Finds (tail : Nat) : Consumer α → Prop
  | .took index _ => tail = index
  | _ => True

/-- A push about to store `tail_` has `limit` items in the ring. -/
def Producer.Overfull (held limit : Nat) : Producer α → Prop
  | .bumping _ => held = limit
  | _ => True

/-- The condition under which the two read-modify-write sequences on `tail_` do
not interfere: a pop stores over the index it loaded, and an overwriting push
stores only while the ring really holds one item too many. -/
def TailUndisturbed (s : State α) : Event α → Prop
  | .consume => s.consumer.Finds s.ring.tail
  | .produce => s.producer.Overfull s.pushed.length (s.advances + s.ring.capacity)
  | .push _ _ | .pop => True

instance (tail : Nat) : (consumer : Consumer α) → Decidable (consumer.Finds tail)
  | .took index _ => inferInstanceAs (Decidable (tail = index))
  | .idle | .loaded _ | .nonempty _ => inferInstanceAs (Decidable True)

instance (held limit : Nat) : (producer : Producer α) → Decidable (producer.Overfull held limit)
  | .bumping _ => inferInstanceAs (Decidable (held = limit))
  | .idle | .loaded _ _ _ | .cleared _ _ | .wrote _ _ _ | .published _ =>
      inferInstanceAs (Decidable True)

instance (s : State α) : (e : Event α) → Decidable (TailUndisturbed s e)
  | .push _ _ | .pop => inferInstanceAs (Decidable True)
  | .produce => inferInstanceAs (Decidable (s.producer.Overfull _ _))
  | .consume => inferInstanceAs (Decidable (s.consumer.Finds _))

theorem construct_spec [Inhabited α] {ring : RingBuffer α}
    (built : construct requested = some ring) :
    ring.head = 0 ∧ ring.tail = 0 ∧ 0 < ring.capacity ∧
      ∀ index, ring.nextIndex index = (index + 1) % ring.capacity := by
  obtain ⟨rounded, returned, rfl⟩ := Option.map_eq_some_iff.mp built
  obtain ⟨j, rfl⟩ := roundedCapacity_pow returned
  refine ⟨rfl, rfl, Nat.two_pow_pos j, ?_⟩
  intro index
  exact Nat.and_two_pow_sub_one_eq_mod _ _

theorem start_inv [Inhabited α] {ring : RingBuffer α} (built : construct requested = some ring) :
    Inv (State.start ring) := by
  obtain ⟨head, tail, positive, masked⟩ := construct_spec built
  refine ⟨masked, positive, ?_, ?_, Nat.le_refl _, ?_, by simp [State.start], trivial, ?_⟩
  · simpa [State.start] using head
  · simpa [State.start] using tail
  · simp only [State.start, List.length_nil, Producer.gap]
    omega
  · refine ⟨by simp [State.start], ?_⟩
    intro j x _ _ found
    simp [State.written, State.items, State.start, Producer.inFlight] at found

/-- What the consumer relies on survives any step that keeps its own data and
only adds written items. -/
theorem ConsumerReady.grow {s t : State α} (ready : ConsumerReady s)
    (consumer : t.consumer = s.consumer) (popped : t.popped = s.popped)
    (advances : t.advances = s.advances) (capacity : t.ring.capacity = s.ring.capacity)
    (items : s.items <+: t.items) (written : s.written <+: t.written)
    (holds : ∀ live, s.Holds live → t.Holds live) : ConsumerReady t := by
  have longer : s.pushed.length ≤ t.pushed.length := by
    simpa [State.items] using items.length_le
  have kept (n : Nat) (popped : s.popped.Sublist (s.items.take n)) :
      s.popped.Sublist (t.items.take n) :=
    popped.trans (items.take n).sublist
  unfold ConsumerReady at ready ⊢
  rw [consumer, popped, advances, capacity]
  cases place : s.consumer with
  | idle =>
    simp only [place] at ready
    exact ⟨kept _ ready.1, holds _ ready.2⟩
  | loaded tail =>
    simp only [place] at ready
    obtain ⟨start, before, same, jumped, popped, held⟩ := ready
    exact ⟨start, before, same, by omega, kept _ popped, holds _ held⟩
  | nonempty tail =>
    simp only [place] at ready
    obtain ⟨several, below, start, before, same, popped, held⟩ := ready
    exact ⟨several, by omega, start, before, same, kept _ popped, holds _ held⟩
  | took tail item =>
    simp only [place] at ready
    obtain ⟨several, below, position, same, popped, read, held⟩ := ready
    refine ⟨several, by omega, position, same, kept _ popped, ?_, holds _ held⟩
    obtain ⟨more, same⟩ := written
    rw [← same, List.getElem?_append_left (List.getElem?_eq_some_iff.mp read).1]
    exact read

theorem written_idle {s : State α} (rests : s.producer.inFlight = []) : s.written = s.items := by
  rw [State.written, rests, List.append_nil]

theorem written_length {s : State α} (rests : s.producer.inFlight = []) :
    s.written.length = s.pushed.length := by
  rw [written_idle rests, State.items, List.length_map]

/-- The slot write of either push call: the new item takes the slot `head_`
points at and every other written item keeps its own. -/
theorem write_inv {s : State α} (inv : Inv s) (rests : s.producer.inFlight = [])
    (gap : s.producer.gap = 1) (index : head = s.pushed.length % s.ring.capacity)
    (ready : call = .tryPush → s.pushed.length + 1 < s.advances + s.ring.capacity) :
    Inv { s with
      ring := { s.ring with buffer := Function.update s.ring.buffer head item }
      producer := .wrote call item head } := by
  have grown : s.written ++ [item] = s.items ++ [item] := by rw [written_idle rests]
  refine ⟨inv.masked, inv.positive, inv.head, inv.tail, inv.behind, ?_, inv.slots, ?_, ?_⟩
  · have room := inv.room
    rw [gap] at room
    exact room
  · cases call with
    | tryPush => exact ⟨index, ready rfl⟩
    | pushOverwrite => exact index
  · refine inv.consumer.grow rfl rfl rfl rfl (List.prefix_refl _) ?_ ?_
    · change s.written <+: s.items ++ [item]
      exact grown ▸ List.prefix_append _ _
    · intro live held
      change CyclicLog.Holds _ _ (s.items ++ [item]) live
      rw [← grown, index, ← written_length rests]
      exact held.append item

theorem publish_inv {s : State α} (inv : Inv s) (place : s.producer = .wrote call item head) :
    Inv { s with
      ring := { s.ring with head := s.ring.nextIndex head }
      producer := call.afterStore (s.ring.nextIndex head)
      pushed := s.pushed ++ [(head, item)] } := by
  have ready := inv.producer
  have room := inv.room
  simp only [ProducerReady, place] at ready
  simp only [place, Producer.gap] at room
  have index : head = s.pushed.length % s.ring.capacity := by
    cases call with
    | tryPush => exact ready.1
    | pushOverwrite => exact ready
  have next : s.ring.nextIndex head = (s.pushed.length + 1) % s.ring.capacity := by
    rw [inv.masked, index, Nat.mod_add_mod]
  have behind := inv.behind
  refine ⟨inv.masked, inv.positive, ?_, inv.tail, ?_, ?_, ?_, ?_, ?_⟩
  · simpa using next
  · simp only [List.length_append, List.length_singleton]
    omega
  · rw [List.length_append, List.length_singleton]
    cases call with
    | tryPush =>
      simp only [Push.afterStore, Producer.gap]
      omega
    | pushOverwrite =>
      simp only [Push.afterStore, Producer.gap]
      omega
  · intro j entry found
    by_cases older : j < s.pushed.length
    · rw [List.getElem?_append_left older] at found
      exact inv.slots j entry found
    · have bound := (List.getElem?_eq_some_iff.mp found).1
      rw [List.length_append, List.length_singleton] at bound
      obtain rfl : j = s.pushed.length := by omega
      rw [List.getElem?_concat_length] at found
      cases Option.some.inj found
      exact index
  · cases call with
    | tryPush => trivial
    | pushOverwrite => simpa [ProducerReady, Push.afterStore] using next
  · have items : s.written = (s.pushed ++ [(head, item)]).map Prod.snd := by
      simp [State.written, place, Producer.inFlight, State.items]
    refine inv.consumer.grow rfl rfl rfl rfl ?_ ?_ ?_
    · simp [State.items]
    · rw [items]
      exact List.prefix_append _ _
    · intro live held
      rw [State.Holds, items] at held
      simpa only [State.Holds, State.written, State.items, Push.inFlight_afterStore,
        List.append_nil] using held

theorem bump_inv {s : State α} (inv : Inv s) (place : s.producer = .bumping tail)
    (full : s.pushed.length = s.advances + s.ring.capacity) :
    Inv { s with
      ring := { s.ring with tail := s.ring.nextIndex tail }
      producer := .idle
      advances := s.advances + 1 } := by
  have ready := inv.producer
  simp only [ProducerReady, place] at ready
  have positive := inv.positive
  have same : s.written = s.items := written_idle (by rw [place]; rfl)
  have consumer := inv.consumer
  refine ⟨inv.masked, inv.positive, inv.head, ?_, ?_, ?_, inv.slots, trivial, ?_⟩
  · change s.ring.nextIndex tail = (s.advances + 1) % s.ring.capacity
    rw [inv.masked, ready, full, Nat.add_mod_right, Nat.mod_add_mod]
  · change s.advances + 1 ≤ s.pushed.length
    omega
  · change s.pushed.length + 1 ≤ s.advances + 1 + s.ring.capacity
    omega
  · have shown (live : Nat → Prop) (held : s.Holds live) :
        CyclicLog.Holds s.ring.capacity s.ring.buffer (s.items ++ []) live := by
      rw [List.append_nil, ← same]
      exact held
    unfold ConsumerReady at consumer ⊢
    cases at' : s.consumer with
    | idle =>
      simp only [at'] at consumer ⊢
      refine ⟨consumer.1.trans (List.take_sublist_take_left (by omega)), ?_⟩
      exact (shown _ consumer.2).mono fun j here => by omega
    | loaded tail =>
      simp only [at'] at consumer ⊢
      obtain ⟨start, before, index, _, popped, held⟩ := consumer
      exact ⟨start, by omega, index, by right; omega, popped, shown _ held⟩
    | nonempty tail =>
      simp only [at'] at consumer ⊢
      obtain ⟨several, below, start, before, index, popped, held⟩ := consumer
      exact ⟨several, by omega, start, by omega, index, popped, shown _ held⟩
    | took tail item =>
      simp only [at'] at consumer ⊢
      obtain ⟨several, below, position, index, popped, read, held⟩ := consumer
      refine ⟨several, by omega, position, index, popped, ?_, ?_⟩
      · change (s.items ++ [])[position]? = some item
        rw [List.append_nil, ← same]
        exact read
      · exact (shown _ held).mono fun j here => ⟨by omega, here.2⟩

theorem Inv.withProducer {s : State α} (inv : Inv s) {place : Producer α}
    (before : s.producer.inFlight = []) (after : place.inFlight = [])
    (room : s.pushed.length + place.gap ≤ s.advances + s.ring.capacity)
    (ready : ProducerReady { s with producer := place }) : Inv { s with producer := place } := by
  have same : State.written { s with producer := place } = s.written := by
    rw [written_idle before, written_idle (by exact after)]
    rfl
  refine ⟨inv.masked, inv.positive, inv.head, inv.tail, inv.behind, room, inv.slots, ready, ?_⟩
  refine inv.consumer.grow rfl rfl rfl rfl (List.prefix_refl _) (by rw [same]) ?_
  intro live held
  rw [State.Holds, same]
  exact held

theorem Inv.short_of_full {s : State α} (inv : Inv s) {index : Nat}
    (most : index ≤ s.advances + s.ring.capacity) (distinct : index % s.ring.capacity ≠ s.ring.tail) :
    index < s.advances + s.ring.capacity := by
  refine Nat.lt_of_le_of_ne most ?_
  intro full
  apply distinct
  rw [full, Nat.add_mod_right, inv.tail]

theorem produce_inv {s t : State α} (inv : Inv s) (undisturbed : TailUndisturbed s .produce)
    (stepped : s.produce = some t) : Inv t := by
  have ready := inv.producer
  have room := inv.room
  unfold State.produce at stepped
  cases place : s.producer with
  | idle => simp [place] at stepped
  | loaded call item head =>
    simp only [ProducerReady, place, Producer.gap] at ready room
    cases call with
    | tryPush =>
      simp only [place] at stepped
      split at stepped
      · cases Option.some.inj stepped
        exact inv.withProducer (by rw [place]; rfl) rfl room trivial
      · rename_i free
        cases Option.some.inj stepped
        rw [inv.masked, ready, Nat.mod_add_mod] at free
        exact inv.withProducer (by rw [place]; rfl) rfl room ⟨ready, inv.short_of_full room free⟩
    | pushOverwrite =>
      simp only [place, Option.some.injEq] at stepped
      subst t
      exact write_inv inv (by rw [place]; rfl) (by rw [place]; rfl) ready (by intro same; cases same)
  | cleared item head =>
    simp only [ProducerReady, place] at ready
    simp only [place, Option.some.injEq] at stepped
    subst t
    exact write_inv inv (by rw [place]; rfl) (by rw [place]; rfl) ready.1 (fun _ => ready.2)
  | wrote call item head =>
    simp only [place, Option.some.injEq] at stepped
    subst t
    exact publish_inv inv place
  | published nextHead =>
    simp only [ProducerReady, place, Producer.gap] at ready room
    simp only [place] at stepped
    split at stepped
    · rename_i overflow
      cases Option.some.inj stepped
      exact inv.withProducer (by rw [place]; rfl) rfl room (overflow.symm.trans ready)
    · rename_i distinct
      cases Option.some.inj stepped
      rw [ready] at distinct
      exact inv.withProducer (by rw [place]; rfl) rfl (inv.short_of_full room distinct) trivial
  | bumping tail =>
    simp only [TailUndisturbed, place, Producer.Overfull] at undisturbed
    simp only [place, Option.some.injEq] at stepped
    subst t
    exact bump_inv inv place undisturbed

/-- The slot read. A consumer whose index is stale reads whatever the producer
has put there since, which is newer than every item popped before. -/
theorem take_inv {s : State α} (movedFrom : α → α) (inv : Inv s)
    (place : s.consumer = .nonempty tail) :
    Inv { s with
      ring := { s.ring with
        buffer := Function.update s.ring.buffer tail (movedFrom (s.ring.buffer tail)) }
      consumer := .took tail (s.ring.buffer tail) } := by
  have ready := inv.consumer
  simp only [ConsumerReady, place] at ready
  obtain ⟨several, below, start, before, index, popped, held⟩ := ready
  have longer : s.pushed.length ≤ s.written.length := by
    simp [State.written, State.items]
  obtain ⟨position, item, later, aliased, window, read, found⟩ :=
    held.read inv.positive (v := start) (by omega) (fun j here => here)
  rw [← index] at aliased found
  have inside := (List.getElem?_eq_some_iff.mp read).1
  refine ⟨inv.masked, inv.positive, inv.head, inv.tail, inv.behind, inv.room, inv.slots,
    inv.producer, several, below, position, aliased.symm, ?_, ?_, ?_⟩
  · exact popped.trans (List.take_sublist_take_left later)
  · rw [found]
    exact read
  · have taken := held.clobber window inside (movedFrom (s.ring.buffer tail))
    rw [aliased] at taken
    exact taken.mono fun j here => ⟨before.trans here.1, here.2⟩

/-- The item a pop holds when it finds `tail_` as it loaded it. It lies at or
before the position being released, so after all items popped earlier. -/
theorem Inv.taken {s : State α} (inv : Inv s) (place : s.consumer = .took tail item)
    (undisturbed : s.ring.tail = tail) :
    ∃ position ≤ s.advances, s.items[position]? = some item ∧
      s.popped.Sublist (s.items.take position) ∧
      s.Holds (fun j => s.advances ≤ j ∧ j ≠ position) := by
  have ready := inv.consumer
  simp only [ConsumerReady, place] at ready
  obtain ⟨_, below, position, index, popped, read, held⟩ := ready
  have room := inv.room
  have aliased : s.advances % s.ring.capacity = position % s.ring.capacity := by
    rw [← inv.tail, undisturbed, index]
  have inside : position < s.written.length := (List.getElem?_eq_some_iff.mp read).1
  have released : position ≤ s.advances := by
    by_contra ahead
    have far : position < s.advances + s.ring.capacity := by
      -- an item in flight counts as written, but then one slot is still free
      cases at' : s.producer with
      | wrote call item head =>
        simp only [at', Producer.gap] at room
        simp only [State.written, at', Producer.inFlight, State.items, List.length_append,
          List.length_map, List.length_singleton] at inside
        omega
      | _ =>
        rw [written_length (by rw [at']; rfl)] at inside
        omega
    have := CyclicLog.residue_inj aliased (by omega) far
    omega
  have shorter : position < s.items.length := by
    rw [State.items, List.length_map]
    omega
  refine ⟨position, released, ?_, popped, held⟩
  rwa [State.written, List.getElem?_append_left shorter] at read

theorem release_inv {s : State α} (inv : Inv s) (place : s.consumer = .took tail item)
    (undisturbed : s.ring.tail = tail) :
    Inv { s with
      ring := { s.ring with tail := s.ring.nextIndex tail }
      consumer := .idle
      popped := s.popped ++ [item]
      advances := s.advances + 1 } := by
  have ready := inv.consumer
  simp only [ConsumerReady, place] at ready
  have below := ready.2.1
  obtain ⟨position, released, newest, popped, held⟩ := inv.taken place undisturbed
  have room := inv.room
  refine ⟨inv.masked, inv.positive, inv.head, ?_, ?_, ?_, inv.slots, ?_, ?_, ?_⟩
  · change s.ring.nextIndex tail = (s.advances + 1) % s.ring.capacity
    rw [inv.masked, ← undisturbed, inv.tail, Nat.mod_add_mod]
  · change s.advances + 1 ≤ s.pushed.length
    omega
  · change s.pushed.length + s.producer.gap ≤ s.advances + 1 + s.ring.capacity
    omega
  · have producer := inv.producer
    unfold ProducerReady at producer ⊢
    cases at' : s.producer with
    | cleared item head =>
      simp only [at'] at producer ⊢
      exact ⟨producer.1, by omega⟩
    | wrote call item head =>
      cases call with
      | tryPush =>
        simp only [at'] at producer ⊢
        exact ⟨producer.1, by omega⟩
      | pushOverwrite => simpa only [at'] using producer
    | idle => trivial
    | loaded | published | bumping => simpa only [at'] using producer
  · change (s.popped ++ [item]).Sublist (s.items.take (s.advances + 1))
    have upTo : s.items.take position ++ [item] = s.items.take (position + 1) := by
      rw [List.take_add_one, newest]
      rfl
    have grown := popped.append (List.Sublist.refl [item])
    rw [upTo] at grown
    exact grown.trans (List.take_sublist_take_left (by omega))
  · exact CyclicLog.Holds.mono held fun j here =>
      ⟨by change s.advances + 1 ≤ j at here; omega, by change s.advances + 1 ≤ j at here; omega⟩

theorem consume_inv {s t : State α} (movedFrom : α → α) (inv : Inv s)
    (undisturbed : TailUndisturbed s .consume) (stepped : s.consume movedFrom = some t) :
    Inv t := by
  have ready := inv.consumer
  unfold State.consume at stepped
  cases place : s.consumer with
  | idle => simp [place] at stepped
  | loaded tail =>
    simp only [ConsumerReady, place] at ready
    obtain ⟨start, before, index, jumped, popped, held⟩ := ready
    simp only [place] at stepped
    split at stepped
    · cases Option.some.inj stepped
      exact ⟨inv.masked, inv.positive, inv.head, inv.tail, inv.behind, inv.room, inv.slots,
        inv.producer, popped.trans (List.take_sublist_take_left before),
        held.mono fun j here => before.trans here⟩
    · rename_i differs
      cases Option.some.inj stepped
      have behind := inv.behind
      have several : 1 < s.ring.capacity := by
        have positive := inv.positive
        by_contra single
        have one : s.ring.capacity = 1 := by omega
        apply differs
        rw [index, inv.head, one, Nat.mod_one, Nat.mod_one]
      have below : s.advances < s.pushed.length := by
        rcases jumped with same | bumped
        · by_contra empty
          have : s.advances = s.pushed.length := by omega
          apply differs
          rw [index, inv.head, same, this]
        · omega
      exact ⟨inv.masked, inv.positive, inv.head, inv.tail, behind, inv.room, inv.slots,
        inv.producer, several, below, start, before, index, popped, held⟩
  | nonempty tail =>
    simp only [place, Option.some.injEq] at stepped
    subst t
    exact take_inv movedFrom inv place
  | took tail item =>
    simp only [TailUndisturbed, place, Consumer.Finds] at undisturbed
    simp only [place, Option.some.injEq] at stepped
    subst t
    exact release_inv inv place undisturbed

/-- Every step that leaves `tail_` undisturbed keeps the invariant, whichever
party takes it and whichever call is in progress. -/
theorem step_inv (movedFrom : α → α) (s : State α) (e : Event α) (t : State α) (inv : Inv s)
    (undisturbed : TailUndisturbed s e) (stepped : step movedFrom s e = some t) : Inv t := by
  cases e with
  | push call item =>
    simp only [step] at stepped
    split at stepped
    · rename_i place
      cases Option.some.inj stepped
      have room := inv.room
      rw [place] at room
      exact inv.withProducer (by rw [place]; rfl) rfl room inv.head
    · contradiction
  | pop =>
    simp only [step] at stepped
    split at stepped
    · rename_i place
      cases Option.some.inj stepped
      have ready := inv.consumer
      simp only [ConsumerReady, place] at ready
      exact ⟨inv.masked, inv.positive, inv.head, inv.tail, inv.behind, inv.room, inv.slots,
        inv.producer, s.advances, Nat.le_refl _, inv.tail, .inl rfl, ready⟩
    · contradiction
  | produce => exact produce_inv inv undisturbed stepped
  | consume => exact consume_inv movedFrom inv undisturbed stepped

end UltraDisplay.RingBuffer
