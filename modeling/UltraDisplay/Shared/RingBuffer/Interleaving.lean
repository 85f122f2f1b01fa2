import UltraDisplay.Shared.RingBuffer.Invariant

/-! What any schedule of one producer and one consumer can do to the ring.
With `try_push` alone the ring is a lossless channel; with `push_overwrite` it
is a lossy one as long as neither side overwrites the other's `tail_`. -/
namespace UltraDisplay.RingBuffer
open Transition
variable {α : Type} {requested : Nat}

/-- The slot that the producer's next step writes. -/
def State.writes (s : State α) : Option Nat :=
  match s.producer with
  | .cleared _ head | .loaded .pushOverwrite _ head => some head
  | _ => none

/-- The slot the consumer has read and not yet released. -/
def State.holding (s : State α) : Option Nat :=
  match s.consumer with
  | .took tail _ => some tail
  | _ => none

/-- The slots of the pushed items whose pop has not stored `tail_` yet. -/
def State.unreleased (s : State α) : List Nat := (s.pushed.drop s.popped.length).map Prod.fst

/-- The steps of a successful call that nothing interrupts. -/
def tryPushAlone (item : α) : List (Event α) :=
  [.push .tryPush item, .produce, .produce, .produce]

def tryPopAlone : List (Event α) := [.pop, .consume, .consume, .consume]

/-- The steps of an overwriting push that finds no overflow; with one more
`produce` it moves `tail_` too. -/
def pushOverwriteAlone (item : α) : List (Event α) :=
  [.push .pushOverwrite item, .produce, .produce, .produce]

/-- No overwriting push is in progress and the consumer alone has moved `tail_`. -/
structure Plain (s : State α) : Prop where
  producer : match s.producer with
    | .loaded call _ _ | .wrote call _ _ => call = .tryPush
    | .published _ | .bumping _ => False
    | _ => True
  advances : s.advances = s.popped.length
  consumer : match s.consumer with
    | .idle => True
    | .loaded tail | .nonempty tail | .took tail _ => s.ring.tail = tail

theorem Plain.undisturbed {s : State α} (plain : Plain s) (e : Event α) : TailUndisturbed s e := by
  cases e with
  | push | pop => trivial
  | produce =>
    have producer := plain.producer
    unfold TailUndisturbed
    cases place : s.producer with
    | bumping => simp only [place] at producer
    | _ => trivial
  | consume =>
    have consumer := plain.consumer
    unfold TailUndisturbed
    cases place : s.consumer with
    | took tail item =>
      simp only [place] at consumer
      exact consumer
    | _ => trivial

theorem plain_produce (movedFrom : α → α) {s t : State α} (plain : Plain s)
    (stepped : step movedFrom s .produce = some t) : Plain t := by
  obtain ⟨producer, advances, consumer⟩ := plain
  simp only [step, State.produce] at stepped
  cases place : s.producer with
  | idle => simp [place] at stepped
  | published | bumping => simp only [place] at producer
  | loaded call item head =>
    simp only [place] at producer
    subst producer
    simp only [place] at stepped
    split at stepped
    · cases Option.some.inj stepped
      exact ⟨trivial, advances, consumer⟩
    · cases Option.some.inj stepped
      exact ⟨trivial, advances, consumer⟩
  | cleared item head =>
    simp only [place, Option.some.injEq] at stepped
    subst t
    exact ⟨rfl, advances, consumer⟩
  | wrote call item head =>
    simp only [place, Option.some.injEq] at producer stepped
    subst producer t
    exact ⟨trivial, advances, consumer⟩

theorem plain_consume (movedFrom : α → α) {s t : State α} (plain : Plain s)
    (stepped : step movedFrom s .consume = some t) : Plain t := by
  obtain ⟨producer, advances, consumer⟩ := plain
  simp only [step, State.consume] at stepped
  cases place : s.consumer with
  | idle => simp [place] at stepped
  | loaded tail =>
    simp only [place] at consumer stepped
    split at stepped
    · cases Option.some.inj stepped
      exact ⟨producer, advances, trivial⟩
    · cases Option.some.inj stepped
      exact ⟨producer, advances, consumer⟩
  | nonempty tail =>
    simp only [place, Option.some.injEq] at consumer stepped
    subst t
    exact ⟨producer, advances, consumer⟩
  | took tail item =>
    simp only [place, Option.some.injEq] at stepped
    subst t
    exact ⟨producer, by simpa using advances, trivial⟩

theorem plain_step (movedFrom : α → α) {s t : State α} (plain : Plain s)
    (plainCall : ∀ item, e ≠ Event.push .pushOverwrite item)
    (stepped : step movedFrom s e = some t) : Plain t := by
  cases e with
  | push call item =>
    simp only [step] at stepped
    split at stepped
    · cases Option.some.inj stepped
      refine ⟨?_, plain.advances, plain.consumer⟩
      cases call with
      | tryPush => rfl
      | pushOverwrite => exact absurd rfl (plainCall item)
    · contradiction
  | pop =>
    simp only [step] at stepped
    split at stepped
    · cases Option.some.inj stepped
      exact ⟨plain.producer, plain.advances, rfl⟩
    · contradiction
  | produce => exact plain_produce movedFrom plain stepped
  | consume => exact plain_consume movedFrom plain stepped

/-- The popped items are some of the first pushed ones, in order: no later than
the stores to `tail_`, unless the pop in progress has been disturbed. -/
theorem Inv.popped_upto {s : State α} (inv : Inv s) :
    ∃ bound, s.popped.Sublist (s.items.take bound) ∧
      (s.consumer.Finds s.ring.tail → bound ≤ s.advances) := by
  have ready := inv.consumer
  unfold ConsumerReady at ready
  cases place : s.consumer with
  | idle =>
    simp only [place] at ready
    exact ⟨s.advances, ready.1, fun _ => Nat.le_refl _⟩
  | loaded tail =>
    simp only [place] at ready
    obtain ⟨start, before, _, _, popped, _⟩ := ready
    exact ⟨start, popped, fun _ => before⟩
  | nonempty tail =>
    simp only [place] at ready
    obtain ⟨_, _, start, before, _, popped, _⟩ := ready
    exact ⟨start, popped, fun _ => before⟩
  | took tail item =>
    by_cases found : s.ring.tail = tail
    · obtain ⟨position, before, _, popped, _⟩ := inv.taken place found
      exact ⟨position, popped, fun _ => before⟩
    · simp only [place] at ready
      obtain ⟨_, _, position, _, popped, _⟩ := ready
      exact ⟨position, popped, fun finds => absurd finds found⟩

/-- Without overwriting pushes nothing is skipped: the pops so far are exactly
the first pushes. -/
theorem Plain.popped_prefix {s : State α} (plain : Plain s) (inv : Inv s) :
    s.popped <+: s.items := by
  obtain ⟨bound, popped, before⟩ := inv.popped_upto
  have before := before (plain.undisturbed .consume)
  have inside := inv.behind
  rw [plain.advances] at before inside
  have whole : s.popped = s.items.take s.popped.length := by
    apply (popped.trans (List.take_sublist_take_left before)).eq_of_length
    rw [List.length_take, State.items, List.length_map, Nat.min_eq_left inside]
  rw [whole]
  exact List.take_prefix _ _

theorem Inv.unreleased_slot {s : State α} (inv : Inv s) (plain : Plain s)
    (live : slot ∈ s.unreleased) :
    ∃ j, s.advances ≤ j ∧ j < s.pushed.length ∧ slot = j % s.ring.capacity := by
  obtain ⟨entry, member, rfl⟩ := List.mem_map.mp live
  obtain ⟨i, inside, found⟩ := List.mem_iff_getElem.mp member
  rw [List.getElem_drop] at found
  rw [List.length_drop] at inside
  refine ⟨s.popped.length + i, by rw [plain.advances]; omega, by omega, ?_⟩
  apply inv.slots
  rw [← found]
  exact List.getElem?_eq_getElem _

/-- A cleared `try_push` writes a slot outside the window of unreleased items. -/
theorem Plain.writes_free {s : State α} (plain : Plain s) (inv : Inv s)
    (writing : s.writes = some slot) :
    ∀ j, s.advances ≤ j → j < s.pushed.length → slot ≠ j % s.ring.capacity := by
  have ready := inv.producer
  have calls := plain.producer
  unfold State.writes at writing
  cases place : s.producer with
  | cleared item head =>
    simp only [place, Option.some.injEq, ProducerReady] at writing ready
    subst slot
    intro j later older same
    rw [ready.1] at same
    have := CyclicLog.residue_inj same.symm (by omega) (by omega)
    omega
  | loaded call item head =>
    simp only [place] at calls writing
    subst calls
    simp at writing
  | _ => simp [place] at writing

theorem try_only_reaches [Inhabited α] (movedFrom : α → α) {ring : RingBuffer α} {s : State α}
    (built : construct requested = some ring)
    (tryOnly : ∀ item, Event.push .pushOverwrite item ∉ es)
    (reached : run (step movedFrom) (State.start ring) es = some s) : Inv s ∧ Plain s := by
  have guarded : Guarded (step movedFrom) (fun _ e => ∀ item, e ≠ .push .pushOverwrite item)
      (State.start ring) es := by
    apply Guarded.of_forall
    rintro e member item rfl
    exact tryOnly item member
  refine run_guarded (I := fun s => Inv s ∧ Plain s) ?_ guarded
    ⟨start_inv built, trivial, rfl, trivial⟩ reached
  rintro u e t ⟨inv, plain⟩ plainCall stepped
  exact ⟨step_inv movedFrom u e t inv (plain.undisturbed e) stepped,
    plain_step movedFrom plain plainCall stepped⟩

/-- Every schedule of `try_push` and `try_pop` delivers the pushed items in
order without loss or repetition, and the producer's next slot write never
lands on an item the consumer has yet to release. -/
theorem try_calls_lossless [Inhabited α] (movedFrom : α → α) (es : List (Event α))
    {ring : RingBuffer α} {s : State α} (built : construct requested = some ring)
    (tryOnly : ∀ item, Event.push .pushOverwrite item ∉ es)
    (reached : run (step movedFrom) (State.start ring) es = some s) :
    s.popped <+: s.items ∧
      ∀ slot, s.writes = some slot → slot ∉ s.unreleased ∧ s.holding ≠ some slot := by
  obtain ⟨inv, plain⟩ := try_only_reaches movedFrom built tryOnly reached
  refine ⟨plain.popped_prefix inv, ?_⟩
  intro slot writing
  have free := plain.writes_free inv writing
  constructor
  · intro live
    obtain ⟨j, later, older, same⟩ := inv.unreleased_slot plain live
    exact free j later older same
  · intro held
    have ready := inv.consumer
    have consumer := plain.consumer
    unfold State.holding at held
    cases place : s.consumer with
    | took tail item =>
      simp only [place, Option.some.injEq, ConsumerReady] at held ready consumer
      refine free s.advances (Nat.le_refl _) ready.2.1 ?_
      rw [← held, ← consumer, inv.tail]
    | _ => simp [place] at held

/-- A pop has released its item and the next push waits for its slot write. -/
theorem try_calls_lossless_two : ∃ ring : RingBuffer Nat, construct 2 = some ring ∧
    ∃ s, run (step id) (State.start ring)
        (tryPushAlone 5 ++ tryPopAlone ++ [.push .tryPush 6, .produce]) = some s ∧
      s.popped = [5] ∧ s.writes = some 1 ∧
      (s.popped <+: s.items ∧
        ∀ slot, s.writes = some slot → slot ∉ s.unreleased ∧ s.holding ≠ some slot) := by
  refine ⟨_, rfl, _, rfl, rfl, rfl, ?_⟩
  exact try_calls_lossless id (tryPushAlone 5 ++ tryPopAlone ++ [.push .tryPush 6, .produce])
    (show construct 2 = some _ from rfl) (by simp [tryPushAlone, tryPopAlone]) rfl

theorem produce_tail {s t : State α} (stepped : s.produce = some t) :
    t.ring.tail = s.ring.tail ∨
      ∃ tail, s.producer = .bumping tail ∧ t.ring.tail = s.ring.nextIndex tail := by
  unfold State.produce at stepped
  split at stepped
  · contradiction
  · left
    split at stepped <;> cases Option.some.inj stepped <;> rfl
  · cases Option.some.inj stepped
    exact .inl rfl
  · cases Option.some.inj stepped
    exact .inl rfl
  · cases Option.some.inj stepped
    exact .inl rfl
  · left
    split at stepped <;> cases Option.some.inj stepped <;> rfl
  · rename_i tail place
    cases Option.some.inj stepped
    exact .inr ⟨tail, place, rfl⟩

theorem consume_tail {movedFrom : α → α} {s t : State α}
    (stepped : s.consume movedFrom = some t) :
    t.ring.tail = s.ring.tail ∨
      ∃ tail item, s.consumer = .took tail item ∧ t.ring.tail = s.ring.nextIndex tail := by
  unfold State.consume at stepped
  split at stepped
  · contradiction
  · left
    split at stepped <;> cases Option.some.inj stepped <;> rfl
  · cases Option.some.inj stepped
    exact .inl rfl
  · rename_i tail item place
    cases Option.some.inj stepped
    exact .inr ⟨tail, item, place, rfl⟩

theorem tail_step (movedFrom : α → α) {s t : State α} (inv : Inv s)
    (undisturbed : TailUndisturbed s e) (stepped : step movedFrom s e = some t) :
    t.ring.tail = s.ring.tail ∨ t.ring.tail = s.ring.nextIndex s.ring.tail := by
  cases e with
  | push call item =>
    simp only [step] at stepped
    split at stepped
    · cases Option.some.inj stepped
      exact .inl rfl
    · contradiction
  | pop =>
    simp only [step] at stepped
    split at stepped
    · cases Option.some.inj stepped
      exact .inl rfl
    · contradiction
  | produce =>
    refine (produce_tail stepped).imp_right ?_
    rintro ⟨tail, place, stored⟩
    have ready := inv.producer
    simp only [TailUndisturbed, place, Producer.Overfull, ProducerReady] at undisturbed ready
    rw [stored, inv.tail, ready, undisturbed, Nat.add_mod_right]
  | consume =>
    refine (consume_tail stepped).imp_right ?_
    rintro ⟨tail, item, place, stored⟩
    simp only [TailUndisturbed, place, Consumer.Finds] at undisturbed
    rw [stored, undisturbed]

/-- While no store to `tail_` interferes with the other side's, every schedule
of overwriting pushes and pops delivers some of the pushed items in order, none
twice, and `tail_` only moves forward. -/
theorem undisturbed_lossy [Inhabited α] (movedFrom : α → α) {ring : RingBuffer α}
    (built : construct requested = some ring)
    (undisturbed : Guarded (step movedFrom) TailUndisturbed (State.start ring) es) :
    Throughout (step movedFrom) (fun s => s.popped.Sublist s.items) (State.start ring) es ∧
      EveryStep (step movedFrom) (fun s _ t => t.ring.tail = s.ring.tail ∨
        t.ring.tail = s.ring.nextIndex s.ring.tail) (State.start ring) es := by
  have start := start_inv built
  constructor
  · intro before s short reached
    have inv := throughout_guarded (step_inv movedFrom) undisturbed start before s short reached
    obtain ⟨bound, popped, _⟩ := inv.popped_upto
    exact popped.trans (List.take_sublist _ _)
  · exact everyStep_guarded (step_inv movedFrom)
      (fun s e t inv met stepped => tail_step movedFrom inv met stepped) undisturbed start

/-- Two overwriting pushes into a ring of two, then a pop of the survivor. -/
theorem undisturbed_lossy_two : ∃ ring : RingBuffer Nat, construct 2 = some ring ∧
    ∃ es, es = pushOverwriteAlone 5 ++ pushOverwriteAlone 6 ++ [.produce] ++ tryPopAlone ∧
      (Throughout (step id) (fun s => s.popped.Sublist s.items) (State.start ring) es ∧
        EveryStep (step id) (fun s _ t => t.ring.tail = s.ring.tail ∨
          t.ring.tail = s.ring.nextIndex s.ring.tail) (State.start ring) es) :=
  ⟨_, rfl, _, rfl, undisturbed_lossy id (show construct 2 = some _ from rfl) (by decide)⟩

/-- A pop that empties the ring between the two halves of `push_overwrite` makes
the push mistake empty for full: it moves `tail_` past `head_`, and the one item
ever pushed is popped a second time. -/
theorem overwrite_pops_twice : ∃ ring : RingBuffer Nat, construct 2 = some ring ∧
    ∃ s, run (step id) (State.start ring)
        ([.push .pushOverwrite 5, .produce, .produce] ++ tryPopAlone ++ [.produce, .produce] ++
          tryPopAlone) = some s ∧
      s.items = [5] ∧ s.popped = [5, 5] ∧ ¬ s.popped.Sublist s.items :=
  ⟨_, rfl, _, rfl, rfl, rfl, by decide⟩

end UltraDisplay.RingBuffer
