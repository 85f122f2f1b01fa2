import UltraDisplay.Shared.Pool
import UltraDisplay.Library.Linearization

/-! The pool as one object of many threads: a stack of free blocks whose `alloc`
and `free` each act at one instant, and from which no block is ever lost. Both
rest on the condition that keeps the blocks exclusive. -/
namespace UltraDisplay.Pool
open LinkedList Linearization Transition
variable {θ : Type} [DecidableEq θ]

inductive StackCall where
  | alloc
  | free (block : Nat)
  deriving DecidableEq

inductive StackAnswer where
  | allocated (block : Option Nat)
  | freed
  deriving DecidableEq

/-- A stack of free blocks: an empty one gives null. -/
def stackCall (free : List Nat) : StackCall → List Nat × StackAnswer
  | .alloc => (free.tail, .allocated free.head?)
  | .free block => (block :: free, .freed)

/-- What `alloc` returns when `current_head` is null. -/
def State.exhausted (s : State θ) (t : θ) : List (Action θ StackCall StackAnswer) :=
  if s.head = none then [.respond t (.allocated none)] else []

/-- A call is seen with its load of `head_`, its return with the compare-exchange
that succeeds or with the load that finds the pool empty. -/
def sees (s : State θ) : Event θ → List (Action θ StackCall StackAnswer)
  | .alloc t => .invoke t .alloc :: s.exhausted t
  | .free t block => [.invoke t (.free block)]
  | .move t spurious => match s.place t with
    | .allocRead current _ =>
        if s.head = some current ∧ spurious = false then [.respond t (.allocated (some current))]
        else s.exhausted t
    | .freeLinked _ current =>
        if s.head = current ∧ spurious = false then [.respond t .freed] else []
    | _ => []
  | .write _ _ _ => []

/-- Every call in progress has yet to act. -/
def Place.pending : Place → Pending StackCall StackAnswer
  | .idle => .none
  | .allocLoaded _ | .allocRead _ _ => .called .alloc
  | .freeLoaded node _ | .freeLinked node _ => .called (.free node)

/-- Where a block is when it is not lost. -/
def State.Keeps (s : State θ) (free : List Nat) (block : Nat) : Prop :=
  block ∈ free ∨ block ∈ s.held.map Prod.snd ∨ ∃ t, (s.place t).node = some block

/-- The list behind `head_` is the stack, and all blocks are accounted for. -/
structure Shows (capacity : Nat) (s : State θ) (a : Atomic (List Nat) θ StackCall StackAnswer) :
    Prop where
  inv : Inv s a.object
  pending : ∀ t, a.pending t = (s.place t).pending
  kept : ∀ block, s.Keeps a.object block ↔ block < capacity

theorem node_goTo {s : State θ} {t : θ} {place : Place} (same : place.node = (s.place t).node)
    (u : θ) : ((s.goTo t place).place u).node = (s.place u).node := by
  by_cases here : u = t
  · subst u
    simpa only [State.goTo, Function.update_self] using same
  · simp only [State.goTo, Function.update_of_ne here]

theorem returning_goTo {s : State θ} {t : θ} {place : Place} {block : Nat} :
    (∃ u, ((s.goTo t place).place u).node = some block) ↔
      place.node = some block ∨ ∃ u, u ≠ t ∧ (s.place u).node = some block := by
  constructor
  · rintro ⟨u, giving⟩
    by_cases here : u = t
    · subst u
      exact .inl (by simpa only [State.goTo, Function.update_self] using giving)
    · exact .inr ⟨u, here, by simpa only [State.goTo, Function.update_of_ne here] using giving⟩
  · rintro (giving | ⟨u, here, giving⟩)
    · exact ⟨t, by simpa only [State.goTo, Function.update_self] using giving⟩
    · exact ⟨u, by simpa only [State.goTo, Function.update_of_ne here] using giving⟩

namespace Shows
variable {s : State θ} {a : Atomic (List Nat) θ StackCall StackAnswer}

omit [DecidableEq θ] in
theorem start (positive : 0 < capacity) :
    Shows capacity (State.start θ capacity) (Atomic.start (List.range' 0 capacity)) := by
  refine ⟨start_inv positive, fun _ => rfl, ?_⟩
  intro block
  simp [State.Keeps, Atomic.start, State.start, Place.node, List.mem_range']

theorem pending_goTo (shows : Shows capacity s a) (t : θ) (place : Place) (u : θ) :
    (a.set t place.pending).pending u = ((s.goTo t place).place u).pending := by
  by_cases same : u = t
  · subst u
    simp [State.goTo]
  · rw [Atomic.set_other same, shows.pending]
    simp [State.goTo, Function.update_of_ne same]

theorem stays (shows : Shows capacity s a) {t : θ} {place : Place}
    (same : place.pending = (s.place t).pending) (u : θ) :
    a.pending u = ((s.goTo t place).place u).pending := by
  have follows := shows.pending_goTo t place u
  rwa [same, ← shows.pending, Atomic.set, Function.update_eq_self] at follows

theorem kept_goTo (shows : Shows capacity s a) {t : θ} {place : Place}
    (same : place.node = (s.place t).node) (block : Nat) :
    (s.goTo t place).Keeps a.object block ↔ block < capacity := by
  rw [← shows.kept block]
  simp only [State.Keeps, node_goTo same]
  rfl

/-- The test at the top of the loop of `alloc`, made or gone on with: null acts on
the empty stack. -/
theorem test (shows : Shows capacity s a) {t : θ} (gives_none : (s.place t).node = none) :
    ∃ b, Moves stackCall (a.set t (.called .alloc)) (s.exhausted t) b ∧
      Shows capacity (s.test t s.head) b := by
  have called := Atomic.set_self a t (.called StackCall.alloc)
  unfold State.exhausted
  cases head : s.head with
  | none =>
    have empty := shows.inv.linked.head_none_iff.mp head
    have answer : stackCall a.object .alloc = (a.object, .allocated none) := by
      simp [stackCall, empty]
    rw [if_pos rfl]
    have back : (a.set t (.called .alloc)).set t .none = a.set t .none := Atomic.set_set ..
    exact ⟨_, Moves.returns called answer, shows.inv.goTo t rfl,
      fun u => (congrFun (congrArg Atomic.pending back) u).trans (shows.pending_goTo t .idle u),
      shows.kept_goTo gives_none.symm⟩
  | some current =>
    rw [if_neg (by simp)]
    exact ⟨_, .rest, shows.inv.goTo t rfl, shows.pending_goTo t (.allocLoaded current),
      shows.kept_goTo gives_none.symm⟩

/-- The compare-exchange of `alloc`: the block leaves the list for its owner. -/
theorem pop (shows : Shows capacity s a) {t : θ} {current : Nat} {successor : Option Nat}
    (place : s.place t = .allocRead current successor) (head : s.head = some current)
    (fresh : s.next current = successor) :
    ∃ b, Moves stackCall a [.respond t (.allocated (some current))] b ∧
      Shows capacity { s.goTo t .idle with head := successor, held := (t, current) :: s.held } b := by
  obtain ⟨rest, object, linked⟩ := Linked.uncons (head ▸ shows.inv.linked)
  obtain ⟨left, inv⟩ := shows.inv.pop t head fresh
  obtain rfl : left = rest := inv.linked.unique (fresh ▸ linked)
  have called : a.pending t = .called .alloc := by
    rw [shows.pending, place]
    rfl
  have answer : stackCall a.object .alloc = (left, .allocated (some current)) := by
    simp [stackCall, object]
  refine ⟨_, Moves.returns called answer, inv, shows.pending_goTo t .idle, ?_⟩
  intro block
  have same : Place.idle.node = (s.place t).node := by
    rw [place]
    rfl
  rw [← shows.kept_goTo same block, object]
  simp only [State.Keeps, State.goTo, Atomic.set_object, List.map_cons, List.mem_cons]
  tauto

theorem give (shows : Shows capacity s a) {t : θ} {block : Nat} (idle : s.place t = .idle)
    (mine : (t, block) ∈ s.held) :
    ∃ b, Moves stackCall a [.invoke t (.free block)] b ∧
      Shows capacity
        { s.goTo t (.freeLoaded block s.head) with held := s.held.erase (t, block) } b := by
  have uncalled : a.pending t = .none := by
    rw [shows.pending, idle]
    rfl
  refine ⟨_, .invoke uncalled .rest, shows.inv.give mine s.head,
    shows.pending_goTo t (.freeLoaded block s.head), ?_⟩
  intro other
  rw [← shows.kept other]
  have moved : other ∈ s.held.map Prod.snd ↔
      other = block ∨ other ∈ (s.held.erase (t, block)).map Prod.snd := by
    have split := (List.perm_cons_erase mine).map Prod.snd
    rw [split.mem_iff, List.map_cons, List.mem_cons]
  have before : (∃ u, (s.place u).node = some other) ↔
      ∃ u, u ≠ t ∧ (s.place u).node = some other := by
    refine exists_congr fun u => ⟨fun giving => ⟨?_, giving⟩, And.right⟩
    rintro rfl
    rw [idle] at giving
    contradiction
  simp only [State.Keeps, Atomic.set_object, moved, before]
  have now := @returning_goTo θ _ s t (.freeLoaded block s.head) other
  simp only [State.goTo] at now ⊢
  rw [now]
  simp only [Place.node, Option.some.injEq, eq_comm (a := block)]
  tauto

theorem carries (shows : Shows capacity s a) {t : θ} {place : Place} {node : Nat}
    (before : (s.place t).node = some node) (after : place.node = some node)
    (linking : place.Linking s.next) (same : place.pending = (s.place t).pending) :
    Shows capacity (s.goTo t place) a :=
  ⟨shows.inv.carry t before after linking, shows.stays same,
    shows.kept_goTo (after.trans before.symm)⟩

theorem link (shows : Shows capacity s a) {t : θ} {node : Nat} {current : Option Nat}
    (place : s.place t = .freeLoaded node current) :
    Shows capacity
      { s.goTo t (.freeLinked node current) with next := Function.update s.next node current } a := by
  have giving : (s.place t).node = some node := by
    rw [place]
    rfl
  obtain ⟨outside, _, alone⟩ := shows.inv.returning t node giving
  have written := shows.inv.overwrite outside current fun u giving => by
    rw [alone u giving, place]
    trivial
  have relinked : Shows capacity { s with next := Function.update s.next node current } a :=
    ⟨written, shows.pending, shows.kept⟩
  have linking : Function.update s.next node current node = current := Function.update_self ..
  exact relinked.carries giving rfl linking (by rw [place]; rfl)

theorem push (shows : Shows capacity s a) {t : θ} {node : Nat}
    (place : s.place t = .freeLinked node s.head) :
    ∃ b, Moves stackCall a [.respond t .freed] b ∧
      Shows capacity { s.goTo t .idle with head := some node } b := by
  have called : a.pending t = .called (.free node) := by
    rw [shows.pending, place]
    rfl
  have answer : stackCall a.object (.free node) = (node :: a.object, .freed) := rfl
  refine ⟨_, Moves.returns called answer, shows.inv.push t place, shows.pending_goTo t .idle, ?_⟩
  intro block
  rw [← shows.kept block]
  have before : (∃ u, (s.place u).node = some block) ↔
      block = node ∨ ∃ u, u ≠ t ∧ (s.place u).node = some block := by
    constructor
    · rintro ⟨u, giving⟩
      by_cases here : u = t
      · subst u
        rw [place] at giving
        exact .inl (Option.some.inj giving).symm
      · exact .inr ⟨u, here, giving⟩
    · rintro (rfl | ⟨u, _, giving⟩)
      · exact ⟨t, by rw [place]; rfl⟩
      · exact ⟨u, giving⟩
  have now := @returning_goTo θ _ s t .idle block
  simp only [State.Keeps, State.goTo, Atomic.set_object, List.mem_cons] at now ⊢
  rw [now, before]
  simp only [Place.node, reduceCtorEq, false_or]
  tauto

theorem move (shows : Shows capacity s a) {t : θ} {spurious : Bool} {u : State θ}
    (fresh : NextFresh s (.move t spurious)) (stepped : s.move t spurious = some u) :
    ∃ b, Moves stackCall a (sees s (.move t spurious)) b ∧ Shows capacity u b := by
  unfold State.move at stepped
  simp only [sees]
  cases place : s.place t with
  | idle => simp [place] at stepped
  | allocLoaded current =>
    simp only [place, Option.some.injEq] at stepped ⊢
    subst u
    have resting : (Place.allocRead current (s.next current)).node = (s.place t).node := by
      rw [place]
      rfl
    exact ⟨a, .rest, shows.inv.goTo t rfl, shows.stays (by rw [place]; rfl),
      shows.kept_goTo resting⟩
  | allocRead current successor =>
    simp only [place] at stepped ⊢
    split at stepped
    case isTrue swapped =>
      rw [if_pos swapped]
      obtain ⟨head, rfl⟩ := swapped
      cases Option.some.inj stepped
      simp only [NextFresh, place] at fresh
      exact shows.pop place head (fresh head)
    case isFalse failed =>
      rw [if_neg failed]
      cases Option.some.inj stepped
      have tested := shows.test (t := t) (by rw [place]; rfl)
      rwa [Atomic.set_eq (by rw [shows.pending, place]; rfl)] at tested
  | freeLoaded node current =>
    simp only [place, Option.some.injEq] at stepped ⊢
    subst u
    exact ⟨a, .rest, shows.link place⟩
  | freeLinked node current =>
    simp only [place] at stepped ⊢
    split at stepped
    case isTrue swapped =>
      rw [if_pos swapped]
      obtain ⟨rfl, rfl⟩ := swapped
      cases Option.some.inj stepped
      exact shows.push place
    case isFalse failed =>
      rw [if_neg failed]
      cases Option.some.inj stepped
      have held : (s.place t).node = some node := by rw [place]; rfl
      exact ⟨a, .rest, shows.carries held rfl trivial (by rw [place]; rfl)⟩

theorem step {e : Event θ} {u : State θ} (fresh : NextFresh s e) (shows : Shows capacity s a)
    (stepped : step s e = some u) : ∃ b, Moves stackCall a (sees s e) b ∧ Shows capacity u b := by
  cases e with
  | alloc t =>
    simp only [Pool.step] at stepped
    split at stepped
    · rename_i idle
      cases Option.some.inj stepped
      obtain ⟨b, moves, after⟩ := shows.test (t := t) (by rw [idle]; rfl)
      exact ⟨b, .invoke (by rw [shows.pending, idle]; rfl) moves, after⟩
    · contradiction
  | free t block =>
    simp only [Pool.step] at stepped
    split at stepped
    · rename_i idle
      split at stepped
      · rename_i mine
        cases Option.some.inj stepped
        exact shows.give idle mine
      · contradiction
    · contradiction
  | move t spurious => exact shows.move fresh stepped
  | write t block value =>
    simp only [Pool.step] at stepped
    split at stepped
    · rename_i mine
      cases Option.some.inj stepped
      have owned : block ∈ s.held.map Prod.snd := List.mem_map_of_mem mine
      refine ⟨a, .rest, ?_, shows.pending, shows.kept⟩
      refine shows.inv.overwrite (fun inside => shows.inv.apart block inside owned) value ?_
      intro v giving
      exact absurd owned (shows.inv.returning v block giving).2.1
    · contradiction

end Shows

/-- For any capacity, any number of threads and any interleaving: while every
successful pop installs the current successor of the head, the pool answers as a
stack whose calls act at one instant. -/
theorem stack_linearizable {s : State θ} (capacity : Nat) (es : List (Event θ))
    (positive : 0 < capacity) (fresh : Guarded step NextFresh (State.start θ capacity) es)
    (reached : run step (State.start θ capacity) es = some s) :
    Linearizable stackCall (List.range' 0 capacity) (history step sees (State.start θ capacity) es) := by
  obtain ⟨b, moves, _⟩ := moves_of_simulation
    (fun _ _ _ _ fresh shows stepped => shows.step fresh stepped) (Shows.start positive) fresh reached
  exact ⟨b, moves⟩

/-- Two threads want the same block; the one that comes second takes the next. -/
theorem stack_linearizable_two : ∃ es s,
    run step (State.start Bool 2) es = some s ∧
    history step sees (State.start Bool 2) es =
      [.invoke true .alloc, .invoke false .alloc, .respond false (.allocated (some 0)),
        .respond true (.allocated (some 1))] ∧
    Linearizable stackCall (List.range' 0 2) (history step sees (State.start Bool 2) es) := by
  refine ⟨.alloc true :: .move true false :: allocAlone false ++
    [.move true false, .move true false, .move true false], _, rfl, rfl, ?_⟩
  exact stack_linearizable 2 _ (by decide) (by decide) rfl

/-- Under the same condition no block is lost or handed out twice: each block of
the pool is on the free list, owned, or in the hands of one thread in `free`, and
in one of these places only. The pool is empty exactly when all are in use. -/
theorem blocks_conserved {s : State θ} (capacity : Nat) (es : List (Event θ))
    (positive : 0 < capacity) (fresh : Guarded step NextFresh (State.start θ capacity) es)
    (reached : run step (State.start θ capacity) es = some s) :
    ∃ free, Linked s.next s.head free ∧ (free ++ s.held.map Prod.snd).Nodup ∧
      (∀ t block, (s.place t).node = some block → block ∉ free ++ s.held.map Prod.snd ∧
        ∀ u, (s.place u).node = some block → u = t) ∧
      (∀ block, block < capacity ↔
        block ∈ free ++ s.held.map Prod.snd ∨ ∃ t, (s.place t).node = some block) ∧
      (s.head = none ↔ ∀ block < capacity,
        block ∈ s.held.map Prod.snd ∨ ∃ t, (s.place t).node = some block) := by
  obtain ⟨⟨free, pending⟩, _, shows⟩ := moves_of_simulation
    (fun _ _ _ _ fresh shows stepped => shows.step fresh stepped) (Shows.start positive) fresh reached
  have inv := shows.inv
  refine ⟨free, inv.linked, ?_, ?_, ?_, ?_⟩
  · exact List.nodup_append'.mpr ⟨inv.distinct, inv.owners, fun block member => inv.apart block member⟩
  · intro t block giving
    obtain ⟨outside, unheld, alone⟩ := inv.returning t block giving
    refine ⟨?_, alone⟩
    rw [List.mem_append]
    exact not_or.mpr ⟨outside, unheld⟩
  · intro block
    rw [← shows.kept block, List.mem_append, or_assoc]
    rfl
  · rw [inv.linked.head_none_iff]
    constructor
    · rintro rfl block inside
      exact ((shows.kept block).mpr inside).resolve_left List.not_mem_nil
    · intro used
      apply List.eq_nil_iff_forall_not_mem.mpr
      intro block member
      have inside := (shows.kept block).mp (.inl member)
      rcases used block inside with held | ⟨t, giving⟩
      · exact inv.apart block member held
      · exact (inv.returning t block giving).1 member

/-- One thread has a block and the other is giving one back: the pool is empty. -/
theorem blocks_conserved_two : ∃ es s, run step (State.start Bool 2) es = some s ∧
    s.held = [(true, 0)] ∧
    ∃ free, Linked s.next s.head free ∧ (free ++ s.held.map Prod.snd).Nodup ∧
      (∀ t block, (s.place t).node = some block → block ∉ free ++ s.held.map Prod.snd ∧
        ∀ u, (s.place u).node = some block → u = t) ∧
      (∀ block, block < 2 ↔
        block ∈ free ++ s.held.map Prod.snd ∨ ∃ t, (s.place t).node = some block) ∧
      (s.head = none ↔ ∀ block < 2,
        block ∈ s.held.map Prod.snd ∨ ∃ t, (s.place t).node = some block) := by
  refine ⟨allocAlone true ++ allocAlone false ++ [.free false 1], _, rfl, rfl, ?_⟩
  exact blocks_conserved 2 (allocAlone true ++ allocAlone false ++ [.free false 1])
    (by decide) (by decide) rfl

end UltraDisplay.Pool
