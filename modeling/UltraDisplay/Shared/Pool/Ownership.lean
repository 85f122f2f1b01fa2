import UltraDisplay.Shared.Pool
import Mathlib.Data.List.Perm.Basic

/-! `PoolPtr<T>` over a `Pool<T>` that one thread uses. Its `alloc` and `free` are
the atomic steps of the pool taken without interruption; the pointers are moved
around, assigned over and destroyed. The bytes of a block hold an object or the
link of the free list, never both. -/
namespace UltraDisplay.Pool
open LinkedList Transition

/-- `pool` says whether `pool_` is the pool or null. -/
structure PoolPtr where
  pool : Bool
  ptr : Option Nat

/-- What the bytes of a block are: nothing yet, the `next` of a node or a `T`. -/
inductive Cell where
  | bytes
  | link (next : Option Nat)
  | object

def Cell.next : Cell → Option Nat
  | .link next => next
  | .bytes | .object => none

inductive Lifetime where
  | constructed (block : Nat)
  | destroyed (block : Nat)
  | released (block : Nat)
  deriving DecidableEq

/-- `history` records what happened to the blocks; no call reads it. -/
structure Memory where
  head : Option Nat
  cells : Nat → Cell
  history : List Lifetime

def Memory.next (m : Memory) (block : Nat) : Option Nat := (m.cells block).next

/-- None is the read of a link that is not there. -/
def Memory.alloc (m : Memory) : Option (Memory × PoolPtr) :=
  match m.head with
  | none => some (m, { pool := false, ptr := none })
  | some current =>
      match m.cells current with
      | .link next =>
          some ({ head := next
                  cells := Function.update m.cells current .object
                  history := m.history ++ [.constructed current] },
                { pool := true, ptr := some current })
      | .bytes | .object => none

/-- `ptr->~T()`, which is undefined where no object lives. -/
def Memory.destroy (m : Memory) (block : Nat) : Option Memory :=
  match m.cells block with
  | .object =>
      some { m with
        cells := Function.update m.cells block .bytes
        history := m.history ++ [.destroyed block] }
  | .bytes | .link _ => none

def Memory.push (m : Memory) (block : Nat) : Memory :=
  { head := some block
    cells := Function.update m.cells block (.link m.head)
    history := m.history ++ [.released block] }

def Memory.free (m : Memory) : Option Nat → Option Memory
  | none => some m
  | some block => (m.destroy block).map fun m => m.push block

/-- `if (ptr_ && pool_) pool_->free(ptr_);` -/
def PoolPtr.release (p : PoolPtr) (m : Memory) : Option Memory :=
  if p.ptr.isSome ∧ p.pool then m.free p.ptr else some m

def PoolPtr.moved (p : PoolPtr) : PoolPtr := { p with ptr := none }

/-- The live `PoolPtr` variables, each known by its place in the list. -/
structure Owners where
  memory : Memory
  pointers : List PoolPtr

inductive Call where
  | construct
  | alloc
  | moveConstruct (other : Nat)
  | moveAssign (self other : Nat)
  | destroy (self : Nat)

/-- A call names live variables only; none is undefined behaviour. -/
def Owners.step (s : Owners) : Call → Option Owners
  | .construct => some { s with pointers := s.pointers ++ [{ pool := false, ptr := none }] }
  | .alloc => s.memory.alloc.map fun (m, p) => { memory := m, pointers := s.pointers ++ [p] }
  | .moveConstruct other =>
      s.pointers[other]?.map fun p =>
        { s with pointers := s.pointers.set other p.moved ++ [p] }
  | .moveAssign self other =>
      s.pointers[self]?.bind fun here => s.pointers[other]?.bind fun there =>
        if self = other then some s
        else (here.release s.memory).map fun m =>
          { memory := m, pointers := (s.pointers.set self there).set other there.moved }
  | .destroy self =>
      s.pointers[self]?.bind fun p => (p.release s.memory).map fun m =>
        { memory := m, pointers := s.pointers.eraseIdx self }

def Owners.start (capacity : Nat) : Owners where
  memory :=
    { head := some 0
      cells := fun i => .link (if i < capacity - 1 then some (i + 1) else none)
      history := [] }
  pointers := []

/-- The call is made on variables that exist. -/
def Call.Live (s : Owners) : Call → Prop
  | .construct | .alloc => True
  | .moveConstruct other => other < s.pointers.length
  | .moveAssign self other => self < s.pointers.length ∧ other < s.pointers.length
  | .destroy self => self < s.pointers.length

def PoolPtr.holds (p : PoolPtr) (block : Nat) : Nat := if p.ptr = some block then 1 else 0

/-- One thread's memory shows the head and the links of the shared one. -/
structure Agrees {θ : Type} (m : Memory) (s : State θ) : Prop where
  head : s.head = m.head
  next : ∀ block successor, m.cells block = .link successor → s.next block = successor

section Steps
variable {θ : Type} [DecidableEq θ] {s : State θ} {m after : Memory} {t : θ}

/-- `alloc` is the run of its atomic steps that nothing interrupts. -/
theorem alloc_steps (agrees : Agrees m s) (idle : s.place t = .idle)
    (allocated : m.alloc = some (after, p)) :
    ∃ es u, run step s (.alloc t :: es) = some u ∧ Agrees after u ∧ u.place t = .idle ∧
      u.held = (p.ptr.map (t, ·)).toList ++ s.held := by
  unfold Memory.alloc at allocated
  cases head : m.head with
  | none =>
    simp only [head, Option.some.injEq, Prod.mk.injEq] at allocated
    obtain ⟨rfl, rfl⟩ := allocated
    have empty := agrees.head.trans head
    refine ⟨[], s.goTo t .idle, ?_, ⟨agrees.head, agrees.next⟩, ?_, rfl⟩
    · simp [run, step, idle, empty, State.test]
    · simp [State.goTo]
  | some current =>
    cases link : m.cells current with
    | bytes | object => simp [head, link] at allocated
    | link successor =>
      simp only [head, link, Option.some.injEq, Prod.mk.injEq] at allocated
      obtain ⟨rfl, rfl⟩ := allocated
      have first := agrees.head.trans head
      have read := agrees.next current successor link
      refine ⟨[.move t false, .move t false],
        { s.goTo t .idle with head := successor, held := (t, current) :: s.held },
        ?_, ⟨rfl, ?_⟩, ?_, rfl⟩
      · simp [run, step, State.move, State.test, State.goTo, idle, first, read]
      · intro block other linked
        by_cases here : block = current
        · simp [here] at linked
        · exact agrees.next block other (by simpa [here] using linked)
      · simp [State.goTo]

theorem free_steps (agrees : Agrees m s) (idle : s.place t = .idle) (mine : (t, block) ∈ s.held)
    (freed : m.free (some block) = some after) :
    ∃ es u, run step s (.free t block :: es) = some u ∧ Agrees after u ∧ u.place t = .idle ∧
      u.held = s.held.erase (t, block) := by
  obtain ⟨_, destroyed, rfl⟩ := Option.map_eq_some_iff.mp freed
  unfold Memory.destroy at destroyed
  split at destroyed
  · cases Option.some.inj destroyed
    refine ⟨[.move t false, .move t false],
      { s.goTo t .idle with
        head := some block
        next := Function.update s.next block m.head
        held := s.held.erase (t, block) }, ?_, ⟨rfl, ?_⟩, ?_, rfl⟩
    · simp [run, step, State.move, State.goTo, idle, mine, agrees.head]
    · intro other successor linked
      by_cases here : other = block
      · simpa [Memory.push, here] using linked
      · have before : m.cells other = .link successor := by
          simpa [Memory.push, here] using linked
        simpa [here] using agrees.next other successor before
    · simp [State.goTo]
  · contradiction
  · contradiction

end Steps

/-- How many pointers own the block. -/
def owners (pointers : List PoolPtr) (block : Nat) : Nat :=
  pointers.countP fun p => p.ptr = some block

/-- How many blocks are owned. -/
def Owners.ownedBlocks (s : Owners) (capacity : Nat) : Nat :=
  (List.range capacity).countP fun block => 0 < owners s.pointers block

theorem owners_append (pointers : List PoolPtr) (p : PoolPtr) (block : Nat) :
    owners (pointers ++ [p]) block = owners pointers block + p.holds block := by
  simp [owners, PoolPtr.holds, List.countP_append, List.countP_singleton]

theorem owners_set {pointers : List PoolPtr} (inside : i < pointers.length) (q : PoolPtr)
    (block : Nat) :
    owners (pointers.set i q) block = owners (pointers.eraseIdx i) block + q.holds block := by
  have moved := List.set_perm_cons_eraseIdx inside q
  have same := moved.countP_eq fun p => decide (p.ptr = some block)
  simpa [owners, PoolPtr.holds, List.countP_cons] using same

theorem owners_eraseIdx {pointers : List PoolPtr} (found : pointers[i]? = some p) (block : Nat) :
    owners pointers block = owners (pointers.eraseIdx i) block + p.holds block := by
  obtain ⟨inside, rfl⟩ := List.getElem?_eq_some_iff.mp found
  have same := owners_set inside pointers[i] block
  rwa [List.set_getElem_self] at same

@[simp] theorem PoolPtr.holds_moved (p : PoolPtr) (block : Nat) : p.moved.holds block = 0 := rfl

/-- Each block is once on the free list, which is made of links, or owned once
and an object; the destructor has run once for each release of the block, and
once for each object made there but the owned one. -/
structure Memory.Inv (capacity : Nat) (m : Memory) (owned : Nat → Nat) (free : List Nat) :
    Prop where
  linked : Linked m.next m.head free
  links : ∀ block ∈ free, ∃ next, m.cells block = .link next
  objects : ∀ block, 0 < owned block → m.cells block = .object
  partition : ∀ block, free.count block + owned block = if block < capacity then 1 else 0
  released : ∀ block, m.history.count (.released block) = m.history.count (.destroyed block)
  constructed : ∀ block,
    m.history.count (.constructed block) = m.history.count (.destroyed block) + owned block

namespace Memory.Inv
variable {capacity : Nat} {m : Memory} {owned : Nat → Nat} {free : List Nat}

theorem apart (inv : m.Inv capacity owned free) (member : block ∈ free) :
    owned block = 0 ∧ free.count block = 1 := by
  have once := inv.partition block
  have listed := List.count_pos_iff.mpr member
  split at once <;> omega

theorem frame (linked : Linked m.next m.head free) (outside : block ∉ free) (cell : Cell) :
    Linked (fun b => (Function.update m.cells block cell b).next) m.head free := by
  have same : (fun b => (Function.update m.cells block cell b).next) =
      Function.update m.next block cell.next := by
    funext b
    by_cases here : b = block
    · simp [here]
    · simp [here, Memory.next]
  rw [same]
  exact linked.frame outside _

theorem start (positive : 0 < capacity) :
    (Owners.start capacity).memory.Inv capacity (fun _ => 0) (List.range' 0 capacity) := by
  constructor
  case linked => exact start_linked (θ := Unit) capacity 0 positive
  case links =>
    intro block _
    exact ⟨_, rfl⟩
  case objects =>
    intro block owned
    contradiction
  case partition =>
    intro block
    rw [Nat.add_zero, ← List.range_eq_range']
    split
    case isTrue inside => exact List.count_eq_one_of_mem List.nodup_range (List.mem_range.mpr inside)
    case isFalse outside => exact List.count_eq_zero_of_not_mem (by simpa using outside)
  case released =>
    intro block
    rfl
  case constructed =>
    intro block
    rfl

theorem take {successor : Option Nat} (inv : m.Inv capacity owned (current :: rest))
    (head : m.head = some current) (link : m.cells current = .link successor) :
    Memory.Inv capacity
      { head := successor
        cells := Function.update m.cells current .object
        history := m.history ++ [.constructed current] }
      (fun block => owned block + PoolPtr.holds { pool := true, ptr := some current } block)
      rest := by
  obtain ⟨unowned, once⟩ := inv.apart List.mem_cons_self
  have left : current ∉ rest := by
    rw [List.count_cons_self] at once
    exact List.count_eq_zero.mp (by omega)
  have behind : Linked m.next successor rest := by
    have linked := inv.linked
    rw [head] at linked
    cases linked with
    | cons behind => rwa [Memory.next, link] at behind
  constructor
  case linked => exact frame (m := { m with head := successor }) behind left _
  case links =>
    intro block member
    have other : block ≠ current := fun same => left (same ▸ member)
    simpa [Function.update_of_ne other] using inv.links block (List.mem_cons_of_mem _ member)
  case objects =>
    intro block more
    by_cases here : block = current
    · simp [here]
    · have before := inv.objects block (by simpa [PoolPtr.holds, Ne.symm here] using more)
      simpa [Function.update_of_ne here] using before
  case partition =>
    intro block
    have before := inv.partition block
    rw [List.count_cons] at before
    simp only [beq_iff_eq] at before
    simp only [PoolPtr.holds, Option.some.injEq]
    omega
  case released =>
    intro block
    simpa using inv.released block
  case constructed =>
    intro block
    have before := inv.constructed block
    simp only [List.count_append, List.count_singleton, beq_iff_eq, Lifetime.constructed.injEq,
      reduceCtorEq, if_false, Nat.add_zero, PoolPtr.holds, Option.some.injEq]
    omega

theorem alloc (inv : m.Inv capacity owned free) :
    ∃ after p rest, m.alloc = some (after, p) ∧ (p.ptr ≠ none → p.pool = true) ∧
      (p.ptr = none ↔ free = []) ∧
      after.Inv capacity (fun block => owned block + p.holds block) rest := by
  unfold Memory.alloc
  have linked := inv.linked
  cases head : m.head with
  | none =>
    rw [head] at linked
    cases linked
    exact ⟨m, _, [], rfl, fun owns => absurd rfl owns, by simp, inv⟩
  | some current =>
    rw [head] at linked
    obtain ⟨rest, rfl, _⟩ := linked.uncons
    obtain ⟨successor, link⟩ := inv.links current List.mem_cons_self
    simp only [link]
    exact ⟨_, _, rest, rfl, fun _ => rfl, by simp, inv.take head link⟩

theorem free_object (object : m.cells block = .object) :
    m.free (some block) = some
      { head := some block
        cells := Function.update m.cells block (.link m.head)
        history := m.history ++ [.destroyed block, .released block] } := by
  simp [Memory.free, Memory.destroy, Memory.push, object]

theorem give
    (inv : m.Inv capacity
      (fun b => owned b + PoolPtr.holds { pool := true, ptr := some block } b) free) :
    ∃ after, m.free (some block) = some after ∧ after.Inv capacity owned (block :: free) := by
  have object : m.cells block = .object := inv.objects block (by simp [PoolPtr.holds])
  have once := inv.partition block
  have outside : block ∉ free := by
    intro member
    have := (inv.apart member).1
    simp [PoolPtr.holds] at this
  refine ⟨_, free_object object, ?_⟩
  constructor
  case linked =>
    apply Linked.cons
    simp only [Memory.next, Function.update_self, Cell.next]
    exact frame inv.linked outside _
  case links =>
    intro b member
    by_cases here : b = block
    · exact ⟨m.head, by simp [here]⟩
    · have listed : b ∈ free := (List.mem_cons.mp member).resolve_left here
      simpa [Function.update_of_ne here] using inv.links b listed
  case objects =>
    intro b more
    by_cases here : b = block
    · subst here
      simp only [PoolPtr.holds, if_true] at once
      split at once <;> omega
    · simpa [Function.update_of_ne here] using inv.objects b (by omega)
  case partition =>
    intro b
    have before := inv.partition b
    simp only [PoolPtr.holds, Option.some.injEq] at before
    rw [List.count_cons]
    simp only [beq_iff_eq]
    omega
  case released =>
    intro b
    have before := inv.released b
    simp [List.count_append, List.count_cons, before]
  case constructed =>
    intro b
    have before := inv.constructed b
    simp only [PoolPtr.holds, Option.some.injEq] at before
    simp [List.count_append, List.count_cons]
    omega

theorem release {p : PoolPtr} (pooled : p.ptr ≠ none → p.pool = true)
    (inv : m.Inv capacity (fun block => owned block + p.holds block) free) :
    ∃ after list, p.release m = some after ∧ after.Inv capacity owned list := by
  obtain ⟨pool, ptr⟩ := p
  cases ptr with
  | none =>
    exact ⟨m, free, rfl, by simpa [PoolPtr.holds] using inv⟩
  | some block =>
    obtain rfl : pool = true := pooled (by simp)
    obtain ⟨after, freed, inv⟩ := inv.give
    exact ⟨after, _, freed, inv⟩

theorem congr (inv : m.Inv capacity owned free) (same : ∀ block, owned block = others block) :
    m.Inv capacity others free :=
  (funext same : owned = others) ▸ inv

end Memory.Inv

structure Sound (capacity : Nat) (s : Owners) : Prop where
  memory : ∃ free, s.memory.Inv capacity (owners s.pointers) free
  pooled : ∀ p ∈ s.pointers, p.ptr ≠ none → p.pool = true

theorem start_sound (positive : 0 < capacity) : Sound capacity (Owners.start capacity) :=
  ⟨⟨_, Memory.Inv.start positive⟩, fun _ member => absurd member List.not_mem_nil⟩

/-- The pointers after `*this = std::move(other)`, apart from what `*this` owned. -/
theorem owners_assign {pointers : List PoolPtr} {here there : PoolPtr} {self other : Nat}
    (different : self ≠ other) (here_at : pointers[self]? = some here)
    (there_at : pointers[other]? = some there) (block : Nat) :
    owners pointers block =
      owners ((pointers.set self there).set other there.moved) block + here.holds block := by
  have selfInside := (List.getElem?_eq_some_iff.mp here_at).1
  have otherInside := (List.getElem?_eq_some_iff.mp there_at).1
  have still : (pointers.set self there)[other]? = some there := by
    rw [List.getElem?_set_ne different, there_at]
  have first := owners_set selfInside there block
  have otherStill : other < (pointers.set self there).length := by rwa [List.length_set]
  have second := owners_set otherStill there.moved block
  have kept := owners_eraseIdx still block
  have before := owners_eraseIdx here_at block
  rw [PoolPtr.holds_moved] at second
  omega

section Pooled
variable {pointers : List PoolPtr} {p : PoolPtr}

/-- A pointer that owns a block knows its pool. -/
def PoolPtr.Pooled (p : PoolPtr) : Prop := p.ptr ≠ none → p.pool = true

theorem PoolPtr.pooled_moved (p : PoolPtr) : p.moved.Pooled := fun owns => absurd rfl owns

theorem pooled_append (pooled : ∀ p ∈ pointers, p.Pooled) (last : p.Pooled) :
    ∀ q ∈ pointers ++ [p], q.Pooled := by
  intro q member
  rcases List.mem_append.mp member with member | member
  · exact pooled q member
  · exact List.mem_singleton.mp member ▸ last

theorem pooled_set (pooled : ∀ p ∈ pointers, p.Pooled) (i : Nat) (other : p.Pooled) :
    ∀ q ∈ pointers.set i p, q.Pooled := by
  intro q member
  rcases List.mem_or_eq_of_mem_set member with member | rfl
  · exact pooled q member
  · exact other

end Pooled

namespace Sound
variable {s : Owners} {self other : Nat}

theorem construct (sound : Sound capacity s) :
    ∃ t, s.step .construct = some t ∧ Sound capacity t := by
  obtain ⟨⟨free, inv⟩, pooled⟩ := sound
  refine ⟨_, rfl, ⟨free, inv.congr fun block => ?_⟩, ?_⟩
  · rw [owners_append]
    rfl
  · exact pooled_append pooled fun owns => absurd rfl owns

theorem alloc (sound : Sound capacity s) : ∃ t, s.step .alloc = some t ∧ Sound capacity t := by
  obtain ⟨⟨free, inv⟩, pooled⟩ := sound
  obtain ⟨after, p, rest, allocated, mine, _, inv⟩ := inv.alloc
  refine ⟨_, Option.map_eq_some_iff.mpr ⟨_, allocated, rfl⟩, ⟨rest, inv.congr fun block => ?_⟩, ?_⟩
  · rw [owners_append]
  · exact pooled_append pooled mine

theorem moveConstruct (sound : Sound capacity s) (live : other < s.pointers.length) :
    ∃ t, s.step (.moveConstruct other) = some t ∧ Sound capacity t := by
  obtain ⟨⟨free, inv⟩, pooled⟩ := sound
  have found := List.getElem?_eq_getElem live
  refine ⟨_, Option.map_eq_some_iff.mpr ⟨_, found, rfl⟩, ⟨free, inv.congr fun block => ?_⟩, ?_⟩
  · rw [owners_append, owners_set live, owners_eraseIdx found, PoolPtr.holds_moved]
    rfl
  · have left := pooled_set pooled other (PoolPtr.pooled_moved s.pointers[other])
    exact pooled_append left (pooled _ (List.getElem_mem live))

/-- Assigning a pointer to itself does nothing; else what the target owned is
freed and what the source owned changes hands. -/
theorem moveAssign (sound : Sound capacity s) (selfLive : self < s.pointers.length)
    (otherLive : other < s.pointers.length) :
    ∃ t, s.step (.moveAssign self other) = some t ∧ Sound capacity t := by
  obtain ⟨⟨free, inv⟩, pooled⟩ := sound
  have here := List.getElem?_eq_getElem selfLive
  have there := List.getElem?_eq_getElem otherLive
  by_cases same : self = other
  · refine ⟨s, ?_, ⟨free, inv⟩, pooled⟩
    simp [Owners.step, there, same]
  · have apart := inv.congr (owners_assign same here there)
    obtain ⟨after, list, released, inv⟩ := apart.release (pooled _ (List.getElem_mem selfLive))
    have stepped : s.step (.moveAssign self other) = some
        { memory := after
          pointers := (s.pointers.set self s.pointers[other]).set other
            s.pointers[other].moved } := by
      simp only [Owners.step, here, there, Option.bind_some, if_neg same, released, Option.map_some]
    have assigned := pooled_set pooled self (pooled _ (List.getElem_mem otherLive))
    exact ⟨_, stepped, ⟨list, inv⟩, pooled_set assigned other (PoolPtr.pooled_moved _)⟩

theorem destroy (sound : Sound capacity s) (live : self < s.pointers.length) :
    ∃ t, s.step (.destroy self) = some t ∧ Sound capacity t := by
  obtain ⟨⟨free, inv⟩, pooled⟩ := sound
  have found := List.getElem?_eq_getElem live
  have apart := inv.congr (owners_eraseIdx found)
  obtain ⟨after, list, released, inv⟩ := apart.release (pooled _ (List.getElem_mem live))
  have stepped : s.step (.destroy self) = some
      { memory := after, pointers := s.pointers.eraseIdx self } := by
    simp only [Owners.step, found, Option.bind_some, released, Option.map_some]
  exact ⟨_, stepped, ⟨list, inv⟩, fun p member => pooled p (List.mem_of_mem_eraseIdx member)⟩

/-- Every call on live variables is defined and keeps the pool sound. -/
theorem step (sound : Sound capacity s) (live : call.Live s) :
    ∃ t, s.step call = some t ∧ Sound capacity t := by
  cases call with
  | construct => exact sound.construct
  | alloc => exact sound.alloc
  | moveConstruct other => exact sound.moveConstruct live
  | moveAssign self other => exact sound.moveAssign live.1 live.2
  | destroy self => exact sound.destroy live

end Sound

theorem live_of_step {s t : Owners} (stepped : s.step call = some t) : call.Live s := by
  cases call with
  | construct | alloc => trivial
  | moveConstruct other =>
    obtain ⟨p, found, _⟩ := Option.map_eq_some_iff.mp stepped
    exact (List.getElem?_eq_some_iff.mp found).1
  | moveAssign self other =>
    obtain ⟨here, found, stepped⟩ := Option.bind_eq_some_iff.mp stepped
    obtain ⟨there, also, _⟩ := Option.bind_eq_some_iff.mp stepped
    exact ⟨(List.getElem?_eq_some_iff.mp found).1, (List.getElem?_eq_some_iff.mp also).1⟩
  | destroy self =>
    obtain ⟨p, found, _⟩ := Option.bind_eq_some_iff.mp stepped
    exact (List.getElem?_eq_some_iff.mp found).1

theorem run_sound {s : Owners} (positive : 0 < capacity)
    (reached : run Owners.step (Owners.start capacity) calls = some s) : Sound capacity s := by
  refine run_invariant ?_ (start_sound positive) reached
  intro u call t sound stepped
  obtain ⟨after, same, sound⟩ := sound.step (live_of_step stepped)
  cases Option.some.inj (stepped.symm.trans same)
  exact sound

/-- All blocks are owned when none is free. -/
theorem Sound.ownedBlocks_eq_iff {s : Owners} (inv : s.memory.Inv capacity (owners s.pointers) free) :
    s.ownedBlocks capacity = capacity ↔ free = [] := by
  have length : (List.range capacity).length = capacity := List.length_range
  rw [Owners.ownedBlocks]
  constructor
  · intro all
    have all := List.countP_eq_length.mp (all.trans length.symm)
    apply List.eq_nil_iff_forall_not_mem.mpr
    intro block member
    have once := inv.partition block
    have listed := List.count_pos_iff.mpr member
    by_cases inside : block < capacity
    · have owned := of_decide_eq_true (all block (List.mem_range.mpr inside))
      rw [if_pos inside] at once
      omega
    · rw [if_neg inside] at once
      omega
  · intro none_free
    refine (List.countP_eq_length.mpr fun block member => ?_).trans length
    have once := inv.partition block
    rw [if_pos (List.mem_range.mp member), none_free, List.count_nil] at once
    exact decide_eq_true (by omega)

/-- After any calls each block is on the free list once or owned by one pointer,
and no other block is; the destructor has run once per release, and never for
the object that is owned; any further call is defined; and `alloc` returns null
exactly when all blocks are owned. -/
theorem ownership {s : Owners} (capacity : Nat) (positive : 0 < capacity) (calls : List Call)
    (reached : run Owners.step (Owners.start capacity) calls = some s) :
    (∃ free, Linked s.memory.next s.memory.head free ∧ ∀ block,
      free.count block + owners s.pointers block = if block < capacity then 1 else 0) ∧
    (∀ block,
      s.memory.history.count (.released block) = s.memory.history.count (.destroyed block) ∧
      s.memory.history.count (.constructed block) =
        s.memory.history.count (.destroyed block) + owners s.pointers block) ∧
    (∀ call : Call, call.Live s → ∃ t, s.step call = some t) ∧
    ∃ memory p, s.memory.alloc = some (memory, p) ∧
      (p.ptr = none ↔ s.ownedBlocks capacity = capacity) := by
  have sound := run_sound positive reached
  obtain ⟨free, inv⟩ := sound.memory
  refine ⟨⟨free, inv.linked, inv.partition⟩, ?_, ?_, ?_⟩
  · intro block
    exact ⟨inv.released block, inv.constructed block⟩
  · intro call live
    obtain ⟨t, stepped, _⟩ := sound.step live
    exact ⟨t, stepped⟩
  · obtain ⟨memory, p, _, allocated, _, null, _⟩ := inv.alloc
    exact ⟨memory, p, allocated, null.trans (Sound.ownedBlocks_eq_iff inv).symm⟩

/-- Two blocks, the first released by an assignment over its pointer. -/
theorem ownership_two : ∃ s,
    run Owners.step (Owners.start 2) [.alloc, .alloc, .moveAssign 0 1, .moveConstruct 0] = some s ∧
    (∃ free, Linked s.memory.next s.memory.head free ∧ ∀ block,
      free.count block + owners s.pointers block = if block < 2 then 1 else 0) ∧
    (∀ block,
      s.memory.history.count (.released block) = s.memory.history.count (.destroyed block) ∧
      s.memory.history.count (.constructed block) =
        s.memory.history.count (.destroyed block) + owners s.pointers block) ∧
    (∀ call : Call, call.Live s → ∃ t, s.step call = some t) ∧
    ∃ memory p, s.memory.alloc = some (memory, p) ∧ (p.ptr = none ↔ s.ownedBlocks 2 = 2) :=
  ⟨_, rfl, ownership 2 (by decide) [.alloc, .alloc, .moveAssign 0 1, .moveConstruct 0] rfl⟩

end UltraDisplay.Pool
