import UltraDisplay.Library.LinkedList
import UltraDisplay.Library.Transition
import Mathlib.Data.List.Nodup

/-! `Pool<T>` of shared/util/pool.hpp as a lock-free stack of blocks. The load
of `head_`, the read of `current_head->next`, the write of `node->next` and each
compare-exchange are single steps of any number of threads. A block is its index
in the mapped memory. `next` shares its bytes with the block's data, so the
owner of a block may overwrite it. -/
namespace UltraDisplay.Pool
open LinkedList Transition

/-- Where a thread stands; each constructor holds its local variables. -/
inductive Place where
  | idle
  | allocLoaded (current : Nat)
  | allocRead (current : Nat) (next : Option Nat)
  | freeLoaded (node : Nat) (current : Option Nat)
  | freeLinked (node : Nat) (current : Option Nat)

/-- `held` lists the blocks `alloc` has returned and `free` has not taken back,
each with its owner. -/
structure State (θ : Type) where
  head : Option Nat
  next : Nat → Option Nat
  place : θ → Place
  held : List (θ × Nat)

/-- `alloc` and `free` call and load `head_`; `move` is the next step of the
call in progress, with a weak compare-exchange that may fail for no reason;
`write` stores into the bytes of an owned block that `next` shares. -/
inductive Event (θ : Type) where
  | alloc (t : θ)
  | free (t : θ) (block : Nat)
  | move (t : θ) (spurious : Bool)
  | write (t : θ) (block : Nat) (value : Option Nat)

variable {θ : Type} [DecidableEq θ]

def State.goTo (s : State θ) (t : θ) (place : Place) : State θ :=
  { s with place := Function.update s.place t place }

/-- The test `while (current_head != nullptr)`: an empty pool returns null. -/
def State.test (s : State θ) (t : θ) : Option Nat → State θ
  | none => s.goTo t .idle
  | some current => s.goTo t (.allocLoaded current)

def State.move (s : State θ) (t : θ) (spurious : Bool) : Option (State θ) :=
  match s.place t with
  | .idle => none
  | .allocLoaded current => some (s.goTo t (.allocRead current (s.next current)))
  | .allocRead current next =>
      if s.head = some current ∧ spurious = false then
        some { s.goTo t .idle with head := next, held := (t, current) :: s.held }
      else some (s.test t s.head)
  | .freeLoaded node current =>
      some { s.goTo t (.freeLinked node current) with next := Function.update s.next node current }
  | .freeLinked node current =>
      if s.head = current ∧ spurious = false then some { s.goTo t .idle with head := some node }
      else some (s.goTo t (.freeLoaded node s.head))

def step (s : State θ) : Event θ → Option (State θ)
  | .alloc t =>
      match s.place t with
      | .idle => some (s.test t s.head)
      | _ => none
  | .free t block =>
      match s.place t with
      | .idle =>
          if (t, block) ∈ s.held then
            some { s.goTo t (.freeLoaded block s.head) with held := s.held.erase (t, block) }
          else none
      | _ => none
  | .move t spurious => s.move t spurious
  | .write t block value =>
      if (t, block) ∈ s.held then some { s with next := Function.update s.next block value }
      else none

/-- The constructor links the blocks in order and points `head_` at the first. -/
def State.start (θ : Type) (capacity : Nat) : State θ :=
  { head := some 0
    next := fun i => if i < capacity - 1 then some (i + 1) else none
    place := fun _ => .idle
    held := [] }

/-- No two owners hold one block and no held block is on the free list. -/
def Exclusive (s : State θ) : Prop :=
  (s.held.map Prod.snd).Nodup ∧ ∀ block, Reachable s.next s.head block → block ∉ s.held.map Prod.snd

/-- A compare-exchange of `alloc` about to succeed installs the successor the
head block has now, not one read before the block left the list and came back. -/
def Place.Fresh (head : Option Nat) (next : Nat → Option Nat) : Place → Prop
  | .allocRead current successor => head = some current → next current = successor
  | _ => True

def NextFresh (s : State θ) : Event θ → Prop
  | .move t false => (s.place t).Fresh s.head s.next
  | _ => True

instance (head : Option Nat) (next : Nat → Option Nat) :
    (place : Place) → Decidable (place.Fresh head next)
  | .allocRead current successor =>
      inferInstanceAs (Decidable (head = some current → next current = successor))
  | .idle | .allocLoaded _ | .freeLoaded _ _ | .freeLinked _ _ => inferInstanceAs (Decidable True)

instance (s : State θ) : (e : Event θ) → Decidable (NextFresh s e)
  | .move t false => inferInstanceAs (Decidable ((s.place t).Fresh s.head s.next))
  | .move _ true | .alloc _ | .free _ _ | .write _ _ _ => inferInstanceAs (Decidable True)

/-- The block a thread is giving back, no longer held and not yet on the list. -/
def Place.node : Place → Option Nat
  | .freeLoaded node _ | .freeLinked node _ => some node
  | _ => none

/-- What the node of a finished `node->next = current_head` contains. -/
def Place.Linking (next : Nat → Option Nat) : Place → Prop
  | .freeLinked node current => next node = current
  | _ => True

structure Inv (s : State θ) (free : List Nat) : Prop where
  linked : Linked s.next s.head free
  distinct : free.Nodup
  owners : (s.held.map Prod.snd).Nodup
  apart : ∀ block ∈ free, block ∉ s.held.map Prod.snd
  returning : ∀ t node, (s.place t).node = some node →
    node ∉ free ∧ node ∉ s.held.map Prod.snd ∧ ∀ u, (s.place u).node = some node → u = t
  linking : ∀ t, (s.place t).Linking s.next

omit [DecidableEq θ] in
theorem Inv.exclusive {s : State θ} (inv : Inv s free) : Exclusive s :=
  ⟨inv.owners, fun block reached => inv.apart block (inv.linked.reachable_mem reached)⟩

omit [DecidableEq θ] in
theorem start_linked (capacity i : Nat) (inside : i < capacity) :
    Linked (State.start θ capacity).next (some i) (List.range' i (capacity - i)) := by
  obtain ⟨left, more⟩ : ∃ left, capacity - i = left + 1 := ⟨capacity - i - 1, by omega⟩
  induction left generalizing i with
  | zero =>
    rw [more]
    apply Linked.cons
    have last : ¬ i < capacity - 1 := by omega
    simp only [State.start, if_neg last]
    exact .nil
  | succ left ih =>
    rw [more, List.range'_succ]
    apply Linked.cons
    have within : i < capacity - 1 := by omega
    simp only [State.start, if_pos within]
    have rest := ih (i + 1) (by omega) (by omega)
    rwa [show capacity - (i + 1) = left + 1 by omega] at rest

omit [DecidableEq θ] in
theorem start_inv (positive : 0 < capacity) :
    Inv (State.start θ capacity) (List.range' 0 capacity) := by
  refine ⟨start_linked capacity 0 positive, List.nodup_range', List.nodup_nil, ?_, ?_, ?_⟩
  · intro block _ held
    contradiction
  · intro t node giving
    contradiction
  · intro t
    trivial

theorem Inv.goTo {s : State θ} (inv : Inv s free) (t : θ) {place : Place}
    (keeps : place.node = none) : Inv (s.goTo t place) free := by
  refine ⟨inv.linked, inv.distinct, inv.owners, inv.apart, ?_, ?_⟩
  · intro u node giving
    have other : u ≠ t := by
      rintro rfl
      simp [State.goTo, keeps] at giving
    simp only [State.goTo, Function.update_of_ne other] at giving
    obtain ⟨outside, unheld, alone⟩ := inv.returning u node giving
    refine ⟨outside, unheld, ?_⟩
    intro v giving
    by_cases same : v = t
    · subst v
      simp [State.goTo, keeps] at giving
    · exact alone v (by simpa only [State.goTo, Function.update_of_ne same] using giving)
  · intro u
    by_cases same : u = t
    · subst u
      simp only [State.goTo, Function.update_self]
      cases place with
      | freeLinked => simp [Place.node] at keeps
      | _ => trivial
    · simpa only [State.goTo, Function.update_of_ne same] using inv.linking u

theorem Inv.test {s : State θ} (inv : Inv s free) (t : θ) (current : Option Nat) :
    Inv (s.test t current) free := by
  cases current with
  | none => exact inv.goTo t rfl
  | some block => exact inv.goTo t rfl

omit [DecidableEq θ] in
/-- A write to a block that is neither free nor being given back by another
thread changes no pointer the pool relies on. -/
theorem Inv.overwrite {s : State θ} (inv : Inv s free) (outside : block ∉ free)
    (value : Option Nat)
    (linking : ∀ u, (s.place u).node = some block →
      (s.place u).Linking (Function.update s.next block value)) :
    Inv { s with next := Function.update s.next block value } free := by
  refine ⟨inv.linked.frame outside value, inv.distinct, inv.owners, inv.apart, inv.returning, ?_⟩
  intro u
  by_cases giving : (s.place u).node = some block
  · exact linking u giving
  · have before := inv.linking u
    change (s.place u).Linking (Function.update s.next block value)
    cases place : s.place u with
    | freeLinked node current =>
      have other : node ≠ block := by
        rintro rfl
        exact giving (by rw [place]; rfl)
      rw [place] at before
      exact (Function.update_of_ne other value s.next).trans before
    | _ => trivial

/-- A successful pop with a fresh successor takes the first block of the list. -/
theorem Inv.pop {s : State θ} (inv : Inv s free) (t : θ) (head : s.head = some current)
    (fresh : s.next current = successor) :
    ∃ rest, Inv { s.goTo t .idle with head := successor, held := (t, current) :: s.held } rest := by
  obtain ⟨rest, rfl, linked⟩ := Linked.uncons (head ▸ inv.linked)
  have left : Inv (s.goTo t .idle) (current :: rest) := inv.goTo t rfl
  obtain ⟨missing, distinct⟩ := List.nodup_cons.mp inv.distinct
  refine ⟨rest, fresh ▸ linked, distinct, ?_, ?_, ?_, left.linking⟩
  · exact List.nodup_cons.mpr ⟨inv.apart current List.mem_cons_self, inv.owners⟩
  · intro block member held
    rcases List.mem_cons.mp held with same | held
    · rw [same] at member
      exact missing member
    · exact inv.apart block (List.mem_cons_of_mem _ member) held
  · intro u node giving
    obtain ⟨outside, unheld, alone⟩ := left.returning u node giving
    refine ⟨fun member => outside (List.mem_cons_of_mem _ member), ?_, alone⟩
    intro held
    rcases List.mem_cons.mp held with same | held
    · rw [same] at outside
      exact outside List.mem_cons_self
    · exact unheld held

theorem held_unique {s : State θ} (inv : Inv s free) (member : (t, block) ∈ s.held) :
    block ∉ (s.held.erase (t, block)).map Prod.snd := by
  intro again
  have split := (List.perm_cons_erase member).map Prod.snd
  have distinct := split.nodup_iff.mp inv.owners
  exact (List.nodup_cons.mp distinct).1 again

theorem Inv.give {s : State θ} (inv : Inv s free) (member : (t, block) ∈ s.held)
    (current : Option Nat) :
    Inv { s.goTo t (.freeLoaded block current) with held := s.held.erase (t, block) } free := by
  have fewer : ((s.held.erase (t, block)).map Prod.snd).Sublist (s.held.map Prod.snd) :=
    List.erase_sublist.map _
  have owned : block ∈ s.held.map Prod.snd := List.mem_map_of_mem member
  refine ⟨inv.linked, inv.distinct, inv.owners.sublist fewer, ?_, ?_, ?_⟩
  · intro other free held
    exact inv.apart other free (fewer.subset held)
  · intro u node giving
    by_cases same : u = t
    · subst u
      simp only [State.goTo, Function.update_self, Place.node, Option.some.injEq] at giving
      subst node
      refine ⟨fun free => inv.apart block free owned, held_unique inv member, ?_⟩
      intro v giving
      by_contra other
      simp only [State.goTo, Function.update_of_ne other] at giving
      exact (inv.returning v block giving).2.1 owned
    · simp only [State.goTo, Function.update_of_ne same] at giving
      obtain ⟨outside, unheld, alone⟩ := inv.returning u node giving
      refine ⟨outside, fun held => unheld (fewer.subset held), ?_⟩
      intro v giving
      by_cases again : v = t
      · subst v
        simp only [State.goTo, Function.update_self, Place.node, Option.some.injEq] at giving
        subst node
        exact absurd owned unheld
      · simp only [State.goTo, Function.update_of_ne again] at giving
        exact alone v giving
  · intro u
    by_cases same : u = t
    · subst u
      simp only [State.goTo, Function.update_self]
      trivial
    · simpa only [State.goTo, Function.update_of_ne same] using inv.linking u

theorem Inv.carry {s : State θ} (inv : Inv s free) (t : θ) {place : Place}
    (before : (s.place t).node = some node) (after : place.node = some node)
    (linking : place.Linking s.next) : Inv (s.goTo t place) free := by
  have nodes : ∀ u, ((s.goTo t place).place u).node = (s.place u).node := by
    intro u
    by_cases same : u = t
    · subst u
      simp only [State.goTo, Function.update_self, before, after]
    · simp only [State.goTo, Function.update_of_ne same]
  refine ⟨inv.linked, inv.distinct, inv.owners, inv.apart, ?_, ?_⟩
  · intro u other giving
    rw [nodes] at giving
    obtain ⟨outside, unheld, alone⟩ := inv.returning u other giving
    exact ⟨outside, unheld, fun v giving => alone v (nodes v ▸ giving)⟩
  · intro u
    by_cases same : u = t
    · subst u
      simpa only [State.goTo, Function.update_self] using linking
    · simpa only [State.goTo, Function.update_of_ne same] using inv.linking u

/-- A successful push puts the linked node in front of the list. -/
theorem Inv.push {s : State θ} (inv : Inv s free) (t : θ)
    (place : s.place t = .freeLinked node s.head) :
    Inv { s.goTo t .idle with head := some node } (node :: free) := by
  have giving : (s.place t).node = some node := by
    rw [place]
    rfl
  obtain ⟨outside, unheld, alone⟩ := inv.returning t node giving
  have linking : s.next node = s.head := by
    have := inv.linking t
    rwa [place] at this
  have left : Inv (s.goTo t .idle) free := inv.goTo t rfl
  refine ⟨.cons (linking ▸ inv.linked), List.nodup_cons.mpr ⟨outside, inv.distinct⟩, inv.owners,
    ?_, ?_, left.linking⟩
  · intro block member
    rcases List.mem_cons.mp member with rfl | member
    · exact unheld
    · exact inv.apart block member
  · intro u other giving
    obtain ⟨away, others, single⟩ := left.returning u other giving
    refine ⟨?_, others, single⟩
    intro member
    rcases List.mem_cons.mp member with rfl | member
    · have same : u ≠ t := by
        rintro rfl
        simp [State.goTo, Place.node] at giving
      simp only [State.goTo, Function.update_of_ne same] at giving
      exact same (alone u giving)
    · exact away member

theorem move_inv {s u : State θ} (inv : Inv s free) (fresh : NextFresh s (.move t spurious))
    (stepped : s.move t spurious = some u) : ∃ rest, Inv u rest := by
  unfold State.move at stepped
  cases place : s.place t with
  | idle => simp [place] at stepped
  | allocLoaded current =>
    simp only [place, Option.some.injEq] at stepped
    subst u
    exact ⟨free, inv.goTo t rfl⟩
  | allocRead current successor =>
    simp only [place] at stepped
    split at stepped
    · rename_i swapped
      obtain ⟨head, rfl⟩ := swapped
      cases Option.some.inj stepped
      simp only [NextFresh, place] at fresh
      exact inv.pop t head (fresh head)
    · cases Option.some.inj stepped
      exact ⟨free, inv.test t s.head⟩
  | freeLoaded node current =>
    simp only [place, Option.some.injEq] at stepped
    subst u
    have giving : (s.place t).node = some node := by
      rw [place]
      rfl
    obtain ⟨outside, _, alone⟩ := inv.returning t node giving
    have written := inv.overwrite outside current fun v giving => by
      rw [alone v giving, place]
      trivial
    refine ⟨free, written.carry t giving rfl ?_⟩
    exact Function.update_self node current s.next
  | freeLinked node current =>
    simp only [place] at stepped
    split at stepped
    · rename_i swapped
      obtain ⟨rfl, rfl⟩ := swapped
      cases Option.some.inj stepped
      exact ⟨node :: free, inv.push t place⟩
    · cases Option.some.inj stepped
      refine ⟨free, inv.carry t ?_ rfl trivial⟩
      rw [place]
      rfl

theorem step_inv (s : State θ) (e : Event θ) (u : State θ) (inv : ∃ free, Inv s free)
    (fresh : NextFresh s e) (stepped : step s e = some u) : ∃ free, Inv u free := by
  obtain ⟨free, inv⟩ := inv
  cases e with
  | alloc t =>
    simp only [step] at stepped
    split at stepped
    · cases Option.some.inj stepped
      exact ⟨free, inv.test t s.head⟩
    · contradiction
  | free t block =>
    simp only [step] at stepped
    split at stepped
    · split at stepped
      · rename_i member
        cases Option.some.inj stepped
        exact ⟨free, inv.give member s.head⟩
      · contradiction
    · contradiction
  | move t spurious => exact move_inv inv fresh stepped
  | write t block value =>
    simp only [step] at stepped
    split at stepped
    · rename_i member
      cases Option.some.inj stepped
      have owned : block ∈ s.held.map Prod.snd := List.mem_map_of_mem member
      refine ⟨free, inv.overwrite (fun inside => inv.apart block inside owned) value ?_⟩
      intro v giving
      exact absurd owned (inv.returning v block giving).2.1
    · contradiction

/-- For any capacity, any number of threads and any interleaving: while every
successful pop installs the current successor of the head, no block has two
owners and no owned block can be allocated again. -/
theorem fresh_exclusive {s : State θ} (capacity : Nat) (es : List (Event θ))
    (positive : 0 < capacity) (fresh : Guarded step NextFresh (State.start θ capacity) es)
    (reached : run step (State.start θ capacity) es = some s) : Exclusive s := by
  obtain ⟨free, inv⟩ := run_guarded step_inv fresh ⟨_, start_inv positive⟩ reached
  exact inv.exclusive

/-- The steps of an `alloc` and a `free` that nothing interrupts. -/
def allocAlone (t : θ) : List (Event θ) := [.alloc t, .move t false, .move t false]

def freeAlone (t : θ) (block : Nat) : List (Event θ) :=
  [.free t block, .move t false, .move t false]

/-- Two threads take turns on a pool of two blocks, and the head block is given
back and taken again. -/
theorem fresh_exclusive_two : ∃ s, run step (State.start Bool 2)
      (allocAlone true ++ [.write true 0 (some 9)] ++ allocAlone false ++ freeAlone true 0 ++
        allocAlone false) = some s ∧
    s.held = [(false, 0), (false, 1)] ∧ Exclusive s :=
  ⟨_, rfl, rfl, fresh_exclusive 2
    (allocAlone true ++ [.write true 0 (some 9)] ++ allocAlone false ++ freeAlone true 0 ++
      allocAlone false) (by decide) (by decide) rfl⟩

/-- One thread reads the successor of block 0 and is suspended while the other
takes both blocks and returns block 0. The stale compare-exchange succeeds, puts
the owned block 1 back on the list, and the next `alloc` returns it again. -/
theorem stale_pop_shares_block : ∃ s, run step (State.start Bool 2)
      ([.alloc true, .move true false] ++ allocAlone false ++ allocAlone false ++
        freeAlone false 0 ++ [.move true false] ++ allocAlone true) = some s ∧
    s.held = [(true, 1), (true, 0), (false, 1)] ∧ ¬ Exclusive s := by
  refine ⟨_, rfl, rfl, ?_⟩
  intro exclusive
  exact absurd exclusive.1 (by decide)

end UltraDisplay.Pool
