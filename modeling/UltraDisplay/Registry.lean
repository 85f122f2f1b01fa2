import Mathlib.Logic.Function.Basic
import UltraDisplay.Inbox

/-! `g_states` and `g_server_states`, where both transports keep what they receive under
their own address. A call looks its state up once and works on the reference. `A` are the
addresses, which are used again, and every state is used by `n` receivers. -/
namespace UltraDisplay.Registry
open Transition Inbox
variable {A : Type} [DecidableEq A]

/-- What makes a call: the thread that pushes, or a receiver. -/
inductive Caller where
  | pusher
  | receiver (i : Nat)
  deriving DecidableEq

def caller : Inbox.Event → Caller
  | .arrives _ | .move .lockToPush | .move .push | .move (.notify _) => .pusher
  | .call i _ | .wake i _ | .move (.lock i) | .move (.look i) => .receiver i

def starts : Inbox.Event → Bool
  | .arrives _ | .call _ _ => true
  | _ => false

inductive Event (A : Type) where
  | construct (this : A)
  | act (id : Nat) (event : Inbox.Event)
  | destruct (id : Nat)

/-- The transports in the order of their construction, the states on the heap and the
references that calls have. -/
structure Process (A : Type) where
  objects : List (Option A) := []
  table : A → Option Nat := fun _ => none
  heap : Nat → Option Inbox.State := fun _ => none
  next : Nat := 0
  refs : Nat → Caller → Option Nat := fun _ _ => none

namespace Process

def getState (n : Nat) (process : Process A) (this : A) : Nat × Process A :=
  match process.table this with
  | some ref => (ref, process)
  | none =>
    (process.next,
      { process with
        table := Function.update process.table this (some process.next)
        heap := Function.update process.heap process.next (some (Inbox.start n))
        next := process.next + 1 })

def removeState (process : Process A) (this : A) : Process A :=
  match process.table this with
  | none => process
  | some ref =>
    { process with
      table := Function.update process.table this none
      heap := Function.update process.heap ref none }

/-- What a call works on, if that is still there. -/
def act (process : Process A) (ref : Nat) (event : Inbox.Event) : Option (Process A) :=
  (process.heap ref).bind fun inbox => (Inbox.step inbox event).map fun inbox =>
    { process with heap := Function.update process.heap ref (some inbox) }

def step (n : Nat) (process : Process A) : Event A → Option (Process A)
  | .construct this =>
    some { (process.getState n this).2 with objects := process.objects ++ [some this] }
  | .act id event =>
    process.objects[id]?.join.bind fun this =>
      if starts event then
        let (ref, process) := process.getState n this
        let calls := Function.update (process.refs id) (caller event) (some ref)
        { process with refs := Function.update process.refs id calls }.act ref event
      else (process.refs id (caller event)).bind fun ref => process.act ref event
  | .destruct id =>
    process.objects[id]?.join.map fun this =>
      { process.removeState this with objects := process.objects.set id none }

end Process

def Vacant (inbox : Inbox.State) : Prop :=
  inbox.pusher = .idle ∧ ∀ place ∈ inbox.receivers, place = .outside

instance (inbox : Inbox.State) : Decidable (Vacant inbox) := by
  unfold Vacant
  infer_instance

/-- Each transport with a state of its own, until it is destructed. No two have an address
at a time, and no call outlives its transport. -/
abbrev Family (A : Type) : Type := List (Option (A × Inbox.State))

def Family.step (n : Nat) (family : Family A) : Event A → Option (Family A)
  | .construct this =>
    if family.any (·.any (·.1 = this)) then none else some (family ++ [some (this, Inbox.start n)])
  | .act id event =>
    family[id]?.join.bind fun (this, inbox) =>
      (Inbox.step inbox event).map fun inbox => family.set id (some (this, inbox))
  | .destruct id =>
    family[id]?.join.bind fun (_, inbox) => if Vacant inbox then some (family.set id none) else none

/-- The caller is inside of a call, which goes on with the reference that it has. -/
def Inside (inbox : Inbox.State) : Caller → Prop
  | .pusher => inbox.pusher ≠ .idle
  | .receiver i => ∃ place, inbox.receivers[i]? = some place ∧ place ≠ .outside

def Family.Live (family : Family A) (id : Nat) (this : A) (inbox : Inbox.State) : Prop :=
  family[id]? = some (some (this, inbox))

/-- Each transport alive has its own state under its address, and nothing else is there. -/
structure Matches (family : Family A) (process : Process A) : Prop where
  objects : process.objects = family.map (Option.map Prod.fst)
  state : ∀ id this inbox, family.Live id this inbox → ∃ ref, process.table this = some ref ∧
    process.heap ref = some inbox ∧ ∀ caller, Inside inbox caller → process.refs id caller = some ref
  owned : ∀ this ref, process.table this = some ref →
    ref < process.next ∧ ∃ id inbox, family.Live id this inbox
  distinct : ∀ this other ref, process.table this = some ref → process.table other = some ref →
    this = other
  unique : ∀ id other this inbox inbox', family.Live id this inbox →
    family.Live other this inbox' → id = other

variable {n : Nat} {family next : Family A} {process : Process A} {id : Nat} {this : A}
  {inbox after : Inbox.State} {event : Inbox.Event}

theorem start_vacant (n : Nat) (caller : Caller) : ¬ Inside (Inbox.start n) caller := by
  cases caller with
  | pusher => simp [Inside, Inbox.start]
  | receiver i =>
    rintro ⟨place, stands, inside⟩
    exact inside (List.eq_of_mem_replicate (List.mem_of_getElem? stands))

theorem inside_set {receivers : List Place} {i j : Nat} {here next place : Place}
    (stands : receivers[i]? = some here) (going : here ≠ .outside)
    (after : (receivers.set i next)[j]? = some place) (inside : place ≠ .outside) :
    ∃ place, receivers[j]? = some place ∧ place ≠ .outside := by
  by_cases same : j = i
  · subst same
    exact ⟨here, stands, going⟩
  · rw [List.getElem?_set_ne (Ne.symm same)] at after
    exact ⟨place, after, inside⟩

/-- The caller takes a step inside of its call, and nobody enters one. -/
def GoesOn (inbox after : Inbox.State) (caller : Caller) : Prop :=
  Inside inbox caller ∧ ∀ other, Inside after other → Inside inbox other

theorem pusher_goes_on (going : inbox.pusher ≠ .idle)
    (receivers : ∀ i, Inside after (.receiver i) → Inside inbox (.receiver i)) :
    GoesOn inbox after .pusher := by
  refine ⟨going, fun other inside => ?_⟩
  cases other with
  | pusher => exact going
  | receiver j => exact receivers j inside

theorem receiver_goes_on {i : Nat} {here next : Place} (stands : inbox.receivers[i]? = some here)
    (going : here ≠ .outside) (receivers : after.receivers = inbox.receivers.set i next)
    (pusher : after.pusher = inbox.pusher) : GoesOn inbox after (.receiver i) := by
  refine ⟨⟨here, stands, going⟩, fun other inside => ?_⟩
  cases other with
  | pusher => rwa [Inside, pusher] at inside
  | receiver j =>
    obtain ⟨place, later, inside⟩ := inside
    rw [receivers] at later
    exact inside_set stands going later inside

theorem look_goes_on {i : Nat} {here : Place} (stands : inbox.receivers[i]? = some here)
    (going : here ≠ .outside) {empty : Inbox.State} (without : GoesOn inbox empty (.receiver i)) :
    GoesOn inbox (inbox.look i empty) (.receiver i) := by
  unfold State.look
  split
  case h_1 => exact without
  case h_2 => exact receiver_goes_on stands going rfl rfl

/-- A thread that moves by itself is inside of a call, and so is one that a wait lets go. -/
theorem step_goes_on (stepped : Stepped inbox event after) (goes : starts event = false) :
    GoesOn inbox after (caller event) := by
  cases stepped with
  | lockToPush pusher | push pusher | notifyNone pusher =>
    exact pusher_goes_on (by simp [pusher]) fun _ inside => inside
  | notifyOne pusher stands =>
    refine pusher_goes_on (by simp [pusher]) fun j inside => ?_
    obtain ⟨place, later, inside⟩ := inside
    exact inside_set stands (by simp) later inside
  | enter free stands | resume free stands | wake stands =>
    exact receiver_goes_on stands (by simp) rfl rfl
  | lookFirst stands | lookAgain stands =>
    refine look_goes_on stands (by simp) ?_
    split <;> exact receiver_goes_on stands (by simp) rfl rfl
  | arrives | call => cases goes

/-- Only the thread that takes a step enters a call, and it starts with `get_state`. -/
theorem step_inside (stepped : Inbox.step inbox event = some after) :
    (starts event = false → Inside inbox (caller event)) ∧ ∀ other, Inside after other →
      Inside inbox other ∨ starts event = true ∧ other = caller event := by
  have shape := Inbox.step_cases stepped
  cases begins : starts event with
  | false =>
    obtain ⟨inside, frame⟩ := step_goes_on shape begins
    exact ⟨fun _ => inside, fun other inside => .inl (frame other inside)⟩
  | true =>
    refine ⟨by simp, fun other inside => ?_⟩
    cases shape with
    | arrives =>
      cases other with
      | pusher => exact .inr ⟨rfl, rfl⟩
      | receiver j => exact .inl inside
    | @call i timed stands =>
      cases other with
      | pusher => exact .inl inside
      | receiver j =>
        obtain ⟨place, later, inside⟩ := inside
        by_cases same : j = i
        · exact .inr ⟨rfl, congrArg _ same⟩
        · rw [List.getElem?_set_ne (Ne.symm same)] at later
          exact .inl ⟨place, later, inside⟩
    | _ => cases begins

omit [DecidableEq A] in
theorem live_append {other : A} {born : Inbox.State} :
    Family.Live (family ++ [some (other, born)]) id this inbox ↔
      family.Live id this inbox ∨ id = family.length ∧ other = this ∧ born = inbox := by
  unfold Family.Live
  rw [List.getElem?_append]
  split
  case isTrue before => simp [Nat.ne_of_lt before]
  case isFalse behind =>
    have missing : family[id]? = none := List.getElem?_eq_none (Nat.le_of_not_lt behind)
    rw [missing, List.getElem?_singleton]
    split
    case isTrue first =>
      have same : id = family.length := by omega
      simp [same]
    case isFalse later =>
      have other : id ≠ family.length := by omega
      simp [other]

omit [DecidableEq A] in
theorem live_set {slot : Option (A × Inbox.State)} {changed : Nat} (bound : changed < family.length) :
    Family.Live (family.set changed slot) id this inbox ↔
      if id = changed then slot = some (this, inbox) else family.Live id this inbox := by
  unfold Family.Live
  split
  case isTrue same =>
    subst same
    simp [List.getElem?_set_self bound]
  case isFalse other => rw [List.getElem?_set_ne (Ne.symm other)]

theorem constructed (matches' : Matches family process)
    (free : ∀ id inbox, ¬ family.Live id this inbox) :
    Matches (family ++ [some (this, Inbox.start n)])
      { (process.getState n this).2 with objects := process.objects ++ [some this] } := by
  have absent : process.table this = none := by
    cases found : process.table this with
    | none => rfl
    | some ref =>
      obtain ⟨_, id, inbox, live⟩ := matches'.owned this ref found
      exact absurd live (free id inbox)
  unfold Process.getState
  rw [absent]
  constructor
  case objects => simp [matches'.objects]
  case state =>
    intro id other inbox live
    rcases live_append.mp live with live | ⟨rfl, rfl, rfl⟩
    · obtain ⟨ref, entry, cell, refs⟩ := matches'.state id other inbox live
      have apart : other ≠ this := fun same => free id inbox (same ▸ live)
      have old := (matches'.owned other ref entry).1
      refine ⟨ref, ?_, ?_, refs⟩
      · exact (Function.update_of_ne apart _ _).trans entry
      · exact (Function.update_of_ne (by omega) _ _).trans cell
    · refine ⟨process.next, by simp, by simp, fun caller inside => ?_⟩
      exact absurd inside (start_vacant n caller)
  case owned =>
    intro other ref entry
    by_cases same : other = this
    · subst same
      simp only [Function.update_self, Option.some.injEq] at entry
      subst entry
      exact ⟨Nat.lt_succ_self _, family.length, _, live_append.mpr (.inr ⟨rfl, rfl, rfl⟩)⟩
    · simp only [Function.update_of_ne same] at entry
      obtain ⟨old, id, inbox, live⟩ := matches'.owned other ref entry
      exact ⟨Nat.lt_succ_of_lt old, id, inbox, live_append.mpr (.inl live)⟩
  case distinct =>
    intro first second ref entry entry'
    have old (other : A) (apart : other ≠ this)
        (entry : process.table other = some process.next) : False :=
      absurd (matches'.owned other _ entry).1 (by omega)
    by_cases same : first = this <;> by_cases same' : second = this
    · rw [same, same']
    · simp only [same, Function.update_self, Option.some.injEq, Function.update_of_ne same']
        at entry entry'
      exact (old second same' (entry ▸ entry')).elim
    · simp only [same', Function.update_self, Option.some.injEq, Function.update_of_ne same]
        at entry entry'
      exact (old first same (entry' ▸ entry)).elim
    · simp only [Function.update_of_ne same, Function.update_of_ne same'] at entry entry'
      exact matches'.distinct first second ref entry entry'
  case unique =>
    intro first second other inbox inbox' live live'
    rcases live_append.mp live with live | ⟨rfl, rfl, rfl⟩ <;>
      rcases live_append.mp live' with live' | ⟨rfl, same, rfl⟩
    · exact matches'.unique first second other inbox inbox' live live'
    · exact absurd (same ▸ live) (free first inbox)
    · exact absurd live' (free second inbox')
    · rfl

omit [DecidableEq A] in
theorem acted_on (matches' : Matches family process) (live : family.Live id this inbox)
    {ref : Nat} (entry : process.table this = some ref)
    (stepped : Inbox.step inbox event = some after)
    (refs : ∀ caller, Inside after caller → process.refs id caller = some ref) :
    ∃ moved, process.act ref event = some moved ∧
      Matches (family.set id (some (this, after))) moved := by
  have bound : id < family.length := (List.getElem?_eq_some_iff.mp live).1
  have cell : process.heap ref = some inbox := by
    obtain ⟨other, known, cell, _⟩ := matches'.state id this inbox live
    rwa [Option.some.inj (known.symm.trans entry)] at cell
  refine ⟨_, by rw [Process.act, cell, Option.bind_some, stepped, Option.map_some], ?_⟩
  constructor
  case objects =>
    rw [matches'.objects]
    apply List.ext_getElem?
    intro i
    by_cases here : i = id
    · subst here
      have old : family[i]? = some (some (this, inbox)) := live
      rw [List.getElem?_map, List.getElem?_map, List.getElem?_set_self bound, old]
      rfl
    · simp [List.getElem?_set_ne (Ne.symm here)]
  case state =>
    intro other that inbox' live'
    rw [live_set bound] at live'
    split at live'
    case isTrue here =>
      subst here
      obtain ⟨rfl, rfl⟩ := Prod.mk.inj (Option.some.inj live')
      exact ⟨ref, entry, by simp, refs⟩
    case isFalse elsewhere =>
      obtain ⟨ref', entry', cell', refs'⟩ := matches'.state other that inbox' live'
      have apart : ref' ≠ ref := by
        rintro rfl
        obtain rfl := matches'.distinct that this _ entry' entry
        exact elsewhere (matches'.unique other id that inbox' inbox live' live)
      exact ⟨ref', entry', (Function.update_of_ne apart _ _).trans cell', refs'⟩
  case owned =>
    intro that ref entry'
    obtain ⟨old, other, inbox', live'⟩ := matches'.owned that ref entry'
    refine ⟨old, other, ?_⟩
    by_cases here : other = id
    · subst here
      obtain ⟨rfl, _⟩ := Prod.mk.inj (Option.some.inj (Option.some.inj (live'.symm.trans live)))
      exact ⟨after, (live_set bound).mpr (by simp)⟩
    · exact ⟨inbox', (live_set bound).mpr (by simpa [here] using live')⟩
  case distinct => exact matches'.distinct
  case unique =>
    have owner (other : Nat) (that : A) (inbox' : Inbox.State)
        (live' : Family.Live (family.set id (some (this, after))) other that inbox') :
        ∃ old, family.Live other that old := by
      rw [live_set bound] at live'
      split at live'
      case isTrue here =>
        subst here
        obtain ⟨rfl, rfl⟩ := Prod.mk.inj (Option.some.inj live')
        exact ⟨inbox, live⟩
      case isFalse => exact ⟨inbox', live'⟩
    intro first second that inbox₁ inbox₂ live₁ live₂
    obtain ⟨_, old₁⟩ := owner first that inbox₁ live₁
    obtain ⟨_, old₂⟩ := owner second that inbox₂ live₂
    exact matches'.unique first second that _ _ old₁ old₂

theorem acted (matches' : Matches family process) (live : family.Live id this inbox)
    (stepped : Inbox.step inbox event = some after) :
    ∃ moved, process.step n (.act id event) = some moved ∧
      Matches (family.set id (some (this, after))) moved := by
  obtain ⟨ref, entry, cell, refs⟩ := matches'.state id this inbox live
  obtain ⟨goes, enters⟩ := step_inside stepped
  have object : process.objects[id]?.join = some this := by
    have old : family[id]? = some (some (this, inbox)) := live
    simp [matches'.objects, old]
  cases first : starts event with
  | false =>
    have known := refs (caller event) (goes first)
    obtain ⟨moved, acted, result⟩ := acted_on matches' live entry stepped fun other inside => by
      rcases enters other inside with inside | ⟨late, _⟩
      · exact refs other inside
      · simp [first] at late
    refine ⟨moved, ?_, result⟩
    simpa [Process.step, object, first, known] using acted
  | true =>
    let calls := Function.update (process.refs id) (caller event) (some ref)
    have noted : Matches family { process with refs := Function.update process.refs id calls } := by
      refine ⟨matches'.objects, ?_, matches'.owned, matches'.distinct, matches'.unique⟩
      intro other that inbox' live'
      obtain ⟨ref', entry', cell', refs'⟩ := matches'.state other that inbox' live'
      refine ⟨ref', entry', cell', fun other' inside => ?_⟩
      by_cases here : other = id
      · subst here
        obtain ⟨rfl, rfl⟩ := Prod.mk.inj (Option.some.inj (Option.some.inj (live'.symm.trans live)))
        obtain rfl := Option.some.inj (entry'.symm.trans entry)
        by_cases mine : other' = caller event
        · simp [calls, mine]
        · simpa [calls, mine] using refs' other' inside
      · simpa [here] using refs' other' inside
    obtain ⟨moved, acted, result⟩ := acted_on noted live entry stepped fun other inside => by
      by_cases mine : other = caller event
      · simp [calls, mine]
      · rcases enters other inside with inside | ⟨_, same⟩
        · simpa [calls, mine] using refs other inside
        · exact absurd same mine
    refine ⟨moved, ?_, result⟩
    simpa [Process.step, object, first, Process.getState, entry] using acted

theorem destructed (matches' : Matches family process) (live : family.Live id this inbox) :
    ∃ moved, process.step n (.destruct id) = some moved ∧ Matches (family.set id none) moved := by
  have bound : id < family.length := (List.getElem?_eq_some_iff.mp live).1
  obtain ⟨ref, entry, cell, _⟩ := matches'.state id this inbox live
  have object : process.objects[id]?.join = some this := by
    have old : family[id]? = some (some (this, inbox)) := live
    simp [matches'.objects, old]
  have others (other : Nat) (that : A) (inbox' : Inbox.State)
      (live' : Family.Live (family.set id none) other that inbox') :
      family.Live other that inbox' ∧ that ≠ this := by
    rw [live_set bound] at live'
    split at live'
    case isTrue => cases live'
    case isFalse elsewhere =>
      refine ⟨live', ?_⟩
      rintro rfl
      exact elsewhere (matches'.unique other id that inbox' inbox live' live)
  refine ⟨_, by rw [Process.step, object, Option.map_some], ?_⟩
  unfold Process.removeState
  rw [entry]
  constructor
  case objects =>
    rw [matches'.objects, List.map_set]
    rfl
  case state =>
    intro other that inbox' live'
    obtain ⟨live', apart⟩ := others other that inbox' live'
    obtain ⟨ref', entry', cell', refs'⟩ := matches'.state other that inbox' live'
    have elsewhere : ref' ≠ ref := by
      rintro rfl
      exact apart (matches'.distinct that this _ entry' entry)
    refine ⟨ref', ?_, ?_, refs'⟩
    · exact (Function.update_of_ne apart _ _).trans entry'
    · exact (Function.update_of_ne elsewhere _ _).trans cell'
  case owned =>
    intro that ref' entry'
    by_cases gone : that = this
    · simp [gone] at entry'
    · simp only [Function.update_of_ne gone] at entry'
      obtain ⟨old, other, inbox', live'⟩ := matches'.owned that ref' entry'
      refine ⟨old, other, inbox', (live_set bound).mpr ?_⟩
      have elsewhere : other ≠ id := by
        rintro rfl
        exact gone (Prod.mk.inj (Option.some.inj (Option.some.inj (live'.symm.trans live)))).1
      simpa [elsewhere] using live'
  case distinct =>
    intro first second ref' entry₁ entry₂
    by_cases gone₁ : first = this
    · simp [gone₁] at entry₁
    · by_cases gone₂ : second = this
      · simp [gone₂] at entry₂
      · simp only [Function.update_of_ne gone₁, Function.update_of_ne gone₂] at entry₁ entry₂
        exact matches'.distinct first second ref' entry₁ entry₂
  case unique =>
    intro first second that inbox₁ inbox₂ live₁ live₂
    exact matches'.unique first second that inbox₁ inbox₂ (others first that inbox₁ live₁).1
      (others second that inbox₂ live₂).1

/-- Every step of separate transports is one of the process. -/
theorem step_simulated (family : Family A) (process : Process A) (event : Event A)
    (next : Family A)
    (related : Matches family process ∧ ∀ id this inbox, family.Live id this inbox → Inv inbox)
    (stepped : family.step n event = some next) :
    ∃ moved, process.step n event = some moved ∧
      Matches next moved ∧ ∀ id this inbox, next.Live id this inbox → Inv inbox := by
  obtain ⟨matches', invs⟩ := related
  cases event with
  | construct this =>
    simp only [Family.step] at stepped
    split at stepped
    case isTrue => cases stepped
    case isFalse free =>
      cases Option.some.inj stepped
      refine ⟨_, rfl, constructed matches' ?_, ?_⟩
      · intro id inbox live
        refine free (List.any_eq_true.mpr ⟨some (this, inbox), ?_, by simp⟩)
        exact List.mem_of_getElem? live
      · intro id this inbox live
        rcases live_append.mp live with live | ⟨_, _, rfl⟩
        · exact invs id this inbox live
        · exact start_inv n
  | act id event =>
    obtain ⟨⟨this, inbox⟩, found, moved⟩ := Option.bind_eq_some_iff.mp stepped
    obtain ⟨after, taken, rfl⟩ := Option.map_eq_some_iff.mp moved
    have live : family.Live id this inbox := Option.join_eq_some_iff.mp found
    have bound : id < family.length := (List.getElem?_eq_some_iff.mp live).1
    obtain ⟨moved, acted, matches'⟩ := acted (n := n) matches' live taken
    refine ⟨moved, acted, matches', ?_⟩
    intro other that inbox' live'
    rw [live_set bound] at live'
    split at live'
    case isTrue =>
      cases Option.some.inj live'
      exact step_inv (invs id this inbox live) taken
    case isFalse => exact invs other that inbox' live'
  | destruct id =>
    obtain ⟨⟨this, inbox⟩, found, moved⟩ := Option.bind_eq_some_iff.mp stepped
    have live : family.Live id this inbox := Option.join_eq_some_iff.mp found
    have bound : id < family.length := (List.getElem?_eq_some_iff.mp live).1
    dsimp only at moved
    split at moved
    case isFalse => cases moved
    case isTrue =>
      cases Option.some.inj moved
      obtain ⟨moved, gone, matches'⟩ := destructed (n := n) matches' live
      refine ⟨moved, gone, matches', ?_⟩
      intro other that inbox' live'
      rw [live_set bound] at live'
      split at live'
      case isTrue => cases live'
      case isFalse => exact invs other that inbox' live'

/-- Any number of transports, constructed and destructed at addresses that are used again,
with their calls in any order: no call works on a state that is gone, each transport finds
under its address the state that it would have by itself, sound as that is, and nothing is
left behind under the address of one that is gone. -/
theorem transports_keep_apart (n : Nat) (events : List (Event A)) (family : Family A)
    (ran : run (Family.step n) [] events = some family) :
    ∃ process, run (Process.step n) {} events = some process ∧
      (∀ id this inbox, family.Live id this inbox → Sound inbox ∧
        (process.table this).bind process.heap = some inbox) ∧
      ∀ this, (∀ id inbox, ¬ family.Live id this inbox) → process.table this = none := by
  have empty : Matches ([] : Family A) {} := by
    constructor <;> simp [Family.Live]
  obtain ⟨process, ran, matches', invs⟩ := run_simulated (step_simulated (n := n))
    ⟨empty, by simp [Family.Live]⟩ ran
  refine ⟨process, ran, ?_, ?_⟩
  · intro id this inbox live
    obtain ⟨ref, entry, cell, _⟩ := matches'.state id this inbox live
    exact ⟨(invs id this inbox live).sound, by rw [entry, Option.bind_some, cell]⟩
  · intro this free
    cases entry : process.table this with
    | none => rfl
    | some ref =>
      obtain ⟨_, id, inbox, live⟩ := matches'.owned this ref entry
      exact absurd live (free id inbox)

/-- A transport that is gone with data in its queue, and one at its address after it. -/
def reused : List (Event Nat) :=
  [.construct 7, .act 0 (.arrives [1]), .act 0 (.move .lockToPush), .act 0 (.move .push),
    .act 0 (.move (.notify none)), .destruct 0, .construct 7]

theorem transports_keep_apart_reused : ∃ process,
    run (Process.step 1) {} reused = some process ∧
      (process.table 7).bind process.heap = some (Inbox.start 1) := by
  obtain ⟨process, ran, states, _⟩ :=
    transports_keep_apart 1 reused [none, some (7, Inbox.start 1)] rfl
  exact ⟨process, ran, (states 1 7 (Inbox.start 1) rfl).2⟩

end UltraDisplay.Registry
