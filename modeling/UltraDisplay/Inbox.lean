import UltraDisplay.Library.Crew
import UltraDisplay.Library.Progress
import UltraDisplay.Shared.Result
import UltraDisplay.Client.Transport
import UltraDisplay.Server.Transport

/-! `ServerState` and `ClientState`, behind which both transports hand over what they have
received: one thread pushes under the mutex and notifies after it, and any number of
threads are inside of `receive`. The condition variable wakes a sleeper when it is
notified, when the time is up, and at will. A call returns a span into the one
`current_span_buffer`, which the next call that finds data moves over. -/
namespace UltraDisplay.Inbox
open Transition Progress Crew

inductive Pusher where
  | idle
  | locking (data : List UInt8)
  | locked (data : List UInt8)
  | notifying
  deriving DecidableEq

/-- Where a thread stands in `receive`: `timed` when `timeout_us` is not zero, `expired`
when its wait ended with the time. -/
inductive Place where
  | outside
  | entering (timed : Bool)
  | entered (timed : Bool)
  | asleep
  | woken (expired : Bool)
  | resumed (expired : Bool)
  deriving DecidableEq

structure State where
  mtx : Bool := false
  queue : List (List UInt8) := []
  currentSpanBuffer : List UInt8 := []
  pusher : Pusher := .idle
  receivers : List Place
  /-- Ghosts: what has been pushed, what has been moved out of the queue, and the results
  of the calls in order. A span is told by the move that its storage came with. -/
  pushed : List (List UInt8) := []
  taken : List (List UInt8) := []
  results : List (Nat × Result Nat) := []

/-- What the threads do next by themselves. `notify_one` wakes one of the sleepers, if any. -/
inductive Move where
  | lockToPush
  | push
  | notify (sleeper : Option Nat)
  | lock (i : Nat)
  | look (i : Nat)
  deriving DecidableEq

inductive Event where
  | move (move : Move)
  | arrives (data : List UInt8)
  | call (i : Nat) (timed : Bool)
  | wake (i : Nat) (expired : Bool)
  deriving DecidableEq

def start (n : Nat) : State := { receivers := List.replicate n .outside }

def State.leave (s : State) (i : Nat) (place : Place) : State :=
  { s with mtx := false, receivers := s.receivers.set i place }

def State.answer (s : State) (i : Nat) (result : Result Nat) : State :=
  { s.leave i .outside with results := s.results ++ [(i, result)] }

def timedOut (message : String) : Error := { code := .timeout, message := message }

/-- The mutex is held: the front of the queue, or what is to be done without one. -/
def State.look (s : State) (i : Nat) (empty : State) : State :=
  match s.queue with
  | [] => empty
  | data :: queue =>
    { s with queue, currentSpanBuffer := data, taken := s.taken ++ [data] }.answer i
      (.ok s.taken.length)

/-- What a span shows: the assignment to the buffer frees the storage before it. -/
def State.read (s : State) (span : Nat) : Option (List UInt8) :=
  if span + 1 = s.taken.length then some s.currentSpanBuffer else none

def settle (s : State) : Move → Option State
  | .lockToPush =>
    match s.pusher with
    | .locking data => if s.mtx then none else some { s with mtx := true, pusher := .locked data }
    | _ => none
  | .push =>
    match s.pusher with
    | .locked data =>
      some
        { s with
          mtx := false
          queue := s.queue ++ [data]
          pusher := .notifying
          pushed := s.pushed ++ [data] }
    | _ => none
  | .notify sleeper =>
    if s.pusher = .notifying then
      match sleeper with
      | none =>
        if .asleep ∈ s.receivers then none else some { s with pusher := .idle }
      | some i =>
        if s.receivers[i]? = some .asleep then
          some { s with pusher := .idle, receivers := s.receivers.set i (.woken false) }
        else none
    else none
  | .lock i =>
    if s.mtx then none
    else
      match s.receivers[i]? with
      | some (.entering timed) =>
        some { s with mtx := true, receivers := s.receivers.set i (.entered timed) }
      | some (.woken expired) =>
        some { s with mtx := true, receivers := s.receivers.set i (.resumed expired) }
      | _ => none
  | .look i =>
    match s.receivers[i]? with
    | some (.entered timed) =>
      some <| s.look i <|
        if timed then s.leave i .asleep else s.answer i (.error (timedOut "No data"))
    | some (.resumed expired) =>
      some <| s.look i <|
        if expired then s.answer i (.error (timedOut "Timeout waiting for data"))
        else s.leave i .asleep
    | _ => none

def step (s : State) : Event → Option State
  | .move move => settle s move
  | .arrives data =>
    if s.pusher = .idle then some { s with pusher := .locking data } else none
  | .call i timed =>
    if s.receivers[i]? = some .outside then
      some { s with receivers := s.receivers.set i (.entering timed) }
    else none
  | .wake i expired =>
    if s.receivers[i]? = some .asleep then
      some { s with receivers := s.receivers.set i (.woken expired) }
    else none

/-- What a step can do, with what it has found. -/
inductive Stepped (s : State) : Event → State → Prop where
  | lockToPush {data : List UInt8} (pusher : s.pusher = .locking data) (free : s.mtx = false) :
      Stepped s (.move .lockToPush) { s with mtx := true, pusher := .locked data }
  | push {data : List UInt8} (pusher : s.pusher = .locked data) :
      Stepped s (.move .push) { s with
        mtx := false, queue := s.queue ++ [data], pusher := .notifying, pushed := s.pushed ++ [data] }
  | notifyNone (pusher : s.pusher = .notifying) (nobody : .asleep ∉ s.receivers) :
      Stepped s (.move (.notify none)) { s with pusher := .idle }
  | notifyOne {i : Nat} (pusher : s.pusher = .notifying) (stands : s.receivers[i]? = some .asleep) :
      Stepped s (.move (.notify (some i))) { s with
        pusher := .idle, receivers := s.receivers.set i (.woken false) }
  | enter {i : Nat} {timed : Bool} (free : s.mtx = false)
      (stands : s.receivers[i]? = some (.entering timed)) :
      Stepped s (.move (.lock i)) { s with
        mtx := true, receivers := s.receivers.set i (.entered timed) }
  | resume {i : Nat} {expired : Bool} (free : s.mtx = false)
      (stands : s.receivers[i]? = some (.woken expired)) :
      Stepped s (.move (.lock i)) { s with
        mtx := true, receivers := s.receivers.set i (.resumed expired) }
  | lookFirst {i : Nat} {timed : Bool} (stands : s.receivers[i]? = some (.entered timed)) :
      Stepped s (.move (.look i)) <| s.look i <|
        if timed then s.leave i .asleep else s.answer i (.error (timedOut "No data"))
  | lookAgain {i : Nat} {expired : Bool} (stands : s.receivers[i]? = some (.resumed expired)) :
      Stepped s (.move (.look i)) <| s.look i <|
        if expired then s.answer i (.error (timedOut "Timeout waiting for data"))
        else s.leave i .asleep
  | arrives {data : List UInt8} (pusher : s.pusher = .idle) :
      Stepped s (.arrives data) { s with pusher := .locking data }
  | call {i : Nat} {timed : Bool} (stands : s.receivers[i]? = some .outside) :
      Stepped s (.call i timed) { s with receivers := s.receivers.set i (.entering timed) }
  | wake {i : Nat} {expired : Bool} (stands : s.receivers[i]? = some .asleep) :
      Stepped s (.wake i expired) { s with receivers := s.receivers.set i (.woken expired) }

theorem settle_cases {s t : State} {move : Move} (settled : settle s move = some t) :
    Stepped s (.move move) t := by
  cases move with
  | lockToPush =>
    simp only [settle] at settled
    split at settled
    case h_2 => cases settled
    case h_1 pusher =>
      split at settled
      case isTrue => cases settled
      case isFalse free =>
        cases settled
        exact .lockToPush pusher (by simpa using free)
  | push =>
    simp only [settle] at settled
    split at settled
    case h_2 => cases settled
    case h_1 pusher =>
      cases settled
      exact .push pusher
  | notify sleeper =>
    simp only [settle] at settled
    split at settled
    case isFalse => cases settled
    case isTrue pusher =>
      cases sleeper with
      | none =>
        dsimp only at settled
        split at settled
        case isTrue => cases settled
        case isFalse nobody =>
          cases settled
          exact .notifyNone pusher nobody
      | some i =>
        dsimp only at settled
        split at settled
        case isFalse => cases settled
        case isTrue stands =>
          cases settled
          exact .notifyOne pusher stands
  | lock i =>
    simp only [settle] at settled
    split at settled
    case isTrue => cases settled
    case isFalse held =>
      have free : s.mtx = false := by simpa using held
      split at settled
      case h_1 stands =>
        cases settled
        exact .enter free stands
      case h_2 stands =>
        cases settled
        exact .resume free stands
      case h_3 => cases settled
  | look i =>
    simp only [settle] at settled
    split at settled
    case h_1 stands =>
      cases settled
      exact .lookFirst stands
    case h_2 stands =>
      cases settled
      exact .lookAgain stands
    case h_3 => cases settled

theorem step_cases {s t : State} {event : Event} (stepped : step s event = some t) :
    Stepped s event t := by
  cases event with
  | move move => exact settle_cases stepped
  | arrives data =>
    simp only [step] at stepped
    split at stepped
    case isFalse => cases stepped
    case isTrue pusher =>
      cases stepped
      exact .arrives pusher
  | call i timed =>
    simp only [step] at stepped
    split at stepped
    case isFalse => cases stepped
    case isTrue stands =>
      cases stepped
      exact .call stands
  | wake i expired =>
    simp only [step] at stepped
    split at stepped
    case isFalse => cases stepped
    case isTrue stands =>
      cases stepped
      exact .wake stands

def Pusher.holds : Pusher → Nat
  | .locked _ => 1
  | _ => 0

def Pusher.owes : Pusher → Nat
  | .notifying => 1
  | _ => 0

def Pusher.rank : Pusher → Nat
  | .idle => 0
  | .locking _ => 5
  | .locked _ => 4
  | .notifying => 3

def Place.holds : Place → Nat
  | .entered _ | .resumed _ => 1
  | _ => 0

def Place.sleeps : Place → Nat
  | .asleep => 1
  | _ => 0

def Place.awake : Place → Nat
  | .woken _ | .resumed _ => 1
  | _ => 0

def Place.rank : Place → Nat
  | .outside | .asleep => 0
  | .entering _ | .woken _ => 2
  | .entered _ | .resumed _ => 1

def State.rank (s : State) : Nat := s.pusher.rank + total Place.rank s.receivers

def State.spans (s : State) : List Nat :=
  s.results.filterMap fun (_, result) => result.toOption

/-- What was pushed is taken in order, each datum by one call, and the last is shown. -/
structure Passes (s : State) : Prop where
  fifo : s.taken ++ s.queue = s.pushed
  spans : s.spans = List.range s.taken.length
  current : ∀ data ∈ s.taken.getLast?, s.currentSpanBuffer = data

structure Inv (s : State) : Prop extends Passes s where
  exclusive : s.pusher.holds + total Place.holds s.receivers = if s.mtx then 1 else 0
  /-- Each datagram that sleepers could have is announced, or somebody awake looks for it. -/
  announced : 0 < total Place.sleeps s.receivers →
    s.queue.length ≤ s.pusher.owes + total Place.awake s.receivers

variable {s t : State} {i : Nat} {here : Place}

theorem start_inv (n : Nat) : Inv (start n) := by
  have idle (weight : Place → Nat) (light : weight .outside = 0) :
      total weight (start n).receivers = 0 := by
    simp [start, total, light]
  refine ⟨⟨rfl, rfl, by simp [start]⟩, ?_, ?_⟩
  · rw [idle _ rfl]
    rfl
  · rw [idle _ rfl]
    simp

theorem Inv.held (inv : Inv s) (stands : s.receivers[i]? = some here) (holds : here.holds = 1) :
    s.mtx = true ∧ s.pusher.holds = 0 ∧ total Place.holds s.receivers = 1 := by
  have exclusive := inv.exclusive
  have mine := weight_le_total Place.holds stands
  split at exclusive
  case isTrue held => exact ⟨held, by omega, by omega⟩
  case isFalse => omega

/-- A receiver gives the mutex back, with the data at the front of the queue or because
there is none. -/
theorem Inv.leave (inv : Inv s) (stands : s.receivers[i]? = some here) (holds : here.holds = 1)
    (next : Place) (free : next.holds = 0) (receivers : t.receivers = s.receivers.set i next)
    (pusher : t.pusher = s.pusher) (mtx : t.mtx = false)
    (passes : Passes t)
    (takes : t.queue = [] ∨ next = .outside ∧ t.queue.length + 1 = s.queue.length) : Inv t := by
  obtain ⟨_, alone, one⟩ := inv.held stands holds
  refine ⟨passes, ?_, ?_⟩
  · have moved := total_set Place.holds stands next
    rw [receivers, pusher, mtx]
    simp only [Bool.false_eq_true, if_false]
    omega
  · rcases takes with empty | ⟨rfl, shorter⟩
    · simp [empty]
    · have sleepers := total_set Place.sleeps stands .outside
      have wakers := total_set Place.awake stands .outside
      have announced := inv.announced
      have light : here.awake ≤ 1 := by cases here <;> simp [Place.awake]
      have wide : here.sleeps = 0 := by cases here <;> simp_all [Place.sleeps, Place.holds]
      rw [receivers, pusher]
      change _ = _ + 0 at sleepers wakers
      omega

/-- The front of the queue is moved into the buffer, under a span of its own. -/
theorem Passes.take (passes : Passes s) (queue : s.queue = data :: rest) :
    Passes (s.look i empty) := by
  obtain ⟨fifo, spans, _⟩ := passes
  unfold State.look
  rw [queue] at fifo ⊢
  refine ⟨?_, ?_, ?_⟩
  · simpa [State.answer, State.leave] using fifo
  · change (s.results ++ [_]).filterMap _ = List.range (s.taken ++ [data]).length
    rw [List.filterMap_append, List.length_append, List.length_singleton, List.range_succ, ← spans]
    rfl
  · simp [State.answer, State.leave]

theorem Passes.fail (passes : Passes s) (error : Error) : Passes (s.answer i (.error error)) where
  fifo := passes.fifo
  spans := by simpa [State.spans, State.answer, State.leave, Except.toOption] using passes.spans
  current := passes.current

theorem look_spec (inv : Inv s) (stands : s.receivers[i]? = some here) (holds : here.holds = 1)
    {empty : State} (without : s.queue = [] → Inv empty ∧ empty.rank < s.rank) :
    Inv (s.look i empty) ∧ (s.look i empty).rank < s.rank := by
  cases queue : s.queue with
  | nil =>
    rw [State.look, queue]
    exact without queue
  | cons data rest =>
    have shorter : rest.length + 1 = s.queue.length := by simp [queue]
    have passes : Passes (s.look i empty) := inv.take queue
    rw [State.look, queue] at passes ⊢
    constructor
    · exact inv.leave stands holds .outside rfl rfl rfl rfl passes (.inr ⟨rfl, shorter⟩)
    · refine Nat.add_lt_add_left (total_set_lt stands ?_) _
      cases here <;> simp [Place.holds, Place.rank] at holds ⊢

theorem sleep_spec (inv : Inv s) (stands : s.receivers[i]? = some here) (holds : here.holds = 1)
    (empty : s.queue = []) :
    Inv (s.leave i .asleep) ∧ (s.leave i .asleep).rank < s.rank := by
  have passes : Passes (s.leave i .asleep) := ⟨inv.fifo, inv.spans, inv.current⟩
  refine ⟨inv.leave stands holds .asleep rfl rfl rfl rfl passes (.inl empty), ?_⟩
  refine Nat.add_lt_add_left (total_set_lt stands ?_) _
  cases here <;> simp [Place.holds, Place.rank] at holds ⊢

theorem fail_spec (inv : Inv s) (stands : s.receivers[i]? = some here) (holds : here.holds = 1)
    (error : Error) (empty : s.queue = []) :
    Inv (s.answer i (.error error)) ∧ (s.answer i (.error error)).rank < s.rank := by
  constructor
  · exact inv.leave stands holds .outside rfl rfl rfl rfl (inv.fail error) (.inl empty)
  · refine Nat.add_lt_add_left (total_set_lt stands ?_) _
    cases here <;> simp [Place.holds, Place.rank] at holds ⊢

theorem Inv.goes_on (inv : Inv s) (stands : s.receivers[i]? = some here) {next : Place}
    (receivers : t.receivers = s.receivers.set i next)
    (same : t.queue = s.queue ∧ t.pushed = s.pushed ∧ t.results = s.results ∧
      t.taken = s.taken ∧ t.currentSpanBuffer = s.currentSpanBuffer)
    (exclusive : t.pusher.holds + next.holds + (if s.mtx then 1 else 0) =
      s.pusher.holds + here.holds + if t.mtx then 1 else 0)
    (awake : s.pusher.owes + here.awake ≤ t.pusher.owes + next.awake)
    (sleeps : next.sleeps ≤ here.sleeps) : Inv t := by
  obtain ⟨queue, pushed, results, taken, buffer⟩ := same
  have holders := total_set Place.holds stands next
  have sleepers := total_set Place.sleeps stands next
  have wakers := total_set Place.awake stands next
  have before := inv.exclusive
  have announced := inv.announced
  refine ⟨⟨?_, ?_, ?_⟩, ?_, ?_⟩
  · rw [taken, queue, pushed]
    exact inv.fifo
  · rw [State.spans, results, taken]
    exact inv.spans
  · rw [taken, buffer]
    exact inv.current
  · rw [receivers]
    omega
  · rw [receivers, queue]
    omega

theorem lockToPush_spec {data : List UInt8} (inv : Inv s) (pusher : s.pusher = .locking data)
    (free : s.mtx = false)
    (locked : t = { s with mtx := true, pusher := .locked data }) :
    Inv t ∧ t.rank < s.rank := by
  subst locked
  have exclusive := inv.exclusive
  have announced := inv.announced
  rw [pusher, free] at exclusive
  rw [pusher] at announced
  refine ⟨⟨⟨inv.fifo, inv.spans, inv.current⟩, ?_, announced⟩, ?_⟩
  · simpa [Pusher.holds] using exclusive
  · simp [State.rank, pusher, Pusher.rank]

theorem push_spec {data : List UInt8} (inv : Inv s) (pusher : s.pusher = .locked data)
    (pushed : t = { s with
      mtx := false, queue := s.queue ++ [data], pusher := .notifying, pushed := s.pushed ++ [data] }) :
    Inv t ∧ t.rank < s.rank := by
  subst pushed
  have exclusive := inv.exclusive
  have announced := inv.announced
  rw [pusher] at exclusive announced
  simp only [Pusher.holds, Pusher.owes, State.rank, Pusher.rank] at exclusive announced ⊢
  refine ⟨⟨⟨?_, inv.spans, inv.current⟩, ?_, ?_⟩, ?_⟩
  · rw [← List.append_assoc, inv.fifo]
  · split at exclusive <;> simp [Pusher.holds] <;> omega
  · simp only [List.length_append, List.length_singleton, Pusher.owes]
    intro sleepers
    have before := announced sleepers
    omega
  · rw [pusher]
    simp

/-- Nobody sleeps, so that the notification may be lost. -/
theorem notifyNone_spec (inv : Inv s) (pusher : s.pusher = .notifying)
    (nobody : .asleep ∉ s.receivers) (notified : t = { s with pusher := .idle }) :
    Inv t ∧ t.rank < s.rank := by
  subst notified
  have exclusive := inv.exclusive
  rw [pusher] at exclusive
  refine ⟨⟨⟨inv.fifo, inv.spans, inv.current⟩, exclusive, ?_⟩, ?_⟩
  · intro sleepers
    obtain ⟨j, place, stands, asleep⟩ := total_pos_iff.mp sleepers
    cases place <;> simp [Place.sleeps] at asleep
    exact absurd (List.mem_of_getElem? stands) nobody
  · simp [State.rank, pusher, Pusher.rank]

theorem notifyOne_spec (inv : Inv s) (pusher : s.pusher = .notifying)
    (stands : s.receivers[i]? = some .asleep)
    (notified : t = { s with pusher := .idle, receivers := s.receivers.set i (.woken false) }) :
    Inv t ∧ t.rank < s.rank := by
  subst notified
  have ranks := total_set Place.rank stands (.woken false)
  simp only [Place.rank] at ranks
  refine ⟨inv.goes_on stands rfl ⟨rfl, rfl, rfl, rfl, rfl⟩ ?_ ?_ ?_, ?_⟩
  · simp [pusher, Pusher.holds, Place.holds]
  · simp [pusher, Pusher.owes, Place.awake]
  · simp [Place.sleeps]
  · simp only [State.rank, pusher, Pusher.rank]
    omega

theorem lock_spec {next : Place} (inv : Inv s) (free : s.mtx = false)
    (stands : s.receivers[i]? = some here)
    (locked : t = { s with mtx := true, receivers := s.receivers.set i next })
    (holds : next.holds = here.holds + 1) (awake : next.awake = here.awake)
    (sleeps : next.sleeps = here.sleeps) (rank : next.rank < here.rank) :
    Inv t ∧ t.rank < s.rank := by
  subst locked
  refine ⟨inv.goes_on stands rfl ⟨rfl, rfl, rfl, rfl, rfl⟩ ?_ ?_ sleeps.le, ?_⟩
  · simp [free, holds, Nat.add_assoc]
  · exact Nat.add_le_add_left awake.ge _
  · exact Nat.add_lt_add_left (total_set_lt stands rank) _

/-- What the threads do by themselves keeps the invariant and brings them nearer to rest. -/
theorem settle_spec {move : Move} (inv : Inv s) (settled : settle s move = some t) :
    Inv t ∧ t.rank < s.rank := by
  cases settle_cases settled with
  | lockToPush pusher free => exact lockToPush_spec inv pusher free rfl
  | push pusher => exact push_spec inv pusher rfl
  | notifyNone pusher nobody => exact notifyNone_spec inv pusher nobody rfl
  | notifyOne pusher stands => exact notifyOne_spec inv pusher stands rfl
  | enter free stands => exact lock_spec inv free stands rfl rfl rfl rfl (by simp [Place.rank])
  | resume free stands => exact lock_spec inv free stands rfl rfl rfl rfl (by simp [Place.rank])
  | @lookFirst i timed stands =>
    refine look_spec inv stands rfl fun empty => ?_
    cases timed with
    | true => exact sleep_spec inv stands rfl empty
    | false => exact fail_spec inv stands rfl _ empty
  | @lookAgain i expired stands =>
    refine look_spec inv stands rfl fun empty => ?_
    cases expired with
    | true => exact fail_spec inv stands rfl _ empty
    | false => exact sleep_spec inv stands rfl empty

theorem step_inv {event : Event} (inv : Inv s) (stepped : step s event = some t) : Inv t := by
  cases event with
  | move move => exact (settle_spec inv stepped).1
  | arrives data =>
    cases step_cases stepped with
    | arrives pusher =>
      have exclusive := inv.exclusive
      have announced := inv.announced
      rw [pusher] at exclusive announced
      exact ⟨⟨inv.fifo, inv.spans, inv.current⟩, exclusive, announced⟩
  | call i timed =>
    cases step_cases stepped with
    | call stands => exact inv.goes_on stands rfl ⟨rfl, rfl, rfl, rfl, rfl⟩ rfl le_rfl le_rfl
  | wake i expired =>
    cases step_cases stepped with
    | wake stands =>
      refine inv.goes_on stands rfl ⟨rfl, rfl, rfl, rfl, rfl⟩ rfl ?_ ?_
      · simp [Place.awake]
      · simp [Place.sleeps]

theorem holder_looks (held : 0 < total Place.holds s.receivers) :
    ∃ move, (settle s move).isSome = true := by
  obtain ⟨i, here, stands, holds⟩ := total_pos_iff.mp held
  refine ⟨.look i, ?_⟩
  cases here <;> simp_all [settle, Place.holds]

theorem settle_enabled (inv : Inv s) (busy : s.rank ≠ 0) :
    ∃ move, (settle s move).isSome = true := by
  have exclusive := inv.exclusive
  cases pusher : s.pusher with
  | locked data => exact ⟨.push, by simp [settle, pusher]⟩
  | notifying =>
    by_cases sleeper : .asleep ∈ s.receivers
    · obtain ⟨i, stands⟩ := List.mem_iff_getElem?.mp sleeper
      exact ⟨.notify (some i), by simp [settle, pusher, stands]⟩
    · exact ⟨.notify none, by simp [settle, pusher, sleeper]⟩
  | locking data =>
    cases mtx : s.mtx with
    | false => exact ⟨.lockToPush, by simp [settle, pusher, mtx]⟩
    | true =>
      rw [pusher, mtx] at exclusive
      exact holder_looks (by simp [Pusher.holds] at exclusive; omega)
  | idle =>
    cases mtx : s.mtx with
    | true =>
      rw [pusher, mtx] at exclusive
      exact holder_looks (by simp [Pusher.holds] at exclusive; omega)
    | false =>
      have positive : 0 < total Place.rank s.receivers := by
        simp only [State.rank, pusher, Pusher.rank] at busy
        omega
      obtain ⟨i, here, stands, ranks⟩ := total_pos_iff.mp positive
      cases here with
      | outside | asleep => simp [Place.rank] at ranks
      | entering timed => exact ⟨.lock i, by simp [settle, mtx, stands]⟩
      | woken expired => exact ⟨.lock i, by simp [settle, mtx, stands]⟩
      | entered timed => exact ⟨.look i, by simp [settle, stands]⟩
      | resumed expired => exact ⟨.look i, by simp [settle, stands]⟩

theorem winds_up : WindsUp settle (fun _ => true) Inv State.rank where
  kept _ _ _ inv settled := (settle_spec inv settled).1
  lowers _ _ _ inv _ settled := (settle_spec inv settled).2
  leaves _ _ _ _ other := by contradiction
  enabled s inv busy := by
    obtain ⟨move, enabled⟩ := settle_enabled inv busy
    exact ⟨move, rfl, enabled⟩

theorem rank_le (s : State) : s.rank ≤ 5 + 2 * s.receivers.length := by
  have light (place : Place) : place.rank ≤ 2 := by cases place <;> simp [Place.rank]
  have crew := total_le_mul light s.receivers
  have pusher : s.pusher.rank ≤ 5 := by cases s.pusher <;> simp [Pusher.rank]
  unfold State.rank
  omega

/-- At rest nobody sleeps on data. -/
theorem Inv.rest (inv : Inv s) (rest : s.rank = 0) : s.queue = [] ∨ .asleep ∉ s.receivers := by
  by_contra both
  obtain ⟨waiting, sleeps⟩ := not_or.mp both
  obtain ⟨i, stands⟩ := List.mem_iff_getElem?.mp (not_not.mp sleeps)
  have sleepers : 0 < total Place.sleeps s.receivers :=
    total_pos_iff.mpr ⟨i, .asleep, stands, Nat.one_pos⟩
  have announced := inv.announced sleepers
  have length := List.length_pos_iff.mpr waiting
  have quiet : s.pusher.owes = 0 := by
    cases pusher : s.pusher <;> simp [State.rank, pusher, Pusher.rank, Pusher.owes] at rest ⊢
  have awake : 0 < total Place.awake s.receivers := by omega
  obtain ⟨j, here, stands, awake⟩ := total_pos_iff.mp awake
  have busy := weight_le_total Place.rank stands
  have ranked : 0 < here.rank := by cases here <;> simp [Place.awake, Place.rank] at awake ⊢
  unfold State.rank at rest
  omega

/-- The latest span shows its datum, every earlier one dangles. -/
theorem Passes.read_eq (passes : Passes s) {span : Nat} {data : List UInt8}
    (found : s.taken[span]? = some data) :
    s.read span = if span + 1 = s.taken.length then some data else none := by
  unfold State.read
  split
  case isTrue last =>
    have place : span = s.taken.length - 1 := by omega
    have latest : data ∈ s.taken.getLast? := by
      rwa [List.getLast?_eq_getElem?, ← place]
    rw [passes.current data latest]
  case isFalse => rfl

/-- What is pushed is taken once, in order, and by one thread at a time, each datum under
the span of one call, which shows it until the next one is taken; left to themselves the
threads come to rest after a bounded number of steps, and then nobody sleeps with data in
the queue. -/
structure Sound (s : State) : Prop where
  fifo : s.taken ++ s.queue = s.pushed
  spans : s.spans = List.range s.taken.length
  shown : ∀ span data, s.taken[span]? = some data →
    s.read span = if span + 1 = s.taken.length then some data else none
  alone : s.pusher.holds + total Place.holds s.receivers ≤ 1
  bounded : ∀ moves t, run settle s moves = some t → moves.length ≤ 5 + 2 * s.receivers.length
  rests : ∀ moves t, run settle s moves = some t → (∀ move, settle t move = none) →
    t.queue = [] ∨ .asleep ∉ t.receivers

theorem Inv.sound (inv : Inv s) : Sound s := by
  refine ⟨inv.fifo, inv.spans, fun _ _ => inv.read_eq, ?_, ?_, ?_⟩
  · have exclusive := inv.exclusive
    split at exclusive <;> omega
  · intro moves t settled
    have steps := winds_up.steps_le inv settled
    have few := rank_le s
    simp only [List.countP_true] at steps
    omega
  · intro moves t settled stuck
    have kept := run_invariant (I := Inv) (fun _ _ _ inv settled => (settle_spec inv settled).1)
      inv settled
    apply kept.rest
    by_contra busy
    obtain ⟨move, enabled⟩ := settle_enabled kept busy
    simp [stuck move] at enabled

/-- No wake-up is lost, whatever the schedule of any number of receivers, their timeouts
and spurious wake-ups included. -/
theorem receive_never_misses (n : Nat) (events : List Event) :
    Throughout step Sound (start n) events := by
  intro before s _ reached
  exact (run_invariant (I := Inv) (fun _ _ _ => step_inv) (start_inv n) reached).sound

/-- The transports' own `receive`, taken in one step, is the look of a receiver that finds
data. -/
theorem client_receive_eq (client : ClientTransport.State) (same : client.queue = s.queue)
    (empty : State) :
    (ClientTransport.step client .receive).map (fun c => (c.queue, c.currentSpanBuffer)) =
      if s.queue = [] then none
      else some ((s.look i empty).queue, (s.look i empty).currentSpanBuffer) := by
  simp only [ClientTransport.step, same, State.look]
  cases s.queue <;> rfl

theorem server_receive_eq (server : ServerTransport.State) (same : server.queue = s.queue)
    (empty : State) :
    (ServerTransport.step server .receive).map (fun c => (c.queue, c.currentSpanBuffer)) =
      if s.queue = [] then none
      else some ((s.look i empty).queue, (s.look i empty).currentSpanBuffer) := by
  simp only [ServerTransport.step, same, State.look]
  cases s.queue <;> rfl

end UltraDisplay.Inbox
