import UltraDisplay.Library.Transition
import UltraDisplay.Shared.Protocol

/-! The completion loop of server/network/server_transport.cpp. The worker
thread, the threads that call `send` and `receive`, the destructor and the
kernel take steps in any order; every `WSARecv` is accepted. -/
namespace UltraDisplay.ServerTransport
open Transition

/-- `sizeof(IoContext::buffer)`. -/
def bufferSize : Nat := 1500

/-- An `IoContext` whose operation is over: `data` is what was transferred. -/
structure IoContext where
  isRead : Bool
  data : List UInt8
  deriving DecidableEq

/-- What one call of `GetQueuedCompletionStatus` yields. -/
structure Completion where
  res : Bool
  overlapped : Option IoContext
  deriving DecidableEq

inductive Worker where
  | looping
  | waiting
  | woken (completion : Completion)
  | rearming
  | exited
  deriving DecidableEq

structure State where
  running : Bool := true
  initReturned : Bool := false
  worker : Worker := .looping
  reads : Nat := 0
  writes : List (List UInt8) := []
  port : List Completion := []
  queue : List (List UInt8) := []
  currentSpanBuffer : List UInt8 := []
  bytesReceived : UInt64 := 0
  bytesSent : UInt64 := 0
  deriving DecidableEq

inductive Event where
  | initPostsReceive
  | work
  | send (payload : List UInt8) (accepted : Bool)
  | receive
  | readCompletes (datagram : Option (List UInt8))
  | writeCompletes (index : Nat) (succeeded : Bool)
  | stop
  | wake
  deriving DecidableEq

/-- `init` has just created the worker thread. -/
def start : State := {}

def State.postReceive (s : State) : State := { s with reads := s.reads + 1 }

def State.complete (s : State) (completion : Completion) : State :=
  { s with port := s.port ++ [completion] }

/-- The body of the loop once a completion has been taken. -/
def State.handle (s : State) (completion : Completion) : State :=
  if !s.running then { s with worker := .exited }
  else if !completion.res then { s with worker := .looping }
  else match completion.overlapped with
    | none => { s with worker := .looping }
    | some ctx =>
      if ctx.isRead ∧ 0 < ctx.data.length then
        { s with
          bytesReceived := s.bytesReceived + UInt64.ofNat ctx.data.length
          queue := s.queue ++ [ctx.data]
          worker := .rearming }
      else { s with worker := .looping }

def State.work (s : State) : Option State :=
  match s.worker with
  | .looping => some { s with worker := if s.running then .waiting else .exited }
  | .waiting =>
    match s.port with
    | [] => none
    | completion :: port => some { s with port, worker := .woken completion }
  | .woken completion => some (s.handle completion)
  | .rearming => some { s.postReceive with worker := .looping }
  | .exited => none

def State.send (s : State) (payload : List UInt8) (accepted : Bool) : State :=
  let buffer := payload.take bufferSize
  if accepted then
    { s with
      writes := s.writes ++ [buffer]
      bytesSent := s.bytesSent + UInt64.ofNat buffer.length }
  else s

def step (s : State) : Event → Option State
  | .initPostsReceive =>
    if s.initReturned then none else some { s.postReceive with initReturned := true }
  | .work => s.work
  | .send payload accepted => some (s.send payload accepted)
  | .receive =>
    match s.queue with
    | [] => none
    | data :: queue => some { s with queue, currentSpanBuffer := data }
  | .readCompletes datagram =>
    if s.reads = 0 then none
    else match datagram with
      | none => some ({ s with reads := s.reads - 1 }.complete ⟨false, some ⟨true, []⟩⟩)
      | some data =>
        if bufferSize < data.length then none
        else some ({ s with reads := s.reads - 1 }.complete ⟨true, some ⟨true, data⟩⟩)
  | .writeCompletes index succeeded =>
    match s.writes[index]? with
    | none => none
    | some data =>
      some ({ s with writes := s.writes.eraseIdx index }.complete ⟨succeeded, some ⟨false, data⟩⟩)
  | .stop => some { s with running := false }
  | .wake => if s.running then none else some (s.complete ⟨true, none⟩)

def Completion.isRead (completion : Completion) : Bool :=
  completion.overlapped.any IoContext.isRead

def State.completedReads (s : State) : Nat := s.port.countP Completion.isRead

/-- The read the worker has taken from the port and not yet replaced. -/
def Worker.holdsRead : Worker → Nat
  | .woken completion => completion.isRead.toNat
  | .rearming => 1
  | _ => 0

def State.allReads (s : State) : Nat := s.reads + s.completedReads + s.worker.holdsRead

/-- While the worker waits, exactly one read is outstanding or not yet handled. -/
def Live (s : State) : Prop :=
  s.initReturned = true → s.worker = .waiting → s.running = true →
    s.reads + s.completedReads = 1

/-- The branch of the loop that posts the next read. -/
def Completion.rearms (completion : Completion) : Bool :=
  completion.res && completion.overlapped.any fun ctx => ctx.isRead && 0 < ctx.data.length

def Worker.taken : Worker → Option Completion
  | .woken completion => some completion
  | _ => none

/-- No read completion is handled whose datagram is empty or that failed. -/
def Rearmed (s : State) (e : Event) : Prop :=
  e = .work → s.running = true → ∀ completion ∈ s.worker.taken,
    completion.isRead = true → completion.rearms = true

instance (s : State) (e : Event) : Decidable (Rearmed s e) := by
  unfold Rearmed
  infer_instance

/-- While the server runs, every read posted is replaced once it is handled. -/
def OneRead (s : State) : Prop :=
  s.running = true → s.allReads = s.initReturned.toNat

variable {s t : State} {completion : Completion}

theorem taken_eq_some {worker : Worker} :
    worker.taken = some completion ↔ worker = .woken completion := by
  cases worker <;> simp [Worker.taken]

theorem OneRead.live (one : OneRead s) : Live s := by
  intro returned waiting running
  have total := one running
  simpa [State.allReads, waiting, Worker.holdsRead, returned] using total

theorem complete_allReads (s : State) (completion : Completion) :
    (s.complete completion).allReads = s.allReads + completion.isRead.toNat := by
  cases read : completion.isRead
  · simp [State.complete, State.allReads, State.completedReads, read]
  · simp [State.complete, State.allReads, State.completedReads, read]
    omega

theorem complete_read_allReads (outstanding : s.reads ≠ 0) (read : completion.isRead = true) :
    ({ s with reads := s.reads - 1 }.complete completion).allReads = s.allReads := by
  rw [complete_allReads, read]
  simp only [State.allReads, State.completedReads, Bool.toNat_true]
  omega

/-- Only a read completion that brings data re-arms. -/
theorem rearms_iff : completion.rearms = true ↔
    completion.res = true ∧ ∃ ctx, completion.overlapped = some ctx ∧
      ctx.isRead = true ∧ 0 < ctx.data.length := by
  simp [Completion.rearms, Option.any_eq_true]

theorem handle_frame (s : State) (completion : Completion) :
    (s.handle completion).running = s.running ∧
    (s.handle completion).initReturned = s.initReturned ∧
    (s.handle completion).reads = s.reads ∧ (s.handle completion).port = s.port := by
  unfold State.handle
  split
  · exact ⟨rfl, rfl, rfl, rfl⟩
  · split
    · exact ⟨rfl, rfl, rfl, rfl⟩
    · split
      · exact ⟨rfl, rfl, rfl, rfl⟩
      · split <;> exact ⟨rfl, rfl, rfl, rfl⟩

theorem handle_worker (s : State) (completion : Completion) :
    (s.handle completion).worker =
      if s.running = false then .exited else if completion.rearms then .rearming else .looping := by
  obtain ⟨res, overlapped⟩ := completion
  cases running : s.running with
  | false => simp [State.handle, running]
  | true =>
    cases res with
    | false => simp [State.handle, Completion.rearms, running]
    | true =>
      cases overlapped with
      | none => simp [State.handle, Completion.rearms, running]
      | some ctx =>
        by_cases full : ctx.isRead = true ∧ 0 < ctx.data.length
        · simp [State.handle, Completion.rearms, running, full]
        · have idle : (ctx.isRead && decide (0 < ctx.data.length)) = false := by simpa using full
          simp [State.handle, Completion.rearms, running, full, idle]

theorem handle_allReads (s : State) (completion : Completion)
    (woken : s.worker = .woken completion) :
    (s.handle completion).allReads + completion.isRead.toNat =
      s.allReads + (s.running && completion.rearms).toNat := by
  obtain ⟨_, _, reads, port⟩ := handle_frame s completion
  have worker := handle_worker s completion
  simp only [State.allReads, State.completedReads, reads, port, worker, woken]
  cases s.running <;> cases completion.rearms <;> simp [Worker.holdsRead]
  omega

theorem rearms_isRead (rearms : completion.rearms = true) : completion.isRead = true := by
  obtain ⟨_, ctx, overlapped, read, _⟩ := rearms_iff.mp rearms
  simpa [Completion.isRead, overlapped] using read

theorem work_cases (stepped : s.work = some t) :
    (∃ completion, s.worker = .woken completion ∧ t = s.handle completion) ∨
      (∀ completion, s.worker ≠ .woken completion) ∧ t.running = s.running ∧
        t.initReturned = s.initReturned ∧ t.allReads = s.allReads := by
  unfold State.work at stepped
  split at stepped <;> rename_i place
  · cases Option.some.inj stepped
    refine Or.inr ⟨by simp [place], rfl, rfl, ?_⟩
    cases runs : s.running <;>
      simp [State.allReads, State.completedReads, place, Worker.holdsRead]
  · split at stepped
    · contradiction
    · rename_i completion port queued
      cases Option.some.inj stepped
      refine Or.inr ⟨by simp [place], rfl, rfl, ?_⟩
      cases read : completion.isRead
      · simp [State.allReads, State.completedReads, place, queued, Worker.holdsRead, read]
      · simp [State.allReads, State.completedReads, place, queued, Worker.holdsRead, read]
        omega
  · cases Option.some.inj stepped
    exact Or.inl ⟨_, place, rfl⟩
  · cases Option.some.inj stepped
    refine Or.inr ⟨by simp [place], rfl, rfl, ?_⟩
    simp only [State.allReads, State.completedReads, State.postReceive, place, Worker.holdsRead]
    omega
  · contradiction

theorem work_running (stepped : s.work = some t) : t.running = s.running := by
  obtain ⟨completion, _, rfl⟩ | ⟨_, same, _⟩ := work_cases stepped
  · exact (handle_frame s completion).1
  · exact same

theorem other_cases (other : e ≠ .work) (stepped : step s e = some t) :
    (t.running = true → s.running = true) ∧
      ((s.initReturned = false ∧ t.initReturned = true ∧ t.allReads = s.allReads + 1) ∨
        (t.initReturned = s.initReturned ∧ t.allReads = s.allReads)) := by
  cases e with
  | initPostsReceive =>
    simp only [step] at stepped
    split at stepped
    · contradiction
    · rename_i fresh
      cases Option.some.inj stepped
      refine ⟨id, Or.inl ⟨by simpa using fresh, rfl, ?_⟩⟩
      simp only [State.allReads, State.postReceive, State.completedReads]
      omega
  | work => contradiction
  | send payload accepted =>
    cases Option.some.inj stepped
    cases accepted with
    | false => exact ⟨id, Or.inr ⟨rfl, rfl⟩⟩
    | true => exact ⟨id, Or.inr ⟨rfl, rfl⟩⟩
  | receive =>
    simp only [step] at stepped
    split at stepped
    · contradiction
    · cases Option.some.inj stepped
      exact ⟨id, Or.inr ⟨rfl, rfl⟩⟩
  | readCompletes datagram =>
    simp only [step] at stepped
    split at stepped
    · contradiction
    · rename_i outstanding
      split at stepped
      · cases Option.some.inj stepped
        exact ⟨id, Or.inr ⟨rfl, complete_read_allReads outstanding rfl⟩⟩
      · split at stepped
        · contradiction
        · cases Option.some.inj stepped
          exact ⟨id, Or.inr ⟨rfl, complete_read_allReads outstanding rfl⟩⟩
  | writeCompletes index succeeded =>
    simp only [step] at stepped
    split at stepped
    · contradiction
    · cases Option.some.inj stepped
      exact ⟨id, Or.inr ⟨rfl, complete_allReads _ _⟩⟩
  | stop =>
    cases Option.some.inj stepped
    refine ⟨?_, Or.inr ⟨rfl, rfl⟩⟩
    intro running
    contradiction
  | wake =>
    simp only [step] at stepped
    split at stepped
    · contradiction
    · cases Option.some.inj stepped
      exact ⟨id, Or.inr ⟨rfl, complete_allReads _ _⟩⟩

theorem step_oneRead (one : OneRead s) (rearmed : Rearmed s e) (stepped : step s e = some t) :
    OneRead t := by
  intro running
  by_cases worker : e = .work
  · subst worker
    have runs : s.running = true := (work_running stepped).symm.trans running
    have total := one runs
    obtain ⟨completion, woken, rfl⟩ | ⟨_, _, returned, kept⟩ := work_cases stepped
    · obtain ⟨_, returned, _⟩ := handle_frame s completion
      have handled := handle_allReads s completion woken
      have same : completion.isRead = completion.rearms := by
        cases rearms : completion.rearms with
        | true => exact rearms_isRead rearms
        | false =>
          by_contra read
          have taken : completion ∈ s.worker.taken := taken_eq_some.mpr woken
          exact absurd (rearmed rfl runs _ taken (by simpa using read)) (by simp [rearms])
      simp only [same, runs, Bool.true_and] at handled
      rw [returned]
      omega
    · rw [returned]
      exact kept.trans total
  · obtain ⟨runs, ⟨before, after, added⟩ | ⟨same, kept⟩⟩ := other_cases worker stepped
    · have none := one (runs running)
      rw [before] at none
      rw [after, added, none]
      rfl
    · rw [kept, same]
      exact one (runs running)

theorem step_lost (one : OneRead s) (missed : ¬ Rearmed s e) (stepped : step s e = some t) :
    ¬ OneRead t := by
  simp only [Rearmed, not_forall] at missed
  obtain ⟨rfl, runs, completion, taken, read, lost⟩ := missed
  have woken : s.worker = .woken completion := taken_eq_some.mp taken
  intro after
  have before := one runs
  have after := after ((work_running stepped).trans runs)
  obtain ⟨other, same, rfl⟩ | ⟨idle, _⟩ := work_cases stepped
  · cases woken.symm.trans same
    obtain ⟨_, returned, _⟩ := handle_frame s completion
    have handled := handle_allReads s completion woken
    simp only [read, lost, Bool.and_false, Bool.toNat_true, Bool.toNat_false] at handled
    rw [returned] at after
    omega
  · exact idle completion woken

theorem start_oneRead : OneRead start := fun _ => rfl

/-- The read is never lost in precisely the runs that handle no failed or empty read. -/
theorem oneRead_iff_rearmed (es : List Event) :
    Throughout step OneRead start es ↔ Guarded step Rearmed start es :=
  throughout_iff_guarded (fun _ one => one) (fun _ _ _ => step_oneRead) (fun _ _ _ => step_lost)
    start_oneRead

/-- The server keeps receiving as long as each read that completes brings a
nonempty datagram. -/
theorem live_of_rearmed (es : List Event) (rearmed : Guarded step Rearmed start es) :
    Throughout step Live start es :=
  fun before t short reached =>
    ((oneRead_iff_rearmed es).mpr rearmed before t short reached).live

/-- No read is outstanding, completed or about to be posted. -/
def Silent (s : State) : Prop := s.initReturned = true ∧ s.allReads = 0

theorem work_silent (silent : Silent s) (stepped : s.work = some t) : Silent t := by
  obtain ⟨returned, none⟩ := silent
  obtain ⟨completion, woken, rfl⟩ | ⟨_, _, same, kept⟩ := work_cases stepped
  · obtain ⟨_, same, _⟩ := handle_frame s completion
    have handled := handle_allReads s completion woken
    refine ⟨same.trans returned, ?_⟩
    cases rearms : completion.rearms with
    | false =>
      simp only [rearms, Bool.and_false, Bool.toNat_false] at handled
      omega
    | true =>
      have read := rearms_isRead rearms
      simp only [State.allReads, woken, Worker.holdsRead, read, Bool.toNat_true] at none
      omega
  · exact ⟨same.trans returned, kept.trans none⟩

theorem step_silent (silent : Silent s) (stepped : step s e = some t) : Silent t := by
  by_cases worker : e = .work
  · subst worker
    exact work_silent silent stepped
  · obtain ⟨returned, none⟩ := silent
    obtain ⟨_, ⟨before, _⟩ | ⟨same, kept⟩⟩ := other_cases worker stepped
    · rw [returned] at before
      contradiction
    · exact ⟨same.trans returned, kept.trans none⟩

/-- A lost read is never replaced: no later step brings a datagram in. -/
theorem silent_forever (silent : Silent s) (reached : run step s es = some t)
    (datagram : Option (List UInt8)) : step t (.readCompletes datagram) = none := by
  obtain ⟨_, none⟩ : Silent t := run_invariant (fun _ _ _ => step_silent) silent reached
  have reads : t.reads = 0 := by
    simp only [State.allReads] at none
    omega
  simp [step, reads]

/-- An ordinary datagram on its way to the queue. -/
theorem live_of_rearmed_datagram :
    Throughout step Live start
      [.initPostsReceive, .work, .readCompletes (some [1, 2]), .work, .work, .work, .work] :=
  live_of_rearmed _ (by decide)

/-- One empty datagram and the server waits with no read posted. -/
theorem empty_datagram_silences :
    ¬ Throughout step Live start
      [.initPostsReceive, .work, .readCompletes (some []), .work, .work, .work] := by
  intro live
  have waits := live.last rfl rfl rfl rfl
  revert waits
  decide

end UltraDisplay.ServerTransport
