import UltraDisplay.Library.Progress

/-! server/service/win_service.cpp: `service_main` on a thread of its own and the control
handler on the dispatcher's. Both call `set_status`, which writes one field of the shared
status after the other before it reports it. -/
namespace UltraDisplay.WinService
open Progress Transition

/-- SERVICE_STATUS, as the service control manager gets it. -/
structure ServiceStatus where
  serviceType : UInt32 := 0
  currentState : UInt32 := 0
  controlsAccepted : UInt32 := 0
  win32ExitCode : UInt32 := 0
  serviceSpecificExitCode : UInt32 := 0
  checkPoint : UInt32 := 0
  waitHint : UInt32 := 0
  deriving DecidableEq

inductive ServiceState where
  | stopped
  | startPending
  | stopPending
  | running
  deriving DecidableEq

def ServiceState.code : ServiceState → UInt32
  | .stopped => 1
  | .startPending => 2
  | .stopPending => 3
  | .running => 4

/-- SERVICE_ACCEPT_STOP and SERVICE_ACCEPT_SHUTDOWN. -/
def acceptStop : UInt32 := 1
def acceptShutdown : UInt32 := 4

/-- SERVICE_CONTROL_STOP and SERVICE_CONTROL_SHUTDOWN. -/
def controlStop : UInt32 := 1
def controlShutdown : UInt32 := 5

/-- An assignment of `set_status`. -/
inductive Write where
  | currentState (value : UInt32)
  | win32ExitCode (value : UInt32)
  | waitHint (value : UInt32)
  | controlsAccepted (value : UInt32)
  | checkPoint (value : UInt32)
  deriving DecidableEq

def Write.perform (status : ServiceStatus) : Write → ServiceStatus
  | .currentState value => { status with currentState := value }
  | .win32ExitCode value => { status with win32ExitCode := value }
  | .waitHint value => { status with waitHint := value }
  | .controlsAccepted value => { status with controlsAccepted := value }
  | .checkPoint value => { status with checkPoint := value }

def setStatus (state : ServiceState) (exitCode waitHint : UInt32) : List Write :=
  [.currentState state.code, .win32ExitCode exitCode, .waitHint waitHint,
    .controlsAccepted (if state = .startPending then 0 else acceptStop ||| acceptShutdown),
    .checkPoint (if state = .running ∨ state = .stopped then 0 else 1)]

inductive Main where
  | start
  | registered
  | setting (state : ServiceState) (left : List Write)
  | creating
  | waiting
  | returned
  deriving DecidableEq

inductive Handler where
  | idle
  | stopping (left : List Write)
  | exiting
  | exited
  deriving DecidableEq

structure State where
  status : ServiceStatus := {}
  main : Main := .start
  handler : Handler := .idle
  reports : List ServiceStatus := []
  deriving DecidableEq

inductive Move where
  | register (succeeds : Bool)
  | main
  | createEvent (succeeds : Bool)
  | control (ctrlCode : UInt32)
  | handler
  deriving DecidableEq

/-- A stop or a shutdown comes only when the last report accepts it. -/
def accepts (reports : List ServiceStatus) (ctrlCode : UInt32) : Bool :=
  match reports.getLast? with
  | none => false
  | some status =>
    (ctrlCode != controlStop || status.controlsAccepted &&& acceptStop != 0) &&
      (ctrlCode != controlShutdown || status.controlsAccepted &&& acceptShutdown != 0)

/-- Where `service_main` goes on after `set_status`. -/
def Main.after : ServiceState → Main
  | .startPending => .setting .running (setStatus .running 0 0)
  | .running => .creating
  | .stopPending | .stopped => .returned

namespace State

def serviceMain (s : State) : Option State :=
  match s.main with
  | .registered => some { s with
      status := { s.status with serviceType := 0x10, serviceSpecificExitCode := 0 },
      main := .setting .startPending (setStatus .startPending 0 0) }
  | .setting state (write :: left) =>
    some { s with status := write.perform s.status, main := .setting state left }
  | .setting state [] =>
    some { s with reports := s.reports ++ [s.status], main := .after state }
  -- the event is never set
  | .start | .creating | .waiting | .returned => none

def serviceCtrlHandler (s : State) : Option State :=
  match s.handler with
  | .stopping (write :: left) =>
    some { s with status := write.perform s.status, handler := .stopping left }
  | .stopping [] => some { s with reports := s.reports ++ [s.status], handler := .exiting }
  | .exiting => some { s with handler := .exited }
  | .idle | .exited => none

end State

def step (s : State) (move : Move) : Option State :=
  if s.handler = .exited then none
  else
    match move with
    | .register succeeds =>
      if s.main = .start then
        some { s with main := if succeeds then .registered else .returned }
      else none
    | .main => s.serviceMain
    | .createEvent succeeds =>
      if s.main = .creating then
        -- there is no waiting for a null handle
        some { s with
          main := if succeeds then .waiting else .setting .stopped (setStatus .stopped 0 0) }
      else none
    | .control ctrlCode =>
      if s.handler = .idle ∧ accepts s.reports ctrlCode then
        if ctrlCode = controlStop ∨ ctrlCode = controlShutdown then
          some { s with handler := .stopping (setStatus .stopPending 0 0) }
        else some s
      else none
    | .handler => s.serviceCtrlHandler

/-- What `set_status` reports, when nobody else writes meanwhile. -/
def statusOf (state : ServiceState) : ServiceStatus :=
  (setStatus state 0 0).foldl Write.perform { serviceType := 0x10 }

theorem setStatus_whole (state : ServiceState) {status : ServiceStatus}
    (type : status.serviceType = 0x10) (specific : status.serviceSpecificExitCode = 0) :
    (setStatus state 0 0).foldl Write.perform status = statusOf state := by
  simp [setStatus, statusOf, Write.perform, type, specific]

theorem accepts_startPending {ctrlCode : UInt32}
    (accepted : accepts [statusOf .startPending] ctrlCode = true) :
    ¬ (ctrlCode = controlStop ∨ ctrlCode = controlShutdown) := by
  simp only [accepts, List.getLast?_singleton, Bool.and_eq_true, Bool.or_eq_true,
    bne_iff_ne] at accepted
  obtain ⟨stop, shutdown⟩ := accepted
  rintro (rfl | rfl)
  · simp [statusOf, setStatus, Write.perform] at stop
  · simp [statusOf, setStatus, Write.perform] at shutdown

/-- `service_main` has nothing left to do. -/
def Main.serves (main : Main) : Prop := main = .creating ∨ main = .waiting

/-- One thread at most is inside of `set_status`, and what it has yet to write makes the
status whole. -/
inductive Stands : State → Prop where
  | before {status main} (quiet : main = .start ∨ main = .registered ∨ main = .returned) :
      Stands ⟨status, main, .idle, []⟩
  | starting {status left} (whole : left.foldl Write.perform status = statusOf .startPending) :
      Stands ⟨status, .setting .startPending left, .idle, []⟩
  | started {status left} (whole : left.foldl Write.perform status = statusOf .running) :
      Stands ⟨status, .setting .running left, .idle, [statusOf .startPending]⟩
  | serving {main} (serves : main.serves) :
      Stands ⟨statusOf .running, main, .idle, [statusOf .startPending, statusOf .running]⟩
  | stopping {status main left} (serves : main.serves) (few : left.length ≤ 5)
      (whole : left.foldl Write.perform status = statusOf .stopPending) :
      Stands ⟨status, main, .stopping left, [statusOf .startPending, statusOf .running]⟩
  | stopped {status main handler} (serves : main.serves)
      (ends : handler = .exiting ∨ handler = .exited) :
      Stands ⟨status, main, handler,
        [statusOf .startPending, statusOf .running, statusOf .stopPending]⟩

variable {s t : State} {move : Move}

theorem serviceMain_stands (stands : Stands s) (moved : s.serviceMain = some t) : Stands t := by
  unfold State.serviceMain at moved
  cases stands with
  | before quiet =>
    rcases quiet with rfl | rfl | rfl
    · cases moved
    · cases Option.some.inj moved
      exact .starting (setStatus_whole .startPending rfl rfl)
    · cases moved
  | @starting status left whole =>
    cases left with
    | cons write left =>
      cases Option.some.inj moved
      exact .starting whole
    | nil =>
      cases Option.some.inj moved
      have reported : status = statusOf .startPending := whole
      subst reported
      exact .started (setStatus_whole .running rfl rfl)
  | @started status left whole =>
    cases left with
    | cons write left =>
      cases Option.some.inj moved
      exact .started whole
    | nil =>
      cases Option.some.inj moved
      have reported : status = statusOf .running := whole
      subst reported
      exact .serving (.inl rfl)
  | serving serves | stopping serves | stopped serves =>
    rcases serves with rfl | rfl <;> cases moved

theorem serviceCtrlHandler_stands (stands : Stands s) (moved : s.serviceCtrlHandler = some t) :
    Stands t := by
  unfold State.serviceCtrlHandler at moved
  cases stands with
  | before | starting | started | serving => cases moved
  | @stopping status main left serves few whole =>
    cases left with
    | cons write left =>
      cases Option.some.inj moved
      exact .stopping serves (Nat.le_of_succ_le few) whole
    | nil =>
      cases Option.some.inj moved
      have reported : status = statusOf .stopPending := whole
      subst reported
      exact .stopped serves (.inl rfl)
  | stopped serves ends =>
    rcases ends with rfl | rfl
    · cases Option.some.inj moved
      exact .stopped serves (.inr rfl)
    · cases moved

theorem step_stands (stands : Stands s) (created : move ≠ .createEvent false)
    (stepped : step s move = some t) : Stands t := by
  unfold step at stepped
  split at stepped
  case isTrue => cases stepped
  cases move with
  | main => exact serviceMain_stands stands stepped
  | handler => exact serviceCtrlHandler_stands stands stepped
  | register succeeds =>
    dsimp only at stepped
    split at stepped
    case isFalse => cases stepped
    case isTrue start =>
      cases Option.some.inj stepped
      cases stands with
      | before =>
        refine .before ?_
        cases succeeds <;> simp
      | starting | started => cases start
      | serving serves | stopping serves | stopped serves =>
        rcases serves with rfl | rfl <;> cases start
  | createEvent succeeds =>
    have succeeded : succeeds = true := by
      cases succeeds
      · exact absurd rfl created
      · rfl
    subst succeeded
    dsimp only at stepped
    split at stepped
    case isFalse => cases stepped
    case isTrue creating =>
      cases Option.some.inj stepped
      cases stands with
      | before quiet => rcases quiet with rfl | rfl | rfl <;> cases creating
      | starting | started => cases creating
      | serving => exact .serving (.inr rfl)
      | stopping _ few whole => exact .stopping (.inr rfl) few whole
      | stopped _ ends => exact .stopped (.inr rfl) ends
  | control ctrlCode =>
    dsimp only at stepped
    split at stepped
    case isFalse => cases stepped
    case isTrue accepted =>
      obtain ⟨idle, accepted⟩ := accepted
      split at stepped
      case isFalse =>
        cases Option.some.inj stepped
        exact stands
      case isTrue stop =>
        cases Option.some.inj stepped
        cases stands with
        | before | starting => cases accepted
        | started => exact absurd stop (accepts_startPending accepted)
        | serving serves =>
          exact .stopping serves (Nat.le_refl 5) (setStatus_whole .stopPending rfl rfl)
        | stopping => cases idle
        | stopped _ ends => rcases ends with rfl | rfl <;> cases idle

def Main.sets : Main → Bool
  | .setting .. => true
  | _ => false

def Handler.sets : Handler → Bool
  | .stopping .. => true
  | _ => false

/-- The moves of the dispatcher's thread that are left once it is told to stop. -/
def Handler.remaining : Handler → Nat
  | .idle | .exited => 0
  | .exiting => 1
  | .stopping left => left.length + 2

def Move.isHandler : Move → Bool
  | .handler => true
  | _ => false

/-- What the service control manager sees of the service. -/
structure Orderly (s : State) : Prop where
  reports : s.reports <+: [statusOf .startPending, statusOf .running, statusOf .stopPending]
  alone : ¬ (s.main.sets = true ∧ s.handler.sets = true)
  stays : statusOf .running ∈ s.reports → s.main.serves
  told : s.handler ≠ .idle → statusOf .running ∈ s.reports
  exits : s.handler = .exited → statusOf .stopPending ∈ s.reports

theorem Stands.orderly (stands : Stands s) : Orderly s := by
  have quiet {main : Main} (serves : main.serves) : main.sets = false := by
    rcases serves with rfl | rfl <;> rfl
  cases stands with
  | before => exact ⟨List.nil_prefix, by simp [Handler.sets], by simp, by simp, by simp⟩
  | starting => exact ⟨List.nil_prefix, by simp [Handler.sets], by simp, by simp, by simp⟩
  | started =>
    refine ⟨⟨_, rfl⟩, by simp [Handler.sets], ?_, by simp, by simp⟩
    intro running
    cases List.mem_singleton.mp running
  | serving serves => exact ⟨⟨_, rfl⟩, by simp [Handler.sets], fun _ => serves, by simp, by simp⟩
  | stopping serves =>
    exact ⟨⟨_, rfl⟩, by simp [quiet serves], fun _ => serves, fun _ => by simp, by simp⟩
  | stopped serves =>
    exact ⟨⟨_, rfl⟩, by simp [quiet serves], fun _ => serves, fun _ => by simp, fun _ => by simp⟩

theorem step_handler (stepped : step s .handler = some t) :
    t.handler ≠ .idle ∧ t.handler.remaining < s.handler.remaining := by
  unfold step at stepped
  split at stepped
  case isTrue => cases stepped
  dsimp only [State.serviceCtrlHandler] at stepped
  split at stepped
  case h_1 write left stopping =>
    cases Option.some.inj stepped
    simp [stopping, Handler.remaining]
  case h_2 stopping =>
    cases Option.some.inj stepped
    simp [stopping, Handler.remaining]
  case h_3 exiting =>
    cases Option.some.inj stepped
    simp [exiting, Handler.remaining]
  case h_4 => cases stepped
  case h_5 => cases stepped

theorem step_others (told : s.handler ≠ .idle) (other : move.isHandler = false)
    (stepped : step s move = some t) : t.handler = s.handler := by
  unfold step at stepped
  split at stepped
  case isTrue => cases stepped
  cases move with
  | handler => cases other
  | main =>
    dsimp only [State.serviceMain] at stepped
    split at stepped <;> cases stepped <;> rfl
  | register | createEvent =>
    dsimp only at stepped
    split at stepped <;> cases stepped
    rfl
  | control =>
    dsimp only at stepped
    rw [if_neg fun accepted => told accepted.1] at stepped
    cases stepped

/-- A process that is told to stop ends, whatever `service_main` does. -/
theorem handler_windsUp :
    WindsUp step Move.isHandler (fun s => s.handler ≠ .idle) (fun s => s.handler.remaining) where
  kept := by
    intro s move t told stepped
    cases own : move.isHandler with
    | false => rwa [step_others told own stepped]
    | true =>
      cases move <;> try cases own
      exact (step_handler stepped).1
  lowers := by
    intro s move t _ own stepped
    cases move <;> try cases own
    exact (step_handler stepped).2
  leaves := by
    intro s move t told other stepped
    rw [step_others told other stepped]
  enabled := by
    intro s told remains
    refine ⟨.handler, rfl, ?_⟩
    unfold step State.serviceCtrlHandler
    cases handler : s.handler with
    | idle => exact absurd handler told
    | exited => simp [handler, Handler.remaining] at remains
    | exiting => simp
    | stopping left => cases left <;> simp

/-- From the stop on the dispatcher's thread has seven moves at most, and has one until the
process has ended. -/
def Ends (s : State) : Prop :=
  s.handler ≠ .idle → ∀ moves t, run step s moves = some t →
    moves.countP Move.isHandler ≤ 7 ∧ (t.handler = .exited ∨ (step t .handler).isSome = true)

theorem Stands.ends (stands : Stands s) : Ends s := by
  intro told moves t reached
  have bounded := handler_windsUp.steps_le told reached
  have few : s.handler.remaining ≤ 7 := by
    cases stands with
    | before | starting | started | serving => exact absurd rfl told
    | stopping _ few => exact Nat.add_le_add_right few 2
    | stopped _ ends => rcases ends with rfl | rfl <;> simp [Handler.remaining]
  have told : t.handler ≠ .idle :=
    run_invariant (I := fun s => s.handler ≠ .idle) handler_windsUp.kept told reached
  refine ⟨by omega, ?_⟩
  cases handler : t.handler with
  | idle => exact absurd handler told
  | exited => exact .inl rfl
  | exiting | stopping =>
    have remains : t.handler.remaining ≠ 0 := by simp [handler, Handler.remaining]
    obtain ⟨move, own, moves⟩ := handler_windsUp.enabled t told remains
    cases move <;> try cases own
    exact .inr moves

/-- Without the event `service_main` reports a stop that nobody asked for. -/
theorem createEvent_not_orderly (stands : Stands s) (stepped : step s (.createEvent false) = some t) :
    ¬ Orderly t := by
  intro orderly
  unfold step at stepped
  split at stepped
  case isTrue => cases stepped
  dsimp only at stepped
  split at stepped
  case isFalse => cases stepped
  case isTrue creating =>
    cases Option.some.inj stepped
    have reported : statusOf .running ∈ s.reports := by
      cases stands with
      | before quiet => rcases quiet with rfl | rfl | rfl <;> cases creating
      | starting | started => cases creating
      | serving | stopping | stopped => simp
    rcases orderly.stays reported with stays | stays <;> simp at stays

/-- Whatever the order of the two threads' moves: the reports are START_PENDING, RUNNING and,
when the service is stopped, STOP_PENDING before the process ends, each written as a whole
and by one thread, and nothing is ever reported as stopped, all along every run exactly as
long as the event can be created. -/
theorem reports_in_order_iff (moves : List Move) :
    Throughout step (fun s => Orderly s ∧ Ends s) {} moves ↔
      Guarded step (fun _ move => move ≠ .createEvent false) {} moves := by
  refine throughout_iff_guarded (I := Stands) ?holds ?preserved ?fails (.before (.inl rfl))
  case holds => exact fun s stands => ⟨stands.orderly, stands.ends⟩
  case preserved => exact fun s move t stands created stepped => step_stands stands created stepped
  case fails =>
    intro s move t stands failed stepped both
    cases not_not.mp failed
    exact createEvent_not_orderly stands stepped both.1

/-- A stop in that moment reports SERVICE_STOPPED with the check point of a pending stop. -/
example : (run step {}
      ([.register true] ++ List.replicate 13 .main ++ [.createEvent false, .control controlStop] ++
        [.handler, .main] ++ List.replicate 5 .handler)).bind (·.reports.getLast?) =
    some { serviceType := 0x10, currentState := 1, controlsAccepted := 5, checkPoint := 1 } := by
  decide

end UltraDisplay.WinService
