import UltraDisplay.Library.Transition
import UltraDisplay.Server.WasapiCapture

/-! The objects behind a loopback capture, from `init` to `stop` of
server/audio/wasapi_capture.cpp. Each call of `init` has a number, and so have the client,
the event and the service that it gets. -/
namespace UltraDisplay.WasapiCapture
open Transition

def Setup.activates (setup : Setup) : Bool := setup.enumerator && setup.endpoint

def Setup.initialized (setup : Setup) : Bool :=
  setup.activates && setup.client && setup.mixFormat.any (·.bitDepth?.isSome) && setup.initializes

/-- What the client runs with is told by `started` and `clientEvent`. Events that the capture
has forgotten without closing them are `leaked`. -/
structure Session where
  capture : WasapiCapture := {}
  inits : Nat := 0
  audioClient : Option Nat := none
  started : Bool := false
  clientEvent : Option Nat := none
  eventHandle : Option Nat := none
  captureClient : Option Nat := none
  leaked : List Nat := []
  deriving DecidableEq

namespace Session

/-- Out parameters release what they had, but for the event, which is a plain handle. -/
def init (s : Session) (setup : Setup) : Session :=
  let call := s.inits
  let s := { s with capture := (s.capture.init setup).1, inits := call + 1 }
  if !setup.activates then s
  else
    let s := { s with
      audioClient := if setup.client then some call else none
      started := false
      clientEvent := none }
    if !setup.initialized then s
    else
      let s := { s with
        leaked := s.leaked ++ s.eventHandle.toList
        eventHandle := if setup.event then some call else none }
      if !setup.event || !setup.setsEvent then s
      else
        { s with
          clientEvent := some call
          captureClient := if setup.service then some call else none }

/-- There has to be a client, and it does not start before it has its event. -/
def start (s : Session) (starts : Bool) : Option Session :=
  let s' := { s with capture := (s.capture.start starts).1 }
  if s.capture.isCapturing then some s'
  else if s.audioClient = none ∨ starts = true ∧ s.clientEvent = none then none
  else some { s' with started := s.started || starts }

def stop (s : Session) : Session :=
  let s :=
    if s.capture.isCapturing ∧ s.audioClient.isSome then
      { s with capture := { s.capture with isCapturing := false }, started := false }
    else s
  { s with capture := { s.capture with eventHandle := false }, eventHandle := none }

end Session

inductive Call where
  | init (setup : Setup)
  | start (starts : Bool)
  | stop
  deriving DecidableEq

def Session.step (s : Session) : Call → Option Session
  | .init setup => some (s.init setup)
  | .start starts => s.start starts
  | .stop => some s.stop

namespace Session

/-- Client, event and service are those of one `init`. -/
def Prepared (s : Session) : Prop :=
  ∃ call, s.audioClient = some call ∧ s.clientEvent = some call ∧ s.eventHandle = some call ∧
    s.captureClient = some call

/-- While it captures, `read_frames` waits for the event of a client that runs and asks its
service, and no event has been leaked. -/
structure Sound (s : Session) : Prop where
  ready : s.capture.isCapturing = true → s.Prepared ∧ s.started = true
  closed : s.leaked = []

/-- `init` is not called while capturing, nor again before `stop`, and `start` only between
the two. -/
def Allowed (s : Session) : Call → Prop
  | .init setup => (setup.activates = true → s.capture.isCapturing = false) ∧
      (setup.initialized = true → s.eventHandle = none)
  | .start starts => s.capture.isCapturing = false → starts = true → s.Prepared
  | .stop => True

/-- What the flags of the capture stand for. -/
structure Flags (s : Session) : Prop where
  event : s.capture.eventHandle = s.eventHandle.isSome
  service : s.capture.captureClient = s.captureClient.isSome

variable {s t : Session} {call : Call}

theorem capture_init (capture : WasapiCapture) (setup : Setup) :
    (capture.init setup).1.isCapturing = capture.isCapturing ∧
      (capture.init setup).1.eventHandle =
        (if setup.initialized then setup.event else capture.eventHandle) ∧
      (capture.init setup).1.captureClient =
        (if setup.initialized && setup.event && setup.setsEvent then setup.service
          else capture.captureClient) := by
  obtain ⟨enumerator, endpoint, client, mixFormat, initializes, event, setsEvent, service⟩ := setup
  unfold WasapiCapture.init Setup.initialized Setup.activates
  cases enumerator with
  | false => simp
  | true =>
    cases endpoint with
    | false => simp
    | true =>
      cases client with
      | false => simp
      | true =>
        cases mixFormat with
        | none => simp
        | some mix =>
          cases depth : mix.bitDepth? with
          | none => simp [depth]
          | some bitDepth =>
            cases initializes with
            | false => simp [depth]
            | true => cases event <;> cases setsEvent <;> cases service <;> simp [depth]

theorem activates_of_initialized {setup : Setup} (initialized : setup.initialized = true) :
    setup.activates = true := by
  simp only [Setup.initialized, Bool.and_eq_true] at initialized
  tauto

theorem init_spec (s : Session) (setup : Setup) :
    (s.init setup).capture = (s.capture.init setup).1 ∧
      (setup.activates = true → (s.init setup).started = false) ∧
      (s.init setup).leaked =
        (if setup.initialized then s.leaked ++ s.eventHandle.toList else s.leaked) ∧
      (s.init setup).eventHandle.isSome =
        (if setup.initialized then setup.event else s.eventHandle.isSome) ∧
      (s.init setup).captureClient.isSome =
        (if setup.initialized && setup.event && setup.setsEvent then setup.service
          else s.captureClient.isSome) := by
  unfold init
  cases activates : setup.activates with
  | false =>
    have early : setup.initialized = false := by
      by_contra late
      have reached := activates_of_initialized (Bool.eq_true_of_not_eq_false late)
      rw [activates] at reached
      cases reached
    simp [early]
  | true =>
    cases setup.initialized with
    | false => simp
    | true => cases setup.event <;> cases setup.setsEvent <;> cases setup.service <;> simp

theorem start_cases {starts : Bool} (stepped : s.start starts = some t) :
    t = s ∧ (s.capture.isCapturing = true ∨ starts = false) ∨
      s.capture.isCapturing = false ∧ starts = true ∧
        t = { s with capture := { s.capture with isCapturing := true }, started := true } := by
  simp only [start, WasapiCapture.start] at stepped
  cases capturing : s.capture.isCapturing with
  | true =>
    simp only [capturing, if_true] at stepped
    exact .inl ⟨(Option.some.inj stepped).symm, .inl rfl⟩
  | false =>
    simp only [capturing, Bool.false_eq_true, if_false] at stepped
    split at stepped
    case isTrue => cases stepped
    case isFalse =>
      have same := (Option.some.inj stepped).symm
      cases starts with
      | false => exact .inl ⟨by simpa using same, .inr rfl⟩
      | true => exact .inr ⟨rfl, rfl, by simpa using same⟩

/-- The flags of the capture tell what there is. -/
theorem step_flags (flags : s.Flags) (stepped : s.step call = some t) : t.Flags := by
  cases call with
  | init setup =>
    cases Option.some.inj stepped
    obtain ⟨_, event, service⟩ := capture_init s.capture setup
    obtain ⟨capture, _, _, event', service'⟩ := init_spec s setup
    constructor
    · rw [capture, event, event', flags.event]
    · rw [capture, service, service', flags.service]
  | start starts =>
    obtain ⟨rfl, _⟩ | ⟨_, _, rfl⟩ := start_cases stepped
    · exact flags
    · exact ⟨flags.event, flags.service⟩
  | stop =>
    cases Option.some.inj stepped
    unfold stop
    split <;> exact ⟨rfl, flags.service⟩

theorem step_sound (sound : s.Sound) (allowed : s.Allowed call) (stepped : s.step call = some t) :
    t.Sound := by
  cases call with
  | init setup =>
    cases Option.some.inj stepped
    obtain ⟨idle, unheld⟩ := allowed
    obtain ⟨capture, _, leaked, _⟩ := init_spec s setup
    have capturing := (capture_init s.capture setup).1
    refine ⟨fun still => ?_, ?_⟩
    · rw [capture, capturing] at still
      have inactive : setup.activates = false := by
        by_contra activates
        rw [idle (Bool.eq_true_of_not_eq_false activates)] at still
        cases still
      simpa [init, inactive, Prepared] using sound.ready still
    · rw [leaked]
      split
      case isTrue initialized => simp [sound.closed, unheld initialized]
      case isFalse => exact sound.closed
  | start starts =>
    obtain ⟨rfl, _⟩ | ⟨idle, starts, rfl⟩ := start_cases stepped
    · exact sound
    · exact ⟨fun _ => ⟨allowed idle starts, rfl⟩, sound.closed⟩
  | stop =>
    cases Option.some.inj stepped
    unfold stop
    split
    case isTrue => exact ⟨fun still => (by cases still), sound.closed⟩
    case isFalse quiet =>
      refine ⟨fun still => absurd still fun capturing => quiet ⟨capturing, ?_⟩, sound.closed⟩
      obtain ⟨⟨_, client, _⟩, _⟩ := sound.ready capturing
      simp [client]

theorem step_not_sound (missed : ¬ s.Allowed call) (stepped : s.step call = some t) :
    ¬ t.Sound := by
  intro still
  cases call with
  | init setup =>
    cases Option.some.inj stepped
    obtain ⟨capture, stopped, leaked, _⟩ := init_spec s setup
    have capturing := (capture_init s.capture setup).1
    refine missed ⟨fun activates => ?_, fun initialized => ?_⟩
    · by_contra running
      rw [Bool.not_eq_false, ← capturing, ← capture] at running
      obtain ⟨_, started⟩ := still.ready running
      rw [stopped activates] at started
      cases started
    · have closed := still.closed
      rw [leaked, if_pos initialized] at closed
      simpa using (List.append_eq_nil_iff.mp closed).2
  | start starts =>
    obtain ⟨_, quiet⟩ | ⟨idle, starts, rfl⟩ := start_cases stepped
    · refine missed fun idle starting => ?_
      rcases quiet with capturing | quiet
      · rw [idle] at capturing
        cases capturing
      · rw [starting] at quiet
        cases quiet
    · exact missed fun _ _ => (still.ready rfl).1
  | stop => exact missed trivial

/-- Over every sequence of `init`, `start` and `stop`, whatever fails in them: while it is
capturing, reads go to the running client of one `init`, with its event and its service,
and `stop` has closed every event that there was, exactly as long as no `init` replaces the
client of a capture or an event that is still open, and each `start` that succeeds finds
client, event and service of one `init`. After a `stop` there is no event until the next
`init`. -/
theorem session_sound_iff (calls : List Call) :
    Throughout step (fun s => s.Sound ∧ s.Flags) {} calls ↔ Guarded step Allowed {} calls := by
  have start : Sound {} ∧ Flags {} := ⟨⟨fun capturing => (by cases capturing), rfl⟩, rfl, rfl⟩
  refine throughout_iff_guarded (I := fun s => s.Sound ∧ s.Flags) (fun _ both => both) ?_ ?_ start
  · rintro s call t ⟨sound, flags⟩ allowed stepped
    exact ⟨step_sound sound allowed stepped, step_flags flags stepped⟩
  · rintro s call t _ missed stepped ⟨still, _⟩
    exact step_not_sound missed stepped still

end Session
end UltraDisplay.WasapiCapture
