import UltraDisplay.Library.Commands
import UltraDisplay.Server.Encoder
import UltraDisplay.Server.NvencEncoder

/-! `AmfImpl` of server/encoder/amf_encoder.cpp. A component keeps the properties that it
lets be set, and runs with them from its `Init` on. -/
namespace UltraDisplay
open Commands Transition Encoder
open NvencEncoder (EncodedPacket)

namespace AmfEncoder

/-- A property that has not been set has the default of the component. -/
structure Component where
  codecId : Format
  targetBitrate : Option UInt32 := none
  framerate : Option UInt32 := none
  forcesIdr : Bool := false
  initialized : Bool := false
  deriving DecidableEq

structure Answers where
  creates : Bool
  setsBitrate : Bool
  setsFramerate : Bool
  setsPictureType : Bool
  inits : Bool
  deriving DecidableEq

structure Buffer where
  bytes : List UInt8
  isIdr : Bool
  deriving DecidableEq

/-- The answers to one `encode`; output may not be ready yet. -/
structure Picture where
  wraps : Bool
  submits : Bool
  output : Option Buffer
  deriving DecidableEq

inductive Command where
  | init (config : EncoderConfig)
  | reconfigure (config : EncoderConfig)
  deriving DecidableEq

def Command.config : Command → EncoderConfig
  | .init config | .reconfigure config => config

def Component.setProperties (component : Component) (config : EncoderConfig) (answers : Answers) :
    Component :=
  { component with
    targetBitrate :=
      if answers.setsBitrate then some config.bitrateBps else component.targetBitrate
    framerate := if answers.setsFramerate then some config.framerate else component.framerate
    forcesIdr := component.forcesIdr || (config.forceIdr && answers.setsPictureType) }

end AmfEncoder

structure AmfImpl where
  encoder : Option AmfEncoder.Component := none
  encoderInitialized : Bool := false
  frameCount : UInt32 := 0
  deriving DecidableEq

namespace AmfImpl
open AmfEncoder

/-- There is no result where the component is missing. -/
def reconfigure (impl : AmfImpl) (config : EncoderConfig) (answers : Answers) :
    Option (AmfImpl × Result Unit) :=
  impl.encoder.map fun component =>
    let component := component.setProperties config answers
    if !impl.encoderInitialized then
      if !answers.inits then
        ({ impl with encoder := some component },
          .error (systemError "AMF Encoder Init failed"))
      else
        ({ impl with
            encoder := some { component with initialized := true }
            encoderInitialized := true },
          .ok ())
    else ({ impl with encoder := some component }, .ok ())

/-- To take the address of the pointer releases the component there is, whether another one
is created or not. -/
def init (impl : AmfImpl) (config : EncoderConfig) (answers : Answers) :
    Option (AmfImpl × Result Unit) :=
  if !answers.creates then
    some ({ impl with encoder := none }, .error (systemError "Failed to create AMF component"))
  else
    { impl with encoder := some { codecId := .ofCodec config.codec } }.reconfigure config answers

def encode (impl : AmfImpl) (picture : Picture) : Option (AmfImpl × Result (List EncodedPacket)) :=
  if !picture.wraps then
    some (impl, .error (systemError "AMF CreateSurfaceFromDX11Native failed"))
  else
    impl.encoder.map fun _ =>
      if !picture.submits then (impl, .error (systemError "AMF SubmitInput failed"))
      else
        match picture.output with
        | none => (impl, .ok [])
        | some buffer =>
          ({ impl with frameCount := impl.frameCount + 1 },
            .ok [{ data := buffer.bytes, isKeyframe := buffer.isIdr,
                   frameNumber := impl.frameCount.toUInt16 }])

def perform (impl : AmfImpl) (answers : Answers) : Command → Option (AmfImpl × Result Unit)
  | .init config => impl.init config answers
  | .reconfigure config => impl.reconfigure config answers

/-- The component that a command sets the properties of, if there is one. -/
def told (impl : AmfImpl) (answers : Answers) : Command → Option Component
  | .init config => if answers.creates then some { codecId := .ofCodec config.codec } else none
  | .reconfigure _ => impl.encoder

end AmfImpl

namespace AmfEncoder

def Component.settings (component : Component) : Option Settings :=
  match component.targetBitrate, component.framerate with
  | some bitrate, some framerate =>
    some
      { format := component.codecId
        kbps := bitrate.toNat / 1000
        framerate
        intraOnly := component.forcesIdr }
  | _, _ => none

def device : Device AmfImpl Command Answers Picture EncodedPacket Settings where
  tell impl command answers :=
    (impl.perform answers command).map fun (next, result) => (next, result.isOk)
  work impl picture :=
    (impl.encode picture).map fun (next, result) => (next, result.toOption.getD [])
  running impl :=
    impl.encoder.bind fun component =>
      if component.initialized then component.settings else none

/-- The codec is the one asked for, the rates are set or there already, and pictures are
forced to be IDR only if they are to be. -/
def Complies (component : Component) (config : EncoderConfig) (answers : Answers) : Prop :=
  component.codecId = .ofCodec config.codec ∧
    (answers.setsBitrate ∨
      component.targetBitrate.map (·.toNat / 1000) = some (config.bitrateBps.toNat / 1000)) ∧
    (answers.setsFramerate ∨ component.framerate = some config.framerate) ∧
    if config.forceIdr then component.forcesIdr ∨ answers.setsPictureType
    else component.forcesIdr = false

/-- The component that is told runs, or starts to, and complies; where none is created,
none ran before. -/
def Heeds (impl : AmfImpl) (command : Command) (answers : Answers) : Prop :=
  match impl.told answers command with
  | none => device.running impl = none
  | some component =>
    impl.encoderInitialized || answers.inits →
      (impl.encoderInitialized → component.initialized) ∧
        Complies component command.config answers

instance (impl : AmfImpl) (command : Command) (answers : Answers) :
    Decidable (Heeds impl command answers) := by
  unfold Heeds Complies
  cases impl.told answers command <;> infer_instance

/-- The flag is set by the `Init` that starts a component. -/
def Started (impl : AmfImpl) : Prop :=
  ∀ component ∈ impl.encoder, component.initialized → impl.encoderInitialized

theorem setProperties_settings_iff (component : Component) (config : EncoderConfig)
    (answers : Answers) :
    (component.setProperties config answers).settings = some (.asked config) ↔
      Complies component config answers := by
  obtain ⟨codecId, targetBitrate, framerate, forcesIdr, _⟩ := component
  obtain ⟨_, setsBitrate, setsFramerate, setsPictureType, _⟩ := answers
  have bitrate : ((if setsBitrate then some config.bitrateBps else targetBitrate).map
      fun rate => rate.toNat / 1000) = some (config.bitrateBps.toNat / 1000) ↔
        setsBitrate ∨ targetBitrate.map (·.toNat / 1000) = some (config.bitrateBps.toNat / 1000) := by
    cases setsBitrate <;> simp
  have frames : (if setsFramerate then some config.framerate else framerate) =
      some config.framerate ↔ setsFramerate ∨ framerate = some config.framerate := by
    cases setsFramerate <;> simp
  have pictures : (forcesIdr || config.forceIdr && setsPictureType) = config.forceIdr ↔
      if config.forceIdr then forcesIdr ∨ setsPictureType else forcesIdr = false := by
    cases config.forceIdr <;> simp
  simp only [Complies, ← bitrate, ← frames, ← pictures, Component.setProperties, Settings.asked]
  generalize (if setsBitrate then some config.bitrateBps else targetBitrate) = rate
  generalize (if setsFramerate then some config.framerate else framerate) = fps
  cases rate <;> cases fps <;> simp [Component.settings]

theorem setProperties_initialized (component : Component) (config : EncoderConfig)
    (answers : Answers) :
    (component.setProperties config answers).initialized = component.initialized := rfl

theorem settings_initialized (component : Component) :
    { component with initialized := true }.settings = component.settings := rfl

/-- What the component that is told runs afterwards. -/
theorem reconfigure_iff {impl next : AmfImpl} {config : EncoderConfig} {answers : Answers}
    {component : Component} {result : Result Unit} (present : impl.encoder = some component)
    (started : component.initialized → impl.encoderInitialized)
    (told : impl.reconfigure config answers = some (next, result)) :
    Started next ∧ next.frameCount = impl.frameCount ∧
      result.isOk = (impl.encoderInitialized || answers.inits) ∧
      (device.running next = (if result.isOk then some (.asked config) else none) ↔
        (impl.encoderInitialized || answers.inits →
          (impl.encoderInitialized → component.initialized) ∧
            Complies component config answers)) := by
  rw [AmfImpl.reconfigure, present, Option.map_some, Option.some.injEq] at told
  rw [← setProperties_settings_iff]
  cases flag : impl.encoderInitialized with
  | true =>
    simp only [flag, Bool.not_true, Bool.false_eq_true, if_false, Prod.mk.injEq] at told
    obtain ⟨rfl, rfl⟩ := told
    refine ⟨fun _ _ _ => rfl, rfl, rfl, ?_⟩
    cases runs : component.initialized <;>
      simp [device, setProperties_initialized, runs, Except.isOk, Except.toBool]
  | false =>
    have stopped : component.initialized = false := by simpa [flag] using started
    cases inits : answers.inits with
    | true =>
      simp only [flag, inits, Bool.not_true, Bool.not_false, Bool.false_eq_true, if_false, if_true,
        Prod.mk.injEq] at told
      obtain ⟨rfl, rfl⟩ := told
      refine ⟨fun _ _ _ => rfl, rfl, rfl, ?_⟩
      simp [device, settings_initialized, Except.isOk, Except.toBool]
    | false =>
      simp only [flag, inits, Bool.not_false, if_true, Prod.mk.injEq] at told
      obtain ⟨rfl, rfl⟩ := told
      refine ⟨?_, rfl, rfl, ?_⟩
      · rintro _ ⟨⟩ runs
        rw [setProperties_initialized, stopped] at runs
        contradiction
      · simp [device, setProperties_initialized, stopped, Except.isOk, Except.toBool]

theorem running_eq_none {impl : AmfImpl} (started : Started impl)
    (flag : impl.encoderInitialized = false) : device.running impl = none := by
  cases present : impl.encoder with
  | none => simp [device, present]
  | some component =>
    have stopped : component.initialized = false := by
      simpa [flag] using started component present
    simp [device, present, stopped]

theorem perform_iff {impl next : AmfImpl} {command : Command} {answers : Answers}
    {result : Result Unit} (started : Started impl)
    (performed : impl.perform answers command = some (next, result)) :
    Started next ∧ next.frameCount = impl.frameCount ∧
      (device.running next =
          (if result.isOk then some (.asked command.config) else device.running impl) ↔
        Heeds impl command answers) := by
  -- Where a component is told, a command that fails leaves nothing running, as before.
  have refused (failed : (impl.encoderInitialized || answers.inits) = false) :
      device.running impl = none :=
    running_eq_none started (Bool.or_eq_false_iff.mp failed).1
  have merged {ok : Bool} (same : ok = (impl.encoderInitialized || answers.inits)) :
      (if ok then some (Settings.asked command.config) else device.running impl) =
        if ok then some (.asked command.config) else none := by
    cases ok with
    | true => rfl
    | false => exact refused same.symm
  cases command with
  | reconfigure config =>
    cases present : impl.encoder with
    | none => simp [AmfImpl.perform, AmfImpl.reconfigure, present] at performed
    | some component =>
      obtain ⟨started, count, isOk, exact⟩ :=
        reconfigure_iff present (started component present) performed
      rw [merged isOk]
      refine ⟨started, count, exact.trans ?_⟩
      simp [Heeds, AmfImpl.told, Command.config, present]
  | init config =>
    cases creates : answers.creates with
    | false =>
      simp only [AmfImpl.perform, AmfImpl.init, creates, Bool.not_false, if_true,
        Option.some.injEq, Prod.mk.injEq] at performed
      obtain ⟨rfl, rfl⟩ := performed
      refine ⟨by simp [Started], rfl, ?_⟩
      simp only [Heeds, AmfImpl.told, creates, Bool.false_eq_true, if_false]
      exact eq_comm
    | true =>
      simp only [AmfImpl.perform, AmfImpl.init, creates, Bool.not_true, Bool.false_eq_true,
        if_false] at performed
      obtain ⟨started, count, isOk, exact⟩ := reconfigure_iff rfl (by simp) performed
      rw [merged isOk]
      refine ⟨started, count, exact.trans ?_⟩
      simp [Heeds, AmfImpl.told, Command.config, creates]

theorem encode_spec {impl next : AmfImpl} {picture : Picture} {result : Result (List EncodedPacket)}
    (encoded : impl.encode picture = some (next, result)) :
    next.encoder = impl.encoder ∧ next.encoderInitialized = impl.encoderInitialized ∧
      ∀ n, impl.frameCount = .ofNat n → ∃ k, next.frameCount = .ofNat (n + k) ∧
        (result.toOption.getD []).map EncodedPacket.frameNumber =
          (List.range' n k).map UInt16.ofNat := by
  unfold AmfImpl.encode at encoded
  split at encoded
  case isTrue =>
    obtain ⟨rfl, rfl⟩ := Prod.mk.inj (Option.some.inj encoded)
    exact ⟨rfl, rfl, fun n count => ⟨0, count, rfl⟩⟩
  case isFalse =>
    obtain ⟨component, _, encoded⟩ := Option.map_eq_some_iff.mp encoded
    split at encoded
    case isTrue =>
      obtain ⟨rfl, rfl⟩ := Prod.mk.inj encoded
      exact ⟨rfl, rfl, fun n count => ⟨0, count, rfl⟩⟩
    case isFalse =>
      cases output : picture.output with
      | none =>
        rw [output] at encoded
        obtain ⟨rfl, rfl⟩ := Prod.mk.inj encoded
        exact ⟨rfl, rfl, fun n count => ⟨0, count, rfl⟩⟩
      | some buffer =>
        rw [output] at encoded
        obtain ⟨rfl, rfl⟩ := Prod.mk.inj encoded
        refine ⟨rfl, rfl, fun n count => ⟨1, ?_, ?_⟩⟩
        · simp [count]
        · simp [count, Except.toOption]

theorem tell_spec {impl next : AmfImpl} {command : Command} {answers : Answers} {ok : Bool}
    (told : device.tell impl command answers = some (next, ok)) :
    ∃ result, impl.perform answers command = some (next, result) ∧ result.isOk = ok := by
  obtain ⟨⟨_, result⟩, performed, same⟩ := Option.map_eq_some_iff.mp told
  obtain ⟨rfl, rfl⟩ := Prod.mk.inj same
  exact ⟨result, performed, rfl⟩

theorem work_spec {impl next : AmfImpl} {picture : Picture} {packets : List EncodedPacket}
    (worked : device.work impl picture = some (next, packets)) :
    ∃ result, impl.encode picture = some (next, result) ∧ result.toOption.getD [] = packets := by
  obtain ⟨⟨_, result⟩, encoded, same⟩ := Option.map_eq_some_iff.mp worked
  obtain ⟨rfl, rfl⟩ := Prod.mk.inj same
  exact ⟨result, encoded, rfl⟩

end AmfEncoder
end UltraDisplay
