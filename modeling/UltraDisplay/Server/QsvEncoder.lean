import UltraDisplay.Library.Commands
import UltraDisplay.Server.Encoder
import UltraDisplay.Server.NvencEncoder

/-! `QsvImpl` of server/encoder/qsv_encoder.cpp. The session runs with the parameters that
it took last, and every call of MFX may be refused or end in a warning. -/
namespace UltraDisplay
open Commands Transition Encoder
open NvencEncoder (EncodedPacket)

namespace QsvEncoder

/-- The fields of `mfxVideoParam` that depend on the configuration. -/
structure VideoParam where
  codecId : Format
  targetKbps : UInt16
  frameRateExtN : UInt32
  gopPicSize : UInt16
  deriving DecidableEq

def VideoParam.settings (params : VideoParam) : Settings where
  format := params.codecId
  kbps := params.targetKbps.toNat
  framerate := params.frameRateExtN
  intraOnly := params.gopPicSize == 1

/-- The status of a call: no error, a warning, with which the session takes parameters that
may not be the ones given, or an error. -/
inductive Answer where
  | accepted
  | warned (taken : VideoParam)
  | refused
  deriving DecidableEq

inductive Command where
  | init (config : EncoderConfig)
  | reconfigure (config : EncoderConfig)
  deriving DecidableEq

def Command.config : Command → EncoderConfig
  | .init config | .reconfigure config => config

structure Bitstream where
  bytes : List UInt8
  isIdr : Bool
  deriving DecidableEq

end QsvEncoder

structure QsvImpl where
  session : Option QsvEncoder.VideoParam := none
  encoderInitialized : Bool := false
  frameCount : UInt32 := 0
  deriving DecidableEq

namespace QsvImpl
open QsvEncoder

/-- The rate is cut to the 16 bits of its field. -/
def params (config : EncoderConfig) : VideoParam where
  codecId := if config.codec = .hevc then .hevc else .avc
  targetKbps := (config.bitrateBps / 1000).toUInt16
  frameRateExtN := config.framerate
  gopPicSize := if config.forceIdr then 1 else 0xFFFF

/-- The answer is that of `MFXVideoENCODE_Init`, where a warning counts as a failure, or of
`MFXVideoENCODE_Reset`, whose status is dropped. -/
def reconfigure (impl : QsvImpl) (config : EncoderConfig) (answer : Answer) :
    QsvImpl × Result Unit :=
  if !impl.encoderInitialized then
    match answer with
    | .accepted => ({ impl with session := some (params config), encoderInitialized := true }, .ok ())
    | .warned taken =>
      ({ impl with session := some taken }, .error (systemError "MFXVideoENCODE_Init failed"))
    | .refused => (impl, .error (systemError "MFXVideoENCODE_Init failed"))
  else
    match answer with
    | .accepted => ({ impl with session := some (params config) }, .ok ())
    | .warned taken => ({ impl with session := some taken }, .ok ())
    | .refused => (impl, .ok ())

/-- Sets the device of the session, which nothing here depends on. -/
def init (impl : QsvImpl) (config : EncoderConfig) (answer : Answer) : QsvImpl × Result Unit :=
  impl.reconfigure config answer

def perform (impl : QsvImpl) (answer : Answer) : Command → QsvImpl × Result Unit
  | .init config => impl.init config answer
  | .reconfigure config => impl.reconfigure config answer

/-- A call that gives no picture gives no error either. -/
def encode (impl : QsvImpl) (encoded : Option Bitstream) :
    QsvImpl × Result (List EncodedPacket) :=
  match encoded with
  | none => (impl, .ok [])
  | some bs =>
    ({ impl with frameCount := impl.frameCount + 1 },
      .ok [{ data := bs.bytes, isKeyframe := bs.isIdr, frameNumber := impl.frameCount.toUInt16 }])

end QsvImpl

namespace QsvEncoder

def device : Device QsvImpl Command Answer (Option Bitstream) EncodedPacket Settings where
  tell impl command answer :=
    let (next, result) := impl.perform answer command
    some (next, result.isOk)
  work impl encoded :=
    let (next, result) := impl.encode encoded
    some (next, result.toOption.getD [])
  running impl := impl.session.map VideoParam.settings

/-- What the parameters can say of a configuration. -/
def Expressible (config : EncoderConfig) : Prop :=
  config.codec ≠ .av1 ∧ config.bitrateBps < 65536000

/-- Parameters that are set say what is asked, those that a warning leaves do so too, and
those of a reset that is refused do so already. An `Init` that ends in a warning must leave
what runs. -/
def Heeds (impl : QsvImpl) (command : Command) : Answer → Prop
  | .accepted => Expressible command.config
  | .warned taken =>
    if impl.encoderInitialized then taken.settings = .asked command.config
    else device.running impl = some taken.settings
  | .refused =>
    impl.encoderInitialized = true → device.running impl = some (.asked command.config)

instance (impl : QsvImpl) (command : Command) (answer : Answer) :
    Decidable (Heeds impl command answer) := by
  unfold Heeds Expressible
  cases answer <;> infer_instance

/-- 65536000 bits are the first rate whose kilobits do not fit. -/
theorem settings_params_iff (config : EncoderConfig) :
    (QsvImpl.params config).settings = .asked config ↔ Expressible config := by
  have kbps : (config.bitrateBps / 1000).toUInt16.toNat = config.bitrateBps.toNat / 1000 ↔
      config.bitrateBps < 65536000 := by
    have quotient : (config.bitrateBps / 1000).toNat = config.bitrateBps.toNat / 1000 := by simp
    rw [UInt32.toNat_toUInt16, quotient, UInt32.lt_iff_toNat_lt,
      show (65536000 : UInt32).toNat = 65536000 from rfl]
    omega
  have format : (if config.codec = .hevc then Format.hevc else .avc) = .ofCodec config.codec ↔
      config.codec ≠ .av1 := by
    cases config.codec <;> simp [Format.ofCodec]
  have intra : ((if config.forceIdr then (1 : UInt16) else 0xFFFF) == 1) = config.forceIdr := by
    cases config.forceIdr <;> rfl
  simp only [VideoParam.settings, QsvImpl.params, Settings.asked, Settings.mk.injEq, format, kbps,
    intra, and_true, Expressible]

/-- A rate that the controller may choose comes out as a third of it. -/
example : (QsvImpl.params { bitrateBps := 100000000 }).targetKbps = 34464 := by decide

theorem perform_eq (impl : QsvImpl) (command : Command) (answer : Answer) :
    impl.perform answer command = impl.reconfigure command.config answer := by
  cases command <;> rfl

theorem perform_iff (impl : QsvImpl) (command : Command) (answer : Answer) :
    device.running (impl.perform answer command).1 =
        (if (impl.perform answer command).2.isOk then some (.asked command.config)
          else device.running impl) ↔ Heeds impl command answer := by
  rw [perform_eq]
  cases answer with
  | accepted =>
    refine Iff.trans ?_ (settings_params_iff command.config)
    cases started : impl.encoderInitialized <;>
      simp [device, QsvImpl.reconfigure, started, Except.isOk, Except.toBool]
  | warned taken =>
    cases started : impl.encoderInitialized with
    | true => simp [Heeds, device, QsvImpl.reconfigure, started, Except.isOk, Except.toBool]
    | false =>
      simp only [Heeds, started, Bool.false_eq_true, if_false]
      rw [eq_comm]
      simp [device, QsvImpl.reconfigure, started, Except.isOk, Except.toBool]
  | refused =>
    cases started : impl.encoderInitialized <;>
      simp [Heeds, device, QsvImpl.reconfigure, started, Except.isOk, Except.toBool]

theorem perform_frameCount (impl : QsvImpl) (command : Command) (answer : Answer) :
    (impl.perform answer command).1.frameCount = impl.frameCount := by
  rw [perform_eq]
  cases answer <;> cases started : impl.encoderInitialized <;>
    simp [QsvImpl.reconfigure, started]

/-- Over every sequence of `init`, `reconfigure` and `encode`, whatever MFX answers, the
session runs what the last call that returned success asked for exactly as long as each
configuration that is set can be expressed, no warning changes what runs but to what is
asked, and each configuration refused is in force already. The packets are numbered one
after the other, modulo 2^16. -/
theorem session_follows_iff (events : List (Event Command Answer (Option Bitstream))) :
    (Throughout (device.step (.asked ·.config)) device.Follows ⟨{}, none⟩ events ↔
        Guarded (device.step (.asked ·.config)) (Device.Told Heeds) ⟨{}, none⟩ events) ∧
      (device.yields {} events).map EncodedPacket.frameNumber =
        (List.range (device.yields {} events).length).map UInt16.ofNat := by
  constructor
  · refine Device.follows_iff (I := fun _ => True) ?told ?worked trivial rfl events
    case told =>
      rintro impl command answer _ _ _ ⟨⟩
      exact ⟨trivial, perform_iff impl command answer⟩
    case worked =>
      rintro impl encoded _ _ _ ⟨⟩
      cases encoded <;> exact ⟨trivial, rfl⟩
  · rw [List.range_eq_range']
    refine Device.yields_numbered (I := fun impl n => impl.frameCount = .ofNat n)
      ?numberTold ?numberWorked events rfl
    case numberTold =>
      rintro impl command answer _ _ n count ⟨⟩
      exact (perform_frameCount impl command answer).trans count
    case numberWorked =>
      rintro impl encoded _ _ n count ⟨⟩
      cases encoded with
      | none => exact ⟨0, count, rfl⟩
      | some bs =>
        refine ⟨1, ?_, ?_⟩
        · simp [count]
        · simp [count, Except.toOption]

end QsvEncoder
end UltraDisplay
