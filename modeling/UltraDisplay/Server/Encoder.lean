import UltraDisplay.Server.AdaptiveController
import UltraDisplay.Shared.Result

/-! `EncoderFactory` of server/encoder/encoder_factory.cpp, and what an `EncoderConfig` asks
of the hardware that it finds. -/
namespace UltraDisplay.Encoder

inductive Hardware where
  | nvenc
  | amf
  | qsv
  deriving DecidableEq

/-- The constructors of the encoders throw where the hardware does not start. -/
inductive Created where
  | encoder (hardware : Hardware)
  | error (error : Error)
  | thrown
  deriving DecidableEq

/-- Which libraries `LoadLibraryA` finds. -/
def isNvencAvailable (loads : String → Bool) : Bool := loads "nvEncodeAPI64.dll"

def isAmfAvailable (loads : String → Bool) : Bool := loads "amfrt64.dll"

def isQsvAvailable (loads : String → Bool) : Bool := loads "libmfxhw64.dll" || loads "libvpl.dll"

/-- The codec asked for is not looked at. -/
def create (loads : String → Bool) (starts : Hardware → Bool) : Created :=
  let construct (hardware : Hardware) := if starts hardware then .encoder hardware else .thrown
  if isNvencAvailable loads then construct .nvenc
  else if isAmfAvailable loads then construct .amf
  else if isQsvAvailable loads then construct .qsv
  else .error { code := .notImplemented, message := "No supported hardware encoder found" }

def available (loads : String → Bool) : Hardware → Bool
  | .nvenc => isNvencAvailable loads
  | .amf => isAmfAvailable loads
  | .qsv => isQsvAvailable loads

/-- Hardware whose library is there but which does not start is not passed over. -/
theorem create_thrown_iff (loads : String → Bool) (starts : Hardware → Bool) :
    create loads starts = .thrown ↔
      ∃ hardware ∈ [Hardware.nvenc, .amf, .qsv].find? (available loads), starts hardware = false := by
  simp only [create, List.find?_cons, List.find?_nil, available]
  split
  case isTrue found => simp [found]
  case isFalse missing =>
    rw [Bool.not_eq_true] at missing
    split
    case isTrue found => simp [missing, found]
    case isFalse missing' =>
      rw [Bool.not_eq_true] at missing'
      split
      case isTrue found => simp [missing, missing', found]
      case isFalse missing'' =>
        rw [Bool.not_eq_true] at missing''
        simp [missing, missing', missing'']

inductive Format where
  | avc
  | hevc
  | av1
  deriving DecidableEq

/-- All three encoders take what is neither HEVC nor AV1 for H.264. -/
def Format.ofCodec : VideoCodec → Format
  | .hevc => .hevc
  | .av1 => .av1
  | _ => .avc

/-- How pictures are encoded, the bitrate in whole kilobits: every one by itself, or against
earlier ones. -/
structure Settings where
  format : Format
  kbps : Nat
  framerate : UInt32
  intraOnly : Bool
  deriving DecidableEq

def Settings.asked (config : EncoderConfig) : Settings where
  format := .ofCodec config.codec
  kbps := config.bitrateBps.toNat / 1000
  framerate := config.framerate
  intraOnly := config.forceIdr

end UltraDisplay.Encoder
