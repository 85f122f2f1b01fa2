import UltraDisplay.Library.Transition
import UltraDisplay.Shared.Result

/-! `NvencImpl::encode` of server/encoder/nvenc_encoder.cpp. The encoder registers the
texture of its first call and maps that registration from then on. Textures are told
apart as objects, and every call of NVENC may succeed or fail. -/
namespace UltraDisplay.NvencEncoder
open Transition
variable {τ : Type}

/-- What NVENC returns for a texture, and what it encodes when the resource is mapped. -/
structure RegisteredResource (τ : Type) where
  texture : τ
  deriving DecidableEq

structure EncodedPacket where
  data : List UInt8
  isKeyframe : Bool
  frameNumber : UInt16
  deriving DecidableEq

/-- A locked bitstream, whose index is cut to 16 bits. -/
structure Bitstream where
  bytes : List UInt8
  isIdr : Bool
  frameIdx : UInt32
  deriving DecidableEq

inductive ApiCall (τ : Type) where
  | registerResource (texture : τ)
  | mapInputResource (resource : RegisteredResource τ)
  | encodePicture (input : RegisteredResource τ)
  | unmapInputResource (resource : RegisteredResource τ)
  | lockBitstream
  | unlockBitstream
  deriving DecidableEq

structure Call (τ : Type) where
  nv12Texture : τ
  registers : Bool
  maps : Bool
  encodes : Bool
  bitstream : Option Bitstream
  deriving DecidableEq

structure NvencImpl (τ : Type) where
  registeredResource : Option (RegisteredResource τ) := none
  deriving DecidableEq

def Bitstream.packet (bitstream : Bitstream) : EncodedPacket where
  data := bitstream.bytes
  isKeyframe := bitstream.isIdr
  frameNumber := bitstream.frameIdx.toUInt16

def encodeResource (resource : RegisteredResource τ) (call : Call τ) :
    List (ApiCall τ) × Result (List EncodedPacket) :=
  if !call.maps then
    ([.mapInputResource resource], .error (systemError "nvEncMapInputResource failed"))
  else
    let submitted := [.mapInputResource resource, .encodePicture resource,
      .unmapInputResource resource]
    if !call.encodes then (submitted, .error (systemError "nvEncEncodePicture failed"))
    else
      match call.bitstream with
      | none => (submitted ++ [.lockBitstream], .ok [])
      | some bitstream =>
        (submitted ++ [.lockBitstream, .unlockBitstream], .ok [bitstream.packet])

namespace NvencImpl

/-- The encoder after a call, its calls of NVENC and what it returns. -/
def encode (encoder : NvencImpl τ) (call : Call τ) :
    NvencImpl τ × List (ApiCall τ) × Result (List EncodedPacket) :=
  match encoder.registeredResource with
  | some resource => (encoder, encodeResource resource call)
  | none =>
    let register := ApiCall.registerResource call.nv12Texture
    if !call.registers then
      (encoder, [register], .error (systemError "nvEncRegisterResource failed"))
    else
      let resource : RegisteredResource τ := ⟨call.nv12Texture⟩
      let (calls, result) := encodeResource resource call
      ({ registeredResource := some resource }, register :: calls, result)

def step (encoder : NvencImpl τ) (call : Call τ) : Option (NvencImpl τ) :=
  some (encoder.encode call).1

/-- Every picture submitted during a call is of its texture. -/
def EncodesGiven (encoder : NvencImpl τ) (call : Call τ) (_ : NvencImpl τ) : Prop :=
  ∀ input, .encodePicture input ∈ (encoder.encode call).2.1 → input.texture = call.nv12Texture

/-- A resource that a call gets mapped was registered for the texture of the call. -/
def RegisteredFor (encoder : NvencImpl τ) (call : Call τ) : Prop :=
  call.maps = true → ∀ resource ∈ encoder.registeredResource, resource.texture = call.nv12Texture

/-- Only a mapped resource is submitted. -/
theorem encodePicture_mem_iff (resource input : RegisteredResource τ) (call : Call τ) :
    .encodePicture input ∈ (encodeResource resource call).1 ↔ call.maps = true ∧ input = resource := by
  unfold encodeResource
  cases maps : call.maps with
  | false => simp
  | true =>
    cases encodes : call.encodes with
    | false => simp
    | true => cases call.bitstream <;> simp

theorem encodesGiven_iff (encoder next : NvencImpl τ) (call : Call τ) :
    EncodesGiven encoder call next ↔ RegisteredFor encoder call := by
  unfold EncodesGiven RegisteredFor encode
  cases encoder.registeredResource with
  | some resource =>
    simp only [encodePicture_mem_iff, Option.mem_some_iff, forall_eq']
    constructor
    · exact fun given maps => given resource ⟨maps, rfl⟩
    · rintro registered _ ⟨maps, rfl⟩
      exact registered maps
  | none =>
    refine iff_of_true ?_ (by simp)
    intro input submitted
    cases registers : call.registers with
    | false => simp [registers] at submitted
    | true =>
      simp only [registers, Bool.not_true, Bool.false_eq_true, if_false, List.mem_cons,
        reduceCtorEq, false_or, encodePicture_mem_iff] at submitted
      rw [submitted.2]

/-- Every picture of a run is of the texture given precisely when each call whose
resource is mapped gives the texture that was registered. -/
theorem encodes_given_iff_registered (calls : List (Call τ)) :
    EveryStep step EncodesGiven ({} : NvencImpl τ) calls ↔
      Guarded step RegisteredFor ({} : NvencImpl τ) calls :=
  EveryStep.congr_of_invariant (I := fun _ => True) (fun _ _ _ _ _ => trivial)
    (fun encoder call next _ _ => encodesGiven_iff encoder next call) trivial

/-- After a change of resolution the texture of the old one is encoded again. -/
theorem replaced_texture_not_encoded : ¬ EveryStep step EncodesGiven ({} : NvencImpl Nat)
    [⟨1, true, true, true, none⟩, ⟨2, true, true, true, none⟩] := by
  rw [EveryStep.cons_iff]
  intro every
  have second := (EveryStep.cons_iff.mp (every _ rfl).2 _ rfl).1
  have wrong := second ⟨1⟩ (by decide)
  revert wrong
  decide

end NvencImpl
end UltraDisplay.NvencEncoder
