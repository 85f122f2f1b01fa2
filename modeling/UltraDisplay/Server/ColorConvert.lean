import UltraDisplay.Shared.Result
import UltraDisplay.Library.Transition

/-! `D3D11ColorConverter` of server/encoder/d3d11_color_convert.cpp. A D3D object
is what it was created for. Passing the address of a `ComPtr` releases what it
held, so a failed creation of a member leaves null there. -/
namespace UltraDisplay.D3D11ColorConverter
open Transition

inductive Format where
  | nv12
  | p010
  deriving DecidableEq

structure Size where
  width : UInt32
  height : UInt32
  deriving DecidableEq

structure Texture where
  size : Size
  format : Format
  deriving DecidableEq

structure VideoProcessorEnumerator where
  size : Size
  deriving DecidableEq

structure VideoProcessor where
  enumerator : VideoProcessorEnumerator
  deriving DecidableEq

structure OutputView where
  texture : Texture
  deriving DecidableEq

structure Creations where
  texture : Bool
  enumerator : Bool
  processor : Bool
  outputView : Bool
  deriving DecidableEq

def Creations.all (created : Creations) : Bool :=
  created.texture && created.enumerator && created.processor && created.outputView

structure Converter where
  videoProcessor : Option VideoProcessor := none
  videoEnum : Option VideoProcessorEnumerator := none
  nv12Texture : Option Texture := none
  nv12OutputView : Option OutputView := none
  p010Texture : Option Texture := none
  p010OutputView : Option OutputView := none
  currentWidth : UInt32 := 0
  currentHeight : UInt32 := 0
  deriving DecidableEq

structure Call where
  width : UInt32
  height : UInt32
  isHdr : Bool
  created : Creations
  deriving DecidableEq

def Call.size (call : Call) : Size := ⟨call.width, call.height⟩

def Call.format (call : Call) : Format := if call.isHdr then .p010 else .nv12

namespace Converter

/-- The test at the top of `ensure_output_texture`. -/
def Reuses (c : Converter) (call : Call) : Prop :=
  c.currentWidth = call.width ∧ c.currentHeight = call.height ∧
    ((call.isHdr = true ∧ c.p010Texture.isSome = true) ∨
      (call.isHdr = false ∧ c.nv12Texture.isSome = true))

instance (c : Converter) (call : Call) : Decidable (c.Reuses call) := by
  unfold Reuses
  infer_instance

def ensureOutputTexture (c : Converter) (call : Call) : Converter × Result Unit :=
  if c.Reuses call then (c, .ok ())
  else
    let c := { c with currentWidth := call.width, currentHeight := call.height }
    if !call.created.texture then
      (c, .error (systemError "Failed to create D3D11Texture2D for video processor output"))
    else
      let tex : Texture := { size := call.size, format := call.format }
      if !call.created.enumerator then
        ({ c with videoEnum := none },
          .error (systemError "Failed to create ID3D11VideoProcessorEnumerator"))
      else
        let videoEnum : VideoProcessorEnumerator := { size := call.size }
        let c := { c with videoEnum := some videoEnum }
        if !call.created.processor then
          ({ c with videoProcessor := none },
            .error (systemError "Failed to create ID3D11VideoProcessor"))
        else
          let c := { c with videoProcessor := some { enumerator := videoEnum } }
          if !call.created.outputView then
            (c, .error (systemError "Failed to create ID3D11VideoProcessorOutputView"))
          else
            let ov : OutputView := { texture := tex }
            if call.isHdr then
              ({ c with p010Texture := some tex, p010OutputView := some ov }, .ok ())
            else ({ c with nv12Texture := some tex, nv12OutputView := some ov }, .ok ())

def texture (c : Converter) : Format → Option Texture
  | .nv12 => c.nv12Texture
  | .p010 => c.p010Texture

def outputView (c : Converter) : Format → Option OutputView
  | .nv12 => c.nv12OutputView
  | .p010 => c.p010OutputView

/-- The texture `convert` returns after its blit into the output view. -/
def convert (c : Converter) (call : Call) (inputView blit : Bool) :
    Converter × Result (Option Texture) :=
  match c.ensureOutputTexture call with
  | (c, .error error) => (c, .error error)
  | (c, .ok ()) =>
    if !inputView then
      (c, .error (systemError "Failed to create ID3D11VideoProcessorInputView"))
    else if !blit then
      (c, .error (systemError "VideoProcessorBlt failed during color conversion"))
    else (c, .ok (c.texture call.format))

end Converter

/-- The output texture and view, the enumerator and the processor are there and
were all made for this size. -/
structure MadeFor (c : Converter) (size : Size) (format : Format) : Prop where
  texture : c.texture format = some { size := size, format := format }
  outputView : c.outputView format = some { texture := { size := size, format := format } }
  enumerator : c.videoEnum = some { size := size }
  processor : c.videoProcessor = some { enumerator := { size := size } }

/-- `attempts` records the calls that did not return at once, newest first. -/
structure State where
  converter : Converter := {}
  attempts : List Call := []

def State.step (s : State) (call : Call) : Option State :=
  some
    { converter := (s.converter.ensureOutputTexture call).1
      attempts := if s.converter.Reuses call then s.attempts else call :: s.attempts }

/-- The last attempt that stored a texture of the format. -/
def State.stored (s : State) (format : Format) : Option Call :=
  s.attempts.find? fun call => call.format = format && call.created.all

/-- The last attempt that tried to create an enumerator. -/
def State.enumerating (s : State) : Option Call :=
  s.attempts.find? fun call => call.created.texture

/-- A call that succeeds finds everything made for it. -/
def Coherent (s : State) (call : Call) (t : State) : Prop :=
  (s.converter.ensureOutputTexture call).2 = .ok () →
    MadeFor t.converter call.size call.format

/-- A call that returns at once asks for the size that the texture of its format
was stored with, and the last attempt to create an enumerator was for that size
too and made both the enumerator and the processor. -/
def Repeats (s : State) (call : Call) : Prop :=
  s.converter.Reuses call →
    (∃ last ∈ s.stored call.format, last.size = call.size) ∧
    ∃ last ∈ s.enumerating, last.size = call.size ∧
      last.created.enumerator = true ∧ last.created.processor = true

/-- The attempts account for every object held. Of the processor they say
nothing while the enumerator it was to come from is missing. -/
structure Inv (s : State) : Prop where
  texture : ∀ format, s.converter.texture format =
    (s.stored format).map fun call => { size := call.size, format := format }
  outputView : ∀ format, s.converter.outputView format =
    (s.stored format).map fun call => { texture := { size := call.size, format := format } }
  enumerator : s.converter.videoEnum = s.enumerating.bind fun call =>
    if call.created.enumerator then some { size := call.size } else none
  processor : ∀ call ∈ s.enumerating, call.created.enumerator = true →
    s.converter.videoProcessor =
      if call.created.processor then some { enumerator := { size := call.size } } else none

variable {s t : State} {call : Call}

theorem reused (reuses : s.converter.Reuses call) (stepped : s.step call = some t) : t = s := by
  cases Option.some.inj stepped
  simp only [Converter.ensureOutputTexture, if_pos reuses]

theorem attempt_stored (missed : ¬ s.converter.Reuses call) (stepped : s.step call = some t)
    (format : Format) : t.stored format =
      if call.format = format ∧ call.created.all = true then some call else s.stored format := by
  cases Option.some.inj stepped
  simp only [State.stored, if_neg missed, List.find?_cons]
  by_cases this : call.format = format ∧ call.created.all = true
  · simp [this]
  · rw [if_neg this]
    split
    · simp_all
    · rfl

theorem attempt_enumerating (missed : ¬ s.converter.Reuses call) (stepped : s.step call = some t) :
    t.enumerating = if call.created.texture then some call else s.enumerating := by
  cases Option.some.inj stepped
  simp only [State.enumerating, if_neg missed, List.find?_cons]
  cases call.created.texture <;> rfl

theorem attempt_spec (missed : ¬ s.converter.Reuses call) (stepped : s.step call = some t) :
    (∀ format, t.converter.texture format =
      if call.format = format ∧ call.created.all = true then
        some { size := call.size, format := format } else s.converter.texture format) ∧
    (∀ format, t.converter.outputView format =
      if call.format = format ∧ call.created.all = true then
        some { texture := { size := call.size, format := format } }
      else s.converter.outputView format) ∧
    (t.converter.videoEnum =
      if call.created.texture then
        if call.created.enumerator then some { size := call.size } else none
      else s.converter.videoEnum) ∧
    (t.converter.videoProcessor =
      if call.created.texture && call.created.enumerator then
        if call.created.processor then some { enumerator := { size := call.size } } else none
      else s.converter.videoProcessor) ∧
    ((s.converter.ensureOutputTexture call).2 = .ok () ↔ call.created.all = true) := by
  cases Option.some.inj stepped
  obtain ⟨width, height, isHdr, texture, enumerator, processor, outputView⟩ := call
  simp only [Converter.ensureOutputTexture, if_neg missed]
  refine ⟨?_, ?_, ?_, ?_, ?_⟩
  · intro format
    cases texture <;> cases enumerator <;> cases processor <;> cases outputView <;>
      cases isHdr <;> cases format <;> rfl
  · intro format
    cases texture <;> cases enumerator <;> cases processor <;> cases outputView <;>
      cases isHdr <;> cases format <;> rfl
  · cases texture <;> cases enumerator <;> cases processor <;> cases outputView <;>
      cases isHdr <;> rfl
  · cases texture <;> cases enumerator <;> cases processor <;> cases outputView <;>
      cases isHdr <;> rfl
  · cases texture <;> cases enumerator <;> cases processor <;> cases outputView <;>
      cases isHdr <;> simp [Creations.all]

theorem start_inv : Inv {} := by
  constructor
  case texture =>
    intro format
    cases format <;> rfl
  case outputView =>
    intro format
    cases format <;> rfl
  case enumerator => rfl
  case processor =>
    intro call last
    contradiction

theorem step_inv (inv : Inv s) (stepped : s.step call = some t) : Inv t := by
  by_cases reuses : s.converter.Reuses call
  · rw [reused reuses stepped]
    exact inv
  · obtain ⟨texture, outputView, enumerator, processor, _⟩ := attempt_spec reuses stepped
    have stored := attempt_stored reuses stepped
    have enumerating := attempt_enumerating reuses stepped
    constructor
    case texture =>
      intro format
      rw [texture, stored, inv.texture]
      split <;> rfl
    case outputView =>
      intro format
      rw [outputView, stored, inv.outputView]
      split <;> rfl
    case enumerator =>
      rw [enumerator, enumerating, inv.enumerator]
      split <;> rfl
    case processor =>
      intro last member made
      rw [enumerating] at member
      rw [processor]
      cases reached : call.created.texture with
      | true =>
        rw [reached, if_pos rfl] at member
        cases Option.some.inj member
        simp [made]
      | false =>
        rw [reached] at member
        simpa using inv.processor last member made

/-- What a call that returns at once finds is what the attempts before it made. -/
theorem madeFor_iff (inv : Inv s) (size : Size) (format : Format) :
    MadeFor s.converter size format ↔
      (∃ last ∈ s.stored format, last.size = size) ∧
      ∃ last ∈ s.enumerating, last.size = size ∧
        last.created.enumerator = true ∧ last.created.processor = true := by
  constructor
  · rintro ⟨texture, _, enumerator, processor⟩
    rw [inv.texture] at texture
    rw [inv.enumerator] at enumerator
    obtain ⟨last, stored, same⟩ := Option.map_eq_some_iff.mp texture
    obtain ⟨latest, enumerating, made⟩ := Option.bind_eq_some_iff.mp enumerator
    refine ⟨⟨last, stored, ?_⟩, latest, enumerating, ?_⟩
    · simpa using same
    · split at made
      case isTrue enumerated =>
        have kept := inv.processor latest enumerating enumerated
        rw [processor] at kept
        refine ⟨by simpa using made, enumerated, ?_⟩
        by_contra failed
        simp [failed] at kept
      case isFalse => contradiction
  · rintro ⟨⟨last, stored, same⟩, latest, enumerating, sized, enumerated, made⟩
    have stored : s.stored format = some last := stored
    have latest_eq : s.enumerating = some latest := enumerating
    constructor
    case texture => rw [inv.texture, stored, Option.map_some, same]
    case outputView => rw [inv.outputView, stored, Option.map_some, same]
    case enumerator => rw [inv.enumerator, latest_eq, Option.bind_some, if_pos enumerated, sized]
    case processor => rw [inv.processor latest enumerating enumerated, if_pos made, sized]

theorem attempt_madeFor (missed : ¬ s.converter.Reuses call) (stepped : s.step call = some t)
    (completed : call.created.all = true) : MadeFor t.converter call.size call.format := by
  obtain ⟨texture, outputView, enumerator, processor, _⟩ := attempt_spec missed stepped
  simp only [Creations.all, Bool.and_eq_true] at completed
  obtain ⟨⟨⟨made, enumerated⟩, processed⟩, viewed⟩ := completed
  constructor
  case texture => simp [texture, Creations.all, made, enumerated, processed, viewed]
  case outputView => simp [outputView, Creations.all, made, enumerated, processed, viewed]
  case enumerator => simp [enumerator, made, enumerated]
  case processor => simp [processor, made, enumerated, processed]

theorem coherent_iff_repeats (inv : Inv s) (stepped : s.step call = some t) :
    Coherent s call t ↔ Repeats s call := by
  by_cases reuses : s.converter.Reuses call
  · have succeeds : (s.converter.ensureOutputTexture call).2 = .ok () := by
      simp only [Converter.ensureOutputTexture, if_pos reuses]
    rw [reused reuses stepped]
    simp only [Coherent, Repeats, succeeds, reuses, forall_const]
    exact madeFor_iff inv call.size call.format
  · obtain ⟨_, _, _, _, succeeds⟩ := attempt_spec reuses stepped
    have repeats : Repeats s call := fun found => absurd found reuses
    simp only [repeats, iff_true]
    intro succeeded
    exact attempt_madeFor reuses stepped (succeeds.mp succeeded)

/-- Every successful call of a run finds its textures and processor coherent
exactly when each call that returns at once repeats what was made last. -/
theorem coherent_run_iff (calls : List Call) :
    EveryStep State.step Coherent {} calls ↔ Guarded State.step Repeats {} calls :=
  EveryStep.congr_of_invariant (fun _ _ _ inv stepped => step_inv inv stepped)
    (fun _ _ _ inv stepped => coherent_iff_repeats inv stepped) start_inv

/-- A successful `convert` returns what `ensure_output_texture` left. -/
theorem convert_texture {c after : Converter} {texture : Option Texture}
    (converted : c.convert call inputView blit = (after, .ok texture)) :
    (c.ensureOutputTexture call) = (after, .ok ()) ∧ texture = after.texture call.format := by
  unfold Converter.convert at converted
  split at converted
  · cases converted
  · rename_i ensured
    split at converted
    · cases converted
    · split at converted
      · cases converted
      · cases converted
        exact ⟨ensured, rfl⟩

def allMade : Creations := ⟨true, true, true, true⟩

/-- SDR at 1920 x 1080, HDR at 1280 x 720 and SDR at 1280 x 720: the last call
returns the texture of the first. -/
theorem stale_texture_reused :
    let calls := [⟨1920, 1080, false, allMade⟩, ⟨1280, 720, true, allMade⟩]
    let call : Call := ⟨1280, 720, false, allMade⟩
    ∃ s t, run State.step {} calls = some s ∧ s.step call = some t ∧
      (s.converter.ensureOutputTexture call).2 = .ok () ∧
      t.converter.nv12Texture = some ⟨⟨1920, 1080⟩, .nv12⟩ ∧ ¬ Coherent s call t := by
  refine ⟨_, _, rfl, rfl, rfl, rfl, ?_⟩
  intro coherent
  have texture := (coherent rfl).texture
  exact absurd texture (by decide)

end UltraDisplay.D3D11ColorConverter
