import UltraDisplay.Shared.Result
import UltraDisplay.Library.Transition
import UltraDisplay.Server.SceneAnalyzer

/-! `DxgiCapture` of server/capture/dxgi_capture.cpp. Every DXGI and D3D call may
answer as it likes. The device and its context are created and reset together,
so one flag says whether they are there. -/
namespace UltraDisplay.DxgiCapture
open Transition

structure TextureDesc where
  width : UInt32
  height : UInt32
  format : UInt32
  deriving DecidableEq

/-- An `IDXGIOutputDuplication`: whether a frame acquired from it has not been
released. -/
structure Duplication where
  held : Bool := false
  deriving DecidableEq

structure Capture where
  d3dDevice : Bool := false
  desktopDupl : Option Duplication := none
  stagingTexture : Option TextureDesc := none
  metadataBufferSize : Nat := 0
  width : UInt32 := 0
  height : UInt32 := 0
  format : UInt32 := 0
  deriving DecidableEq

structure CapturedFrame where
  texture : TextureDesc
  dirtyRects : List Rect := []
  width : UInt32
  height : UInt32
  format : UInt32
  hasCursorUpdate : Bool
  deriving DecidableEq

/-- An output: whether it is an `IDXGIOutput5` and the mode of its duplication,
if that can be had. -/
structure Output where
  output5 : Bool
  duplication : Option TextureDesc
  deriving DecidableEq

structure Setup where
  device : Bool
  factory : Bool
  adapters : List (List Output)
  deriving DecidableEq

inductive Failure where
  | waitTimeout
  | accessLost
  | deviceRemoved
  | deviceReset
  | invalidCall
  | other
  deriving DecidableEq

structure FrameInfo where
  lastPresentTime : Int
  lastMouseUpdateTime : Int
  totalMetadataBufferSize : Nat
  deriving DecidableEq

/-- The answer of `AcquireNextFrame`; the resource may not be a texture. -/
inductive Acquired where
  | frame (info : FrameInfo) (texture : Option TextureDesc)
  | failed (failure : Failure)
  deriving DecidableEq

def findOutput : List (List Output) → (monitorIndex : Nat) → Option Output
  | [], _ => none
  | outputs :: adapters, monitorIndex =>
    match outputs[monitorIndex]? with
    | some output => some output
    | none => findOutput adapters (monitorIndex - outputs.length)

namespace Capture

def createDevice (c : Capture) (created : Bool) : Capture × Result Unit :=
  if created then ({ c with d3dDevice := true }, .ok ())
  else ({ c with d3dDevice := false }, .error (systemError "Failed to create D3D11 device"))

def initDuplication (c : Capture) (output : Output) : Capture × Result Unit :=
  if !output.output5 then
    (c, .error (systemError "IDXGIOutput5 not supported (Windows 10+ required)"))
  else match output.duplication with
    | none =>
      ({ c with desktopDupl := none },
        .error (systemError "Failed to initialize DuplicateOutput1"))
    | some mode =>
      ({ c with
        desktopDupl := some {}
        width := mode.width
        height := mode.height
        format := mode.format }, .ok ())

def init (c : Capture) (monitorIndex : Nat) (setup : Setup) : Capture × Result Unit :=
  match c.createDevice setup.device with
  | (c, .error error) => (c, .error error)
  | (c, .ok ()) =>
    if !setup.factory then (c, .error (systemError "Failed to create DXGIFactory1"))
    else match findOutput setup.adapters monitorIndex with
      | some output => c.initDuplication output
      | none =>
        (c, .error { code := .invalidParameter, message := "Monitor index out of bounds" })

def releaseFrame (c : Capture) : Capture :=
  { c with desktopDupl := c.desktopDupl.map fun _ => { held := false } }

/-- None is a call through the null device. -/
def ensureStagingTexture (c : Capture) (srcDesc : TextureDesc) (created : Bool) :
    Option (Capture × Result Unit) :=
  if c.stagingTexture = some srcDesc then some (c, .ok ())
  else if !c.d3dDevice then none
  else if created then some ({ c with stagingTexture := some srcDesc }, .ok ())
  else
    some ({ c with stagingTexture := none },
      .error (systemError "Failed to create staging texture"))

/-- The copy into the staging texture and the frame returned; `dirtyRects` is
what `GetFrameDirtyRects` answers. -/
def captured (c : Capture) (info : FrameInfo) (texture : TextureDesc)
    (dirtyRects : Option (List Rect)) : Option (Capture × CapturedFrame) :=
  if !c.d3dDevice then none
  else
    let c := { c with metadataBufferSize := max c.metadataBufferSize info.totalMetadataBufferSize }
    let rects := if 0 < info.totalMetadataBufferSize then dirtyRects.getD [] else []
    some (c,
      { texture := texture
        dirtyRects := rects
        width := c.width
        height := c.height
        format := c.format
        hasCursorUpdate := 0 < info.lastMouseUpdateTime })

def acquireFailed (c : Capture) : Failure → Capture × Error
  | .waitTimeout => (c, { code := .timeout })
  | .accessLost =>
    ({ c with desktopDupl := none },
      systemError "Desktop access lost (resolution change or UAC)")
  | .deviceRemoved | .deviceReset | .invalidCall =>
    ({ c with desktopDupl := none, d3dDevice := false, stagingTexture := none },
      systemError "D3D11 Device Lost. Re-initialization required.")
  | .other => (c, systemError "AcquireNextFrame failed")

def acquireNextFrame (c : Capture) (acquired : Acquired) (created : Bool)
    (dirtyRects : Option (List Rect)) : Option (Capture × Result CapturedFrame) :=
  match c.desktopDupl with
  | none => some (c, .error { code := .invalidParameter, message := "Capture not initialized" })
  | some _ =>
    match acquired with
    | .failed failure =>
      let (c, error) := c.acquireFailed failure
      some (c, .error error)
    | .frame info texture =>
      let c := { c with desktopDupl := some { held := true } }
      if info.lastPresentTime = 0 then some (c.releaseFrame, .error { code := .timeout })
      else match texture with
        | none =>
          some (c.releaseFrame, .error (systemError "Failed to cast resource to Texture2D"))
        | some desc =>
          match c.ensureStagingTexture desc created with
          | none => none
          | some (c, .error error) => some (c, .error error)
          | some (c, .ok ()) =>
            (c.captured info desc dirtyRects).map fun (c, frame) => (c, .ok frame)

/-- A frame of the current duplication object is not released. -/
def holdsFrame (c : Capture) : Bool := c.desktopDupl.any fun dupl => dupl.held

end Capture

/-- `owes` records that the caller has been given a frame and has not yet called
`release_frame` for it. -/
structure State where
  capture : Capture := {}
  owes : Bool := false
  deriving DecidableEq

inductive Event where
  | init (monitorIndex : Nat) (setup : Setup)
  | acquireNextFrame (acquired : Acquired) (created : Bool) (dirtyRects : Option (List Rect))
  | releaseFrame
  deriving DecidableEq

/-- The caller releases each frame once, before it asks for the next. -/
def step (s : State) : Event → Option State
  | .init monitorIndex setup => some { s with capture := (s.capture.init monitorIndex setup).1 }
  | .acquireNextFrame acquired created dirtyRects =>
    if s.owes then none
    else (s.capture.acquireNextFrame acquired created dirtyRects).map fun (c, result) =>
      { capture := c, owes := result.isOk }
  | .releaseFrame =>
    if s.owes then some { capture := s.capture.releaseFrame, owes := false } else none

/-- No frame is held when the next one is acquired, nor after an error. -/
def Released (s : State) (e : Event) (t : State) : Prop :=
  match e with
  | .acquireNextFrame _ _ _ =>
    s.capture.holdsFrame = false ∧ (t.owes = false → t.capture.holdsFrame = false)
  | .init _ _ | .releaseFrame => True

/-- An updated frame finds a staging texture of its size and format, or one can
be created. -/
def Staged (s : State) (e : Event) : Prop :=
  match e with
  | .acquireNextFrame (.frame info (some desc)) created _ =>
    s.capture.desktopDupl.isSome = true → info.lastPresentTime ≠ 0 →
      s.capture.stagingTexture = some desc ∨ created = true
  | _ => True

variable {s t : State} {c after : Capture}

@[simp] theorem releaseFrame_holdsFrame (c : Capture) : c.releaseFrame.holdsFrame = false := by
  cases dupl : c.desktopDupl <;> simp [Capture.releaseFrame, Capture.holdsFrame, dupl]

theorem init_holdsFrame (free : c.holdsFrame = false) (monitorIndex : Nat) (setup : Setup) :
    (c.init monitorIndex setup).1.holdsFrame = false := by
  have duplicated (c : Capture) (output : Output) (free : c.holdsFrame = false) :
      (c.initDuplication output).1.holdsFrame = false := by
    unfold Capture.initDuplication
    split
    · exact free
    · split <;> rfl
  unfold Capture.init Capture.createDevice
  cases setup.device with
  | false => exact free
  | true =>
    simp only [if_true]
    split
    · exact free
    · split
      · exact duplicated _ _ free
      · exact free

theorem acquireFailed_holdsFrame (free : c.holdsFrame = false) (failure : Failure) :
    (c.acquireFailed failure).1.holdsFrame = false := by
  cases failure <;> first | exact free | rfl

theorem ensureStagingTexture_dupl {desc : TextureDesc}
    (ensured : c.ensureStagingTexture desc created = some (after, result)) :
    after.desktopDupl = c.desktopDupl ∧
      (result = .ok () ↔ c.stagingTexture = some desc ∨ created = true) := by
  unfold Capture.ensureStagingTexture at ensured
  split at ensured
  case isTrue reusable =>
    cases ensured
    simp [reusable]
  case isFalse other =>
    split at ensured
    · contradiction
    · split at ensured
      case isTrue made =>
        cases ensured
        simp [made]
      case isFalse failed =>
        cases ensured
        simp [other, failed]

/-- The texture of an updated frame is copied, or the call returns with the frame
held because there is no staging texture. -/
theorem acquireNextFrame_texture (ready : c.desktopDupl = some held)
    (updated : info.lastPresentTime ≠ 0)
    (answered : c.acquireNextFrame (.frame info (some desc)) created dirtyRects =
      some (after, result)) :
    (result.isOk = false → after.holdsFrame = false) ↔
      c.stagingTexture = some desc ∨ created = true := by
  unfold Capture.acquireNextFrame at answered
  simp only [ready, if_neg updated] at answered
  split at answered
  · contradiction
  · rename_i ensured
    obtain ⟨kept, succeeds⟩ := ensureStagingTexture_dupl ensured
    simp only [Option.some.injEq, Prod.mk.injEq] at answered
    obtain ⟨rfl, rfl⟩ := answered
    apply iff_of_false
    · intro released
      have free := released rfl
      simp [Capture.holdsFrame, kept] at free
    · intro staged
      have made := succeeds.mpr staged
      contradiction
  · rename_i ensured
    obtain ⟨_, succeeds⟩ := ensureStagingTexture_dupl ensured
    obtain ⟨⟨c, frame⟩, _, answered⟩ := Option.map_eq_some_iff.mp answered
    simp only [Prod.mk.injEq] at answered
    obtain ⟨rfl, rfl⟩ := answered
    exact iff_of_true (fun failed => absurd failed (by simp [Except.isOk, Except.toBool]))
      (succeeds.mp rfl)

/-- An error leaves no frame held, unless the staging texture was the error. -/
theorem acquireNextFrame_leaves (free : s.capture.holdsFrame = false)
    (answered : s.capture.acquireNextFrame acquired created dirtyRects = some (after, result)) :
    (result.isOk = false → after.holdsFrame = false) ↔
      Staged s (.acquireNextFrame acquired created dirtyRects) := by
  cases ready : s.capture.desktopDupl with
  | none =>
    simp only [Capture.acquireNextFrame, ready, Option.some.injEq, Prod.mk.injEq] at answered
    obtain ⟨rfl, _⟩ := answered
    refine iff_of_true (fun _ => free) ?_
    unfold Staged
    split <;> simp_all
  | some held =>
    cases acquired with
    | failed failure =>
      simp only [Capture.acquireNextFrame, ready, Option.some.injEq, Prod.mk.injEq] at answered
      obtain ⟨rfl, _⟩ := answered
      exact iff_of_true (fun _ => acquireFailed_holdsFrame free failure) trivial
    | frame info texture =>
      by_cases stale : info.lastPresentTime = 0
      · simp only [Capture.acquireNextFrame, ready, if_pos stale, Option.some.injEq,
          Prod.mk.injEq] at answered
        obtain ⟨rfl, _⟩ := answered
        refine iff_of_true (fun _ => releaseFrame_holdsFrame _) ?_
        cases texture with
        | none => trivial
        | some desc => exact fun _ updated => absurd stale updated
      · cases texture with
        | none =>
          simp only [Capture.acquireNextFrame, ready, if_neg stale, Option.some.injEq,
            Prod.mk.injEq] at answered
          obtain ⟨rfl, _⟩ := answered
          exact iff_of_true (fun _ => releaseFrame_holdsFrame _) trivial
        | some desc =>
          rw [acquireNextFrame_texture ready stale answered]
          simp [Staged, ready, stale]

def Inv (s : State) : Prop := s.owes = false → s.capture.holdsFrame = false

theorem step_inv (s : State) (e : Event) (t : State) (inv : Inv s) (staged : Staged s e)
    (stepped : step s e = some t) : Inv t := by
  cases e with
  | init monitorIndex setup =>
    cases Option.some.inj stepped
    intro free
    exact init_holdsFrame (inv free) monitorIndex setup
  | acquireNextFrame acquired created dirtyRects =>
    simp only [step] at stepped
    split at stepped
    case isTrue => contradiction
    case isFalse free =>
      obtain ⟨⟨after, result⟩, answered, rfl⟩ := Option.map_eq_some_iff.mp stepped
      exact (acquireNextFrame_leaves (inv (by simpa using free)) answered).mpr staged
  | releaseFrame =>
    simp only [step] at stepped
    split at stepped
    · cases Option.some.inj stepped
      exact fun _ => releaseFrame_holdsFrame _
    · contradiction

theorem released_iff_staged (s : State) (e : Event) (t : State) (inv : Inv s)
    (stepped : step s e = some t) : Released s e t ↔ Staged s e := by
  cases e with
  | init | releaseFrame => exact Iff.rfl
  | acquireNextFrame acquired created dirtyRects =>
    simp only [step] at stepped
    split at stepped
    case isTrue => contradiction
    case isFalse free =>
      have free := inv (by simpa using free)
      obtain ⟨⟨after, result⟩, answered, rfl⟩ := Option.map_eq_some_iff.mp stepped
      simp only [Released, free, true_and]
      exact acquireNextFrame_leaves free answered

/-- On every run of the caller's protocol no frame is held at any acquisition or
after any error, exactly when the staging texture is there whenever it is needed. -/
theorem released_run_iff (es : List Event) :
    EveryStep step Released {} es ↔ Guarded step Staged {} es :=
  EveryStep.congr_of_kept step_inv released_iff_staged (fun _ => rfl)

def fullHd : TextureDesc := { width := 1920, height := 1080, format := 87 }

def oneMonitor : Setup :=
  { device := true
    factory := true
    adapters := [[{ output5 := true, duplication := some fullHd }]] }

def updated : FrameInfo :=
  { lastPresentTime := 1, lastMouseUpdateTime := 0, totalMetadataBufferSize := 0 }

/-- The staging texture cannot be created: the call returns an error, the caller
has nothing to release, and the next frame is acquired while this one is held. -/
theorem held_frame_acquired_over :
    let acquire := Event.acquireNextFrame (.frame updated (some fullHd)) false none
    ∃ s t, run step {} [.init 0 oneMonitor, acquire] = some s ∧ s.owes = false ∧
      step s acquire = some t ∧ s.capture.holdsFrame = true ∧ ¬ Released s acquire t := by
  refine ⟨_, _, rfl, rfl, rfl, rfl, ?_⟩
  intro released
  exact absurd released.1 (by decide)

end UltraDisplay.DxgiCapture
