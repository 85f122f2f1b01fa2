import UltraDisplay.Server.AdaptiveController

/-! The group of pictures is bounded: however the calls are mixed, an IDR comes
within 300 frames of the one before. The counter says how many frames are left. -/
namespace UltraDisplay.AdaptiveController
open Transition

/-- What a call returns, with the scene it was given. -/
def result (controller : AdaptiveController) : Call → Option (SceneAnalysis × EncoderConfig)
  | .evaluateFrame scene => some (scene, (controller.evaluateFrame scene).1)
  | _ => none

def results (controller : AdaptiveController) : List Call → List (SceneAnalysis × EncoderConfig)
  | [] => []
  | event :: calls => (controller.result event).toList ++ results (controller.call event) calls

/-- A session that has counted along with the controller. -/
def counting (controller : AdaptiveController) : Session where
  controller := controller
  sinceKeyframe := controller.framesSinceKeyframe.toNat

theorem construct_counted (serverCaps : EncoderCapabilities) (clientCaps : DecoderCapabilities) :
    Counted (counting (construct serverCaps clientCaps)) :=
  ⟨rfl, rfl, Nat.zero_lt_succ _⟩

variable {controller : AdaptiveController} {calls : List Call}

theorem call_counted (counted : Counted (counting controller)) (event : Call) :
    Counted (counting (controller.call event)) := by
  have stepped : step (counting controller) event = some _ := rfl
  have next := step_counted counted stepped
  exact ⟨next.size, rfl, next.frames.trans_lt next.below⟩

theorem calls_counted (counted : Counted (counting controller)) :
    Counted (counting (calls.foldl call controller)) := by
  induction calls generalizing controller with
  | nil => exact counted
  | cons event calls ih => exact ih (call_counted counted event)

/-- A call returns a configuration with an IDR, or counts the frame it returned. -/
theorem result_cases (counted : Counted (counting controller)) (event : Call) :
    (∃ result ∈ controller.result event, result.2.forceIdr = true) ∨
      (controller.call event).framesSinceKeyframe.toNat =
        controller.framesSinceKeyframe.toNat + (controller.result event).toList.length := by
  cases event with
  | init serverCaps clientCaps => exact Or.inr (congrArg _ (adaptCodec_counters _).2)
  | updateNetworkStats stats =>
    have kept := (adaptCodec_counters { controller with lastStats := stats }.adaptBitrate).2
    exact Or.inr (congrArg _ (kept.trans (adaptBitrate_counters _).2))
  | evaluateFrame scene =>
    by_cases forced : (controller.evaluateFrame scene).1.forceIdr = true
    · exact Or.inl ⟨_, rfl, forced⟩
    · refine Or.inr ?_
      have below : controller.framesSinceKeyframe.toNat < 300 := counted.below
      rw [evaluateFrame_forceIdr] at forced
      simp only [call, evaluateFrame, if_neg forced, UInt32.toNat_add, UInt32.reduceToNat, result,
        Option.toList_some, List.length_singleton]
      omega

/-- From any point of a run, the frames left in the group are enough. -/
theorem prefix_forces {window : List (SceneAnalysis × EncoderConfig)}
    (counted : Counted (counting controller)) (first : window <+: results controller calls)
    (long : 300 ≤ controller.framesSinceKeyframe.toNat + window.length) :
    ∃ result ∈ window, result.2.forceIdr = true := by
  have below : controller.framesSinceKeyframe.toNat < 300 := counted.below
  induction calls generalizing controller window with
  | nil =>
    rw [List.prefix_nil.mp first] at long
    exact absurd long (Nat.not_le.mpr below)
  | cons event calls ih =>
    have later := call_counted counted event
    have here := result_cases counted event
    simp only [results] at first
    cases returned : controller.result event with
    | none =>
      simp only [returned, Option.toList_none, List.nil_append, List.length_nil] at first here
      have kept := here.resolve_left (by simp)
      exact ih later first (by omega) later.below
    | some result =>
      simp only [returned, Option.toList_some, List.singleton_append, List.length_singleton]
        at first here
      cases window with
      | nil => exact absurd long (Nat.not_le.mpr below)
      | cons head window =>
        obtain ⟨rfl, rest⟩ := List.cons_prefix_cons.mp first
        rcases here with ⟨_, same, forced⟩ | counts
        · cases Option.some.inj same
          exact ⟨_, List.mem_cons_self, forced⟩
        · rw [List.length_cons] at long
          obtain ⟨other, member, forced⟩ := ih later rest (by omega) later.below
          exact ⟨other, List.mem_cons_of_mem _ member, forced⟩

theorem window_forces {window : List (SceneAnalysis × EncoderConfig)}
    (counted : Counted (counting controller)) (within : window <:+: results controller calls)
    (long : 300 ≤ window.length) : ∃ result ∈ window, result.2.forceIdr = true := by
  induction calls generalizing controller with
  | nil =>
    rw [List.infix_nil.mp within] at long
    contradiction
  | cons event calls ih =>
    simp only [results] at within
    cases returned : controller.result event with
    | none =>
      rw [returned] at within
      exact ih (call_counted counted event) within
    | some result =>
      rw [returned] at within
      rcases List.infix_cons_iff.mp within with first | later
      · have first : window <+: results controller (event :: calls) := by
          rw [results, returned]
          exact first
        exact prefix_forces counted first (by omega)
      · exact ih (call_counted counted event) later

theorem trigger_forces {result : SceneAnalysis × EncoderConfig}
    (member : result ∈ results controller calls) (trigger : result.1.triggerKeyframe = true) :
    result.2.forceIdr = true := by
  induction calls generalizing controller with
  | nil => cases member
  | cons event calls ih =>
    rcases List.mem_append.mp member with here | later
    · cases event with
      | init serverCaps clientCaps => cases here
      | updateNetworkStats stats => cases here
      | evaluateFrame scene =>
        cases List.mem_singleton.mp here
        exact (evaluateFrame_forceIdr controller scene).mpr (Or.inl trigger)
    · exact ih later

/-- Whatever is called, the 300 frames of a window have an IDR among them, a scene
change has one at once, and the counter is below the group size after every call. -/
theorem gop_bounded (serverCaps : EncoderCapabilities) (clientCaps : DecoderCapabilities)
    (calls : List Call) :
    let controller := construct serverCaps clientCaps
    (∀ window, window <:+: results controller calls → window.length = 300 →
      ∃ result ∈ window, result.2.forceIdr = true) ∧
    (∀ result ∈ results controller calls, result.1.triggerKeyframe = true →
      result.2.forceIdr = true) ∧
    ∀ before, before <+: calls →
      (before.foldl call controller).framesSinceKeyframe <
        (before.foldl call controller).maxGopSize := by
  intro controller
  have counted := construct_counted serverCaps clientCaps
  refine ⟨fun window within long => window_forces counted within long.ge,
    fun result member => trigger_forces member, fun before _ => ?_⟩
  have reached : Counted (counting (before.foldl call controller)) := calls_counted counted
  have size : (before.foldl call controller).maxGopSize = 300 := reached.size
  rw [size, UInt32.lt_iff_toNat_lt]
  exact reached.below

end UltraDisplay.AdaptiveController
