import UltraDisplay.Library.Transition
import UltraDisplay.Shared.Protocol
import UltraDisplay.Server.SceneAnalyzer

/-! The encoder settings of server/encoder/adaptive_controller.cpp. `init` and
`update_network_stats` choose the codec, `evaluate_frame` hands out the
configuration of one frame. -/
namespace UltraDisplay
open Transition

structure EncoderConfig where
  codec : VideoCodec := .auto
  bitrateBps : UInt32 := 0
  framerate : UInt32 := 0
  forceIdr : Bool := false
  enableLossless : Bool := false
  roiQpDelta : UInt32 := 0
  deriving DecidableEq

structure AdaptiveController where
  serverCaps : EncoderCapabilities
  clientCaps : DecoderCapabilities
  lastStats : TransportStats := {}
  currentConfig : EncoderConfig := {}
  framesSinceKeyframe : UInt32 := 0
  maxGopSize : UInt32 := 300
  deriving DecidableEq

namespace AdaptiveController

/-- The capabilities of a new controller are indeterminate. -/
def construct (serverCaps : EncoderCapabilities) (clientCaps : DecoderCapabilities) :
    AdaptiveController :=
  { serverCaps, clientCaps }

/-- 80% of the estimate, with 0.8f read as 4/5 and the narrowing as a truncation
modulo 2^32, then clamped. -/
def targetBps (bandwidthEstBps : UInt64) : UInt32 :=
  let target := UInt32.ofNat (bandwidthEstBps.toNat * 4 / 5)
  if target < 1000000 then 1000000 else if 150000000 < target then 150000000 else target

def adaptBitrate (controller : AdaptiveController) : AdaptiveController :=
  if 0 < controller.lastStats.bandwidthEstBps then
    let target := targetBps controller.lastStats.bandwidthEstBps
    let current := controller.currentConfig.bitrateBps
    if 1000000 < (target.toInt32.toInt - current.toInt32.toInt).natAbs then
      { controller with currentConfig := { controller.currentConfig with bitrateBps := target } }
    else controller
  else controller

def commonMask (controller : AdaptiveController) : UInt32 :=
  controller.serverCaps.supportedCodecsMask &&& controller.clientCaps.supportedCodecsMask

def nextCodec (commonMask : UInt32) : VideoCodec :=
  if commonMask &&& (1 <<< VideoCodec.av1.toUInt32) ≠ 0 then .av1
  else if commonMask &&& (1 <<< VideoCodec.hevc.toUInt32) ≠ 0 then .hevc
  else .h264

def adaptCodec (controller : AdaptiveController) : AdaptiveController :=
  let config := controller.currentConfig
  if 2000000000 < controller.lastStats.bandwidthEstBps ∧
      controller.serverCaps.supportsLossless ∧ controller.clientCaps.supportsLossless then
    if config.enableLossless then controller
    else { controller with currentConfig := { config with enableLossless := true } }
  else
    let config := { config with enableLossless := false }
    let next := nextCodec controller.commonMask
    if config.codec ≠ next then
      { controller with currentConfig := { config with codec := next, forceIdr := true } }
    else { controller with currentConfig := config }

def init (controller : AdaptiveController) (serverCaps : EncoderCapabilities)
    (clientCaps : DecoderCapabilities) : AdaptiveController :=
  adaptCodec
    { controller with
      serverCaps, clientCaps
      currentConfig :=
        { codec := .h264
          bitrateBps := 5000000
          framerate := 60
          forceIdr := true
          enableLossless := false
          roiQpDelta := 15 } }

def updateNetworkStats (controller : AdaptiveController) (stats : TransportStats) :
    AdaptiveController :=
  { controller with lastStats := stats }.adaptBitrate.adaptCodec

def evaluateFrame (controller : AdaptiveController) (scene : SceneAnalysis) :
    EncoderConfig × AdaptiveController :=
  let frames := controller.framesSinceKeyframe + 1
  let due := scene.triggerKeyframe ∨ controller.maxGopSize ≤ frames
  let config :=
    { controller.currentConfig with
      forceIdr := due
      roiQpDelta := if scene.isIdle then 51 else 20 }
  (config,
    { controller with
      currentConfig := config
      framesSinceKeyframe := if due then 0 else frames })

def currentCodec (controller : AdaptiveController) : VideoCodec :=
  controller.currentConfig.codec

inductive Call where
  | init (serverCaps : EncoderCapabilities) (clientCaps : DecoderCapabilities)
  | updateNetworkStats (stats : TransportStats)
  | evaluateFrame (scene : SceneAnalysis)

def call (controller : AdaptiveController) : Call → AdaptiveController
  | .init serverCaps clientCaps => controller.init serverCaps clientCaps
  | .updateNetworkStats stats => controller.updateNetworkStats stats
  | .evaluateFrame scene => (controller.evaluateFrame scene).2

/-- A controller with its stream: `owed` while no configuration has been handed
out since the last `init` or codec change, so that a decoder could not start.
`sinceKeyframe` counts, from the scenes alone, the frames since a scene change or
a full group of 300. -/
structure Session where
  controller : AdaptiveController
  owed : Bool := false
  sinceKeyframe : Nat := 0

def step (session : Session) (event : Call) : Option Session :=
  let controller := session.controller.call event
  let changed := controller.currentCodec ≠ session.controller.currentCodec
  some
    { controller
      owed := match event with
        | .init _ _ => true
        | .updateNetworkStats _ => session.owed || changed
        | .evaluateFrame _ => changed
      sinceKeyframe := match event with
        | .evaluateFrame scene =>
          if scene.triggerKeyframe ∨ session.sinceKeyframe + 1 = 300 then 0
          else session.sinceKeyframe + 1
        | _ => session.sinceKeyframe }

/-- The first configuration after an `init` or a codec change forces an IDR. -/
def Decodable (session : Session) (event : Call) (_ : Session) : Prop :=
  ∀ scene, event = .evaluateFrame scene → session.owed = true →
    (session.controller.evaluateFrame scene).1.forceIdr = true

/-- A keyframe happens to fall due: the scene changes or the frame ends a group. -/
def DueAnyway (session : Session) (event : Call) : Prop :=
  ∀ scene, event = .evaluateFrame scene → session.owed = true →
    scene.triggerKeyframe = true ∨ session.sinceKeyframe + 1 = 300

/-- The GOP counter follows the scenes and stays below the group size. -/
structure Counted (session : Session) : Prop where
  size : session.controller.maxGopSize = 300
  frames : session.controller.framesSinceKeyframe.toNat = session.sinceKeyframe
  below : session.sinceKeyframe < 300

theorem evaluateFrame_forceIdr (controller : AdaptiveController) (scene : SceneAnalysis) :
    (controller.evaluateFrame scene).1.forceIdr = true ↔
      scene.triggerKeyframe = true ∨ controller.maxGopSize ≤ controller.framesSinceKeyframe + 1 := by
  simp [evaluateFrame]

theorem adaptCodec_forceIdr (controller : AdaptiveController)
    (asked : controller.currentConfig.forceIdr = true ∨
      controller.adaptCodec.currentCodec ≠ controller.currentCodec) :
    controller.adaptCodec.currentConfig.forceIdr = true := by
  revert asked
  simp only [adaptCodec, currentCodec]
  split
  · split <;> simp
  · split
    · simp
    · simp

theorem adaptBitrate_keeps (controller : AdaptiveController) :
    controller.adaptBitrate.currentCodec = controller.currentCodec ∧
    controller.adaptBitrate.currentConfig.forceIdr = controller.currentConfig.forceIdr := by
  simp only [adaptBitrate, currentCodec]
  split
  · split <;> exact ⟨rfl, rfl⟩
  · exact ⟨rfl, rfl⟩

def Requested (session : Session) : Prop :=
  session.owed = true → session.controller.currentConfig.forceIdr = true

theorem step_requested (requested : Requested session) (stepped : step session event = some next) :
    Requested next := by
  cases Option.some.inj stepped
  cases event with
  | init serverCaps clientCaps =>
    intro _
    exact adaptCodec_forceIdr _ (Or.inl rfl)
  | updateNetworkStats stats =>
    intro owed
    obtain ⟨codec, force⟩ := adaptBitrate_keeps { session.controller with lastStats := stats }
    apply adaptCodec_forceIdr
    rw [force, codec]
    simp only [Bool.or_eq_true, decide_eq_true_eq] at owed
    exact owed.imp requested id
  | evaluateFrame scene =>
    intro owed
    simp [call, evaluateFrame, currentCodec] at owed

/-- Until `evaluate_frame` runs, a stream that needs an IDR has one requested. -/
theorem run_requested {serverCaps : EncoderCapabilities} {clientCaps : DecoderCapabilities}
    (reached : run step { controller := construct serverCaps clientCaps } calls = some session) :
    Requested session := by
  refine run_invariant (fun _ _ _ => step_requested) ?_ reached
  intro owed
  contradiction

theorem adaptCodec_counters (controller : AdaptiveController) :
    controller.adaptCodec.maxGopSize = controller.maxGopSize ∧
    controller.adaptCodec.framesSinceKeyframe = controller.framesSinceKeyframe := by
  simp only [adaptCodec]
  split
  · split <;> exact ⟨rfl, rfl⟩
  · split <;> exact ⟨rfl, rfl⟩

theorem adaptBitrate_counters (controller : AdaptiveController) :
    controller.adaptBitrate.maxGopSize = controller.maxGopSize ∧
    controller.adaptBitrate.framesSinceKeyframe = controller.framesSinceKeyframe := by
  simp only [adaptBitrate]
  split
  · split <;> exact ⟨rfl, rfl⟩
  · exact ⟨rfl, rfl⟩

theorem Counted.due_iff {session : Session} (counted : Counted session) :
    session.controller.maxGopSize ≤ session.controller.framesSinceKeyframe + 1 ↔
      session.sinceKeyframe + 1 = 300 := by
  have frames := counted.frames
  have below := counted.below
  rw [counted.size, UInt32.le_iff_toNat_le, UInt32.toNat_add, frames]
  simp only [UInt32.reduceToNat]
  omega

theorem step_counted {session next : Session} (counted : Counted session)
    (stepped : step session event = some next) : Counted next := by
  cases Option.some.inj stepped
  cases event with
  | init serverCaps clientCaps =>
    obtain ⟨size, frames⟩ := adaptCodec_counters _
    exact ⟨size.trans counted.size, (congrArg _ frames).trans counted.frames, counted.below⟩
  | updateNetworkStats stats =>
    obtain ⟨size, frames⟩ := adaptCodec_counters _
    obtain ⟨size', frames'⟩ := adaptBitrate_counters { session.controller with lastStats := stats }
    exact ⟨(size.trans size').trans counted.size,
      (congrArg _ (frames.trans frames')).trans counted.frames, counted.below⟩
  | evaluateFrame scene =>
    have due := counted.due_iff
    have below := counted.below
    refine ⟨counted.size, ?_, ?_⟩
    · simp only [call, evaluateFrame, due]
      split
      · rfl
      · rw [UInt32.toNat_add, counted.frames]
        simp only [UInt32.reduceToNat]
        omega
    · simp only
      split
      · decide
      · omega

/-- `evaluate_frame` drops the request, so a stream can start only where a
keyframe falls due for another reason. -/
theorem decodable_iff_due (serverCaps serverCaps' : EncoderCapabilities)
    (clientCaps clientCaps' : DecoderCapabilities) (calls : List Call) :
    EveryStep step Decodable { controller := construct serverCaps' clientCaps' }
        (.init serverCaps clientCaps :: calls) ↔
      Guarded step DueAnyway { controller := construct serverCaps' clientCaps' }
        (.init serverCaps clientCaps :: calls) := by
  refine EveryStep.congr_of_invariant (I := Counted) (fun _ _ _ => step_counted) ?_
    ⟨rfl, rfl, Nat.zero_lt_succ _⟩
  intro session event next counted _
  refine forall_congr' fun scene => imp_congr_right fun _ => imp_congr_right fun _ => ?_
  rw [evaluateFrame_forceIdr, counted.due_iff]

/-- A new client's first frame, on a screen where little changes, is no keyframe. -/
theorem first_config_without_idr :
    let serverCaps : EncoderCapabilities := ⟨0b1110, false⟩
    let clientCaps : DecoderCapabilities := ⟨0b0010, false⟩
    ¬ EveryStep step Decodable { controller := construct serverCaps clientCaps }
        [.init serverCaps clientCaps, .evaluateFrame ⟨1, false, false, [⟨0, 0, 16, 16⟩]⟩] := by
  intro serverCaps clientCaps every
  have started := (EveryStep.cons_iff.mp every _ rfl).2
  have first := (EveryStep.cons_iff.mp started _ rfl).1 _ rfl rfl
  revert first
  decide

/-- A controller and the capabilities given to its latest `init`. -/
structure Negotiation where
  controller : AdaptiveController
  latest : Option (EncoderCapabilities × DecoderCapabilities) := none

def negotiate (negotiation : Negotiation) (event : Call) : Option Negotiation :=
  some
    { controller := negotiation.controller.call event
      latest := match event with
        | .init serverCaps clientCaps => some (serverCaps, clientCaps)
        | _ => negotiation.latest }

/-- A codec that both masks carry, of the three that are negotiated. -/
def Common (serverCaps : EncoderCapabilities) (clientCaps : DecoderCapabilities)
    (codec : VideoCodec) : Prop :=
  codec ∈ [VideoCodec.h264, .hevc, .av1] ∧
    serverCaps.supportedCodecsMask &&& clientCaps.supportedCodecsMask &&& (1 <<< codec.toUInt32) ≠ 0

instance (serverCaps : EncoderCapabilities) (clientCaps : DecoderCapabilities) (codec : VideoCodec) :
    Decidable (Common serverCaps clientCaps codec) :=
  inferInstanceAs (Decidable (_ ∧ _))

/-- Both sides of the latest `init` can code and decode the current codec, if
there is any codec they both can. -/
def Agreed (negotiation : Negotiation) : Prop :=
  ∀ serverCaps clientCaps, negotiation.latest = some (serverCaps, clientCaps) →
    (∃ codec, Common serverCaps clientCaps codec) →
      Common serverCaps clientCaps negotiation.controller.currentCodec

/-- An `init` that finds the statistics of a fast network, with lossless coding on
both sides, finds H.264 or nothing among the common codecs. -/
def SafeInit (negotiation : Negotiation) : Call → Prop
  | .init serverCaps clientCaps =>
    2000000000 < negotiation.controller.lastStats.bandwidthEstBps →
      serverCaps.supportsLossless = true → clientCaps.supportsLossless = true →
        (∃ codec, Common serverCaps clientCaps codec) → Common serverCaps clientCaps .h264
  | _ => True

/-- The controller works with the capabilities of the latest `init`. -/
structure Negotiated (negotiation : Negotiation) : Prop where
  caps : ∀ serverCaps clientCaps, negotiation.latest = some (serverCaps, clientCaps) →
    negotiation.controller.serverCaps = serverCaps ∧ negotiation.controller.clientCaps = clientCaps
  agreed : Agreed negotiation

theorem nextCodec_common {serverCaps : EncoderCapabilities} {clientCaps : DecoderCapabilities}
    (shared : ∃ codec, Common serverCaps clientCaps codec) :
    Common serverCaps clientCaps
      (nextCodec (serverCaps.supportedCodecsMask &&& clientCaps.supportedCodecsMask)) := by
  obtain ⟨codec, listed, carried⟩ := shared
  unfold nextCodec
  split
  case isTrue av1 => exact ⟨by simp, av1⟩
  case isFalse noAv1 =>
    split
    case isTrue hevc => exact ⟨by simp, hevc⟩
    case isFalse noHevc =>
      refine ⟨by simp, ?_⟩
      simp only [List.mem_cons, List.not_mem_nil, or_false] at listed
      rcases listed with rfl | rfl | rfl
      · exact carried
      · exact absurd carried noHevc
      · exact absurd carried noAv1

theorem adaptCodec_currentCodec (controller : AdaptiveController) :
    controller.adaptCodec.currentCodec =
      if 2000000000 < controller.lastStats.bandwidthEstBps ∧
          controller.serverCaps.supportsLossless ∧ controller.clientCaps.supportsLossless then
        controller.currentCodec
      else nextCodec controller.commonMask := by
  simp only [adaptCodec, currentCodec]
  split
  · split <;> rfl
  · split
    case isTrue => rfl
    case isFalse same => exact of_not_not same

theorem adaptCodec_caps (controller : AdaptiveController) :
    controller.adaptCodec.serverCaps = controller.serverCaps ∧
    controller.adaptCodec.clientCaps = controller.clientCaps := by
  simp only [adaptCodec]
  split
  · split <;> exact ⟨rfl, rfl⟩
  · split <;> exact ⟨rfl, rfl⟩

theorem adaptBitrate_caps (controller : AdaptiveController) :
    controller.adaptBitrate.serverCaps = controller.serverCaps ∧
    controller.adaptBitrate.clientCaps = controller.clientCaps := by
  simp only [adaptBitrate]
  split
  · split <;> exact ⟨rfl, rfl⟩
  · exact ⟨rfl, rfl⟩

/-- `adapt_codec` leaves a common codec where it found one or chooses one itself. -/
theorem adaptCodec_common (controller : AdaptiveController)
    (shared : ∃ codec, Common controller.serverCaps controller.clientCaps codec)
    (kept : 2000000000 < controller.lastStats.bandwidthEstBps →
      controller.serverCaps.supportsLossless = true →
      controller.clientCaps.supportsLossless = true →
        Common controller.serverCaps controller.clientCaps controller.currentCodec) :
    Common controller.serverCaps controller.clientCaps controller.adaptCodec.currentCodec := by
  rw [adaptCodec_currentCodec]
  split
  case isTrue lossless => exact kept lossless.1 lossless.2.1 lossless.2.2
  case isFalse => exact nextCodec_common shared

theorem negotiate_negotiated {negotiation next : Negotiation} (negotiated : Negotiated negotiation)
    (safe : SafeInit negotiation event) (stepped : negotiate negotiation event = some next) :
    Negotiated next := by
  cases Option.some.inj stepped
  cases event with
  | init serverCaps clientCaps =>
    constructor
    · rintro _ _ ⟨⟩
      exact adaptCodec_caps _
    · rintro _ _ ⟨⟩ shared
      refine adaptCodec_common _ shared ?_
      intro fast server client
      exact safe fast server client shared
  | updateNetworkStats stats =>
    obtain ⟨server, client⟩ := adaptBitrate_caps { negotiation.controller with lastStats := stats }
    obtain ⟨server', client'⟩ := adaptCodec_caps
      (adaptBitrate { negotiation.controller with lastStats := stats })
    constructor
    · intro serverCaps clientCaps given
      obtain ⟨hs, hc⟩ := negotiated.caps serverCaps clientCaps given
      exact ⟨(server'.trans server).trans hs, (client'.trans client).trans hc⟩
    · intro serverCaps clientCaps given shared
      obtain ⟨rfl, rfl⟩ := negotiated.caps serverCaps clientCaps given
      have before := negotiated.agreed _ _ given shared
      obtain ⟨codec, _⟩ := adaptBitrate_keeps { negotiation.controller with lastStats := stats }
      have chosen :=
        adaptCodec_common (adaptBitrate { negotiation.controller with lastStats := stats })
      rw [server, client, codec] at chosen
      exact chosen shared fun _ _ _ => before
  | evaluateFrame scene =>
    exact ⟨negotiated.caps, negotiated.agreed⟩

/-- On the lossless branch a new session keeps H.264, common or not. -/
theorem init_lossless {serverCaps : EncoderCapabilities} {clientCaps : DecoderCapabilities}
    (controller : AdaptiveController)
    (fast : 2000000000 < controller.lastStats.bandwidthEstBps)
    (server : serverCaps.supportsLossless = true) (client : clientCaps.supportsLossless = true) :
    (controller.init serverCaps clientCaps).currentCodec = .h264 := by
  unfold init
  rw [adaptCodec_currentCodec]
  exact if_pos ⟨fast, server, client⟩

theorem negotiate_missed {negotiation next : Negotiation} (missed : ¬ SafeInit negotiation event)
    (stepped : negotiate negotiation event = some next) : ¬ Agreed next := by
  cases Option.some.inj stepped
  cases event with
  | init serverCaps clientCaps =>
    intro agreed
    apply missed
    intro fast server client shared
    have chosen := agreed serverCaps clientCaps rfl shared
    have kept : Common serverCaps clientCaps
        (negotiation.controller.init serverCaps clientCaps).currentCodec := chosen
    rw [init_lossless negotiation.controller fast server client] at kept
    exact kept
  | updateNetworkStats stats => exact absurd trivial missed
  | evaluateFrame scene => exact absurd trivial missed

/-- `init` forgets the configuration but not the statistics that may select the
lossless branch, which skips the choice of a codec. -/
theorem agreed_iff_safeInit (serverCaps : EncoderCapabilities) (clientCaps : DecoderCapabilities)
    (calls : List Call) :
    Throughout negotiate Agreed { controller := construct serverCaps clientCaps } calls ↔
      Guarded negotiate SafeInit { controller := construct serverCaps clientCaps } calls := by
  refine throughout_iff_guarded (I := Negotiated) (fun _ => Negotiated.agreed)
    (fun _ _ _ => negotiate_negotiated) (fun _ _ _ _ => negotiate_missed) ?_
  constructor
  · rintro _ _ ⟨⟩
  · rintro _ _ ⟨⟩

/-- A second client without H.264 is sent H.264 when the first one's network was fast. -/
theorem second_client_sent_h264 :
    let serverCaps : EncoderCapabilities := ⟨0b1110, true⟩
    let clientCaps : DecoderCapabilities := ⟨0b1100, true⟩
    ¬ Throughout negotiate Agreed { controller := construct serverCaps clientCaps }
        [.init serverCaps clientCaps, .updateNetworkStats { bandwidthEstBps := 3000000000 },
          .init serverCaps clientCaps] := by
  intro serverCaps clientCaps all
  have agreed := all.last rfl serverCaps clientCaps rfl ⟨.av1, by decide⟩
  revert agreed
  decide

end AdaptiveController
end UltraDisplay
