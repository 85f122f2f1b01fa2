import Mathlib.Data.Rat.Defs
import UltraDisplay.Library.Transition
import UltraDisplay.Shared.Clock

/-! The rate estimate of shared/transport/congestion_gcc.cpp, from delays and from
losses. Doubles and floats are read as exact rationals, and a conversion to
uint64_t truncates modulo 2^64. -/
namespace UltraDisplay
open Transition

structure PacketInfo where
  sequenceNumber : UInt16
  size : UInt64
  sendTime : Timestamp
  deriving DecidableEq

structure GoogleCongestionControl where
  targetBitrateBps : UInt64 := 1000000
  minBitrateBps : UInt64 := 100000
  maxBitrateBps : UInt64 := 100000000
  history : List PacketInfo := []
  trendlineSlope : ℚ := 0
  lastArrivalTime : Timestamp := 0
  lastSendTime : Timestamp := 0
  delayGradient : ℚ := 0
  lossRatio : ℚ := 0
  packetsSinceLastLossUpdate : UInt64 := 0
  lostPackets : UInt64 := 0
  deriving DecidableEq

namespace GoogleCongestionControl

/-- `static_cast<uint64_t>(static_cast<double>(bitrate) * factor)`. -/
def scale (bitrate : UInt64) (factor : ℚ) : UInt64 :=
  UInt64.ofNat (bitrate.toNat * factor).floor.toNat

/-- `std::clamp`, which is undefined where `hi < lo`: what stands here for such a call
is nothing to rely on, and `supervise` counts it as a failure. -/
def clamp (value lo hi : UInt64) : UInt64 :=
  if value < lo then lo else if hi < value then hi else value

def onPacketSent (control : GoogleCongestionControl) (sequenceNumber : UInt16) (size : UInt64)
    (sendTime : Timestamp) : GoogleCongestionControl :=
  let history := if 1000 ≤ control.history.length then control.history.tail else control.history
  { control with history := history ++ [{ sequenceNumber, size, sendTime }] }

def updateTrendline (control : GoogleCongestionControl) (delayGradient : ℚ) :
    GoogleCongestionControl :=
  let alpha : ℚ := 9 / 10
  let delayGradient := alpha * control.delayGradient + (1 - alpha) * delayGradient
  { control with delayGradient, trendlineSlope := delayGradient }

/-- The first half of `update_bitrate_estimate`. -/
def delayBased (control : GoogleCongestionControl) : GoogleCongestionControl :=
  if 5 < control.trendlineSlope then
    { control with targetBitrateBps := scale control.targetBitrateBps (17 / 20) }
  else if control.trendlineSlope < -5 then
    { control with targetBitrateBps := scale control.targetBitrateBps (21 / 20) }
  else control

/-- The second half, once for every 100 counted packets. -/
def lossBased (control : GoogleCongestionControl) : GoogleCongestionControl :=
  if 100 ≤ control.packetsSinceLastLossUpdate then
    let lossRatio : ℚ := control.lostPackets.toNat / control.packetsSinceLastLossUpdate.toNat
    let targetBitrateBps :=
      if 1 / 10 < lossRatio then scale control.targetBitrateBps (1 - 1 / 2 * lossRatio)
      else if lossRatio < 1 / 50 then scale control.targetBitrateBps (21 / 20)
      else control.targetBitrateBps
    { control with
      targetBitrateBps, lossRatio
      lostPackets := 0
      packetsSinceLastLossUpdate := 0 }
  else control

def updateBitrateEstimate (control : GoogleCongestionControl) : GoogleCongestionControl :=
  let control := control.delayBased.lossBased
  { control with
    targetBitrateBps :=
      clamp control.targetBitrateBps control.minBitrateBps control.maxBitrateBps }

/-- The first entry of `history_` with the number. -/
def entry (control : GoogleCongestionControl) (sequenceNumber : UInt16) : Option PacketInfo :=
  control.history.find? fun info => info.sequenceNumber = sequenceNumber

/-- The delay sample of an acknowledged packet against the one before. -/
def measure (control : GoogleCongestionControl) (info : PacketInfo) (receiveTime : Timestamp) :
    GoogleCongestionControl :=
  if control.lastSendTime ≠ 0 ∧ control.lastArrivalTime ≠ 0 then
    let sendDelta : ℚ := info.sendTime.toNat - control.lastSendTime.toNat
    let recvDelta : ℚ := receiveTime.toNat - control.lastArrivalTime.toNat
    if 0 < sendDelta then control.updateTrendline (recvDelta - sendDelta) else control
  else control

def onPacketAcked (control : GoogleCongestionControl) (sequenceNumber : UInt16)
    (receiveTime : Timestamp) : GoogleCongestionControl :=
  match control.entry sequenceNumber with
  | none => control.updateBitrateEstimate
  | some info =>
    let control := control.measure info receiveTime
    updateBitrateEstimate
      { control with
        lastSendTime := info.sendTime
        lastArrivalTime := receiveTime
        packetsSinceLastLossUpdate := control.packetsSinceLastLossUpdate + 1
        history := control.history.eraseP fun info => info.sequenceNumber = sequenceNumber }

/-- The sequence number is not used. -/
def onPacketLost (control : GoogleCongestionControl) (_sequenceNumber : UInt16) :
    GoogleCongestionControl :=
  updateBitrateEstimate
    { control with
      lostPackets := control.lostPackets + 1
      packetsSinceLastLossUpdate := control.packetsSinceLastLossUpdate + 1 }

def getTargetBitrateBps (control : GoogleCongestionControl) : UInt64 :=
  control.targetBitrateBps

def setMinBitrate (control : GoogleCongestionControl) (bps : UInt64) : GoogleCongestionControl :=
  { control with
    minBitrateBps := bps
    targetBitrateBps := if control.targetBitrateBps < bps then bps else control.targetBitrateBps }

def setMaxBitrate (control : GoogleCongestionControl) (bps : UInt64) : GoogleCongestionControl :=
  { control with
    maxBitrateBps := bps
    targetBitrateBps := if bps < control.targetBitrateBps then bps else control.targetBitrateBps }

inductive Call where
  | onPacketSent (sequenceNumber : UInt16) (size : UInt64) (sendTime : Timestamp)
  | onPacketAcked (sequenceNumber : UInt16) (receiveTime : Timestamp)
  | onPacketLost (sequenceNumber : UInt16)
  | setMinBitrate (bps : UInt64)
  | setMaxBitrate (bps : UInt64)

def call (control : GoogleCongestionControl) : Call → GoogleCongestionControl
  | .onPacketSent sequenceNumber size sendTime => control.onPacketSent sequenceNumber size sendTime
  | .onPacketAcked sequenceNumber receiveTime => control.onPacketAcked sequenceNumber receiveTime
  | .onPacketLost sequenceNumber => control.onPacketLost sequenceNumber
  | .setMinBitrate bps => control.setMinBitrate bps
  | .setMaxBitrate bps => control.setMaxBitrate bps

/-- A controller with a record of whether every `std::clamp` so far was defined. -/
structure Supervised where
  control : GoogleCongestionControl := {}
  clampsDefined : Bool := true

def clamps : Call → Bool
  | .onPacketAcked _ _ => true
  | .onPacketLost _ => true
  | _ => false

/-- No call changes a bound before it clamps, so that the clamp sees the bounds
before the call. -/
def supervise (state : Supervised) (event : Call) : Option Supervised :=
  some
    { control := state.control.call event
      clampsDefined := state.clampsDefined &&
        (!clamps event || state.control.minBitrateBps ≤ state.control.maxBitrateBps) }

structure Bounded (state : Supervised) : Prop where
  defined : state.clampsDefined = true
  above : state.control.minBitrateBps ≤ state.control.getTargetBitrateBps
  below : state.control.getTargetBitrateBps ≤ state.control.maxBitrateBps

/-- A new bound respects the other one. -/
def Respects (state : Supervised) : Call → Prop
  | .setMinBitrate bps => bps ≤ state.control.maxBitrateBps
  | .setMaxBitrate bps => state.control.minBitrateBps ≤ bps
  | _ => True

theorem clamp_between {lo hi : UInt64} (value : UInt64) (ordered : lo ≤ hi) :
    lo ≤ clamp value lo hi ∧ clamp value lo hi ≤ hi := by
  unfold clamp
  split
  case isTrue => exact ⟨UInt64.le_refl lo, ordered⟩
  case isFalse atLeast =>
    split
    case isTrue => exact ⟨ordered, UInt64.le_refl hi⟩
    case isFalse atMost => exact ⟨UInt64.not_lt.mp atLeast, UInt64.not_lt.mp atMost⟩

theorem delayBased_eq (control : GoogleCongestionControl) : control.delayBased =
    { control with targetBitrateBps := control.delayBased.targetBitrateBps } := by
  unfold delayBased
  split
  · rfl
  · split <;> rfl

theorem delayBased_bounds (control : GoogleCongestionControl) :
    control.delayBased.minBitrateBps = control.minBitrateBps ∧
    control.delayBased.maxBitrateBps = control.maxBitrateBps := by
  rw [delayBased_eq]
  exact ⟨rfl, rfl⟩

theorem lossBased_bounds (control : GoogleCongestionControl) :
    control.lossBased.minBitrateBps = control.minBitrateBps ∧
    control.lossBased.maxBitrateBps = control.maxBitrateBps := by
  unfold lossBased
  split <;> exact ⟨rfl, rfl⟩

theorem measure_eq (control : GoogleCongestionControl) (info : PacketInfo)
    (receiveTime : Timestamp) : control.measure info receiveTime =
      { control with
        delayGradient := (control.measure info receiveTime).delayGradient
        trendlineSlope := (control.measure info receiveTime).trendlineSlope } := by
  unfold measure
  split
  · dsimp only
    split <;> rfl
  · rfl

theorem measure_bounds (control : GoogleCongestionControl) (info : PacketInfo)
    (receiveTime : Timestamp) :
    (control.measure info receiveTime).minBitrateBps = control.minBitrateBps ∧
    (control.measure info receiveTime).maxBitrateBps = control.maxBitrateBps := by
  rw [measure_eq]
  exact ⟨rfl, rfl⟩

/-- The estimate keeps the bounds and lands between them. -/
theorem updateBitrateEstimate_between (control : GoogleCongestionControl)
    (ordered : control.minBitrateBps ≤ control.maxBitrateBps) :
    control.updateBitrateEstimate.minBitrateBps ≤ control.updateBitrateEstimate.targetBitrateBps ∧
    control.updateBitrateEstimate.targetBitrateBps ≤ control.updateBitrateEstimate.maxBitrateBps := by
  obtain ⟨lo, hi⟩ := lossBased_bounds control.delayBased
  obtain ⟨lo', hi'⟩ := delayBased_bounds control
  exact clamp_between _ ((lo.trans lo').symm ▸ (hi.trans hi').symm ▸ ordered)

theorem onPacketAcked_between (control : GoogleCongestionControl) (sequenceNumber : UInt16)
    (receiveTime : Timestamp) (ordered : control.minBitrateBps ≤ control.maxBitrateBps) :
    (control.onPacketAcked sequenceNumber receiveTime).minBitrateBps ≤
      (control.onPacketAcked sequenceNumber receiveTime).targetBitrateBps ∧
    (control.onPacketAcked sequenceNumber receiveTime).targetBitrateBps ≤
      (control.onPacketAcked sequenceNumber receiveTime).maxBitrateBps := by
  unfold onPacketAcked
  split
  · exact updateBitrateEstimate_between _ ordered
  · rename_i info _
    obtain ⟨lo, hi⟩ := measure_bounds control info receiveTime
    apply updateBitrateEstimate_between
    simp only [lo, hi]
    exact ordered

theorem supervise_bounded {state next : Supervised} (bounded : Bounded state)
    (respects : Respects state event) (stepped : supervise state event = some next) :
    Bounded next := by
  cases Option.some.inj stepped
  have ordered := UInt64.le_trans bounded.above bounded.below
  have defined := bounded.defined
  cases event with
  | onPacketSent sequenceNumber size sendTime =>
    exact ⟨by simp [defined, clamps], bounded.above, bounded.below⟩
  | onPacketAcked sequenceNumber receiveTime =>
    have between := onPacketAcked_between state.control sequenceNumber receiveTime ordered
    exact ⟨by simp [defined, ordered], between.1, between.2⟩
  | onPacketLost sequenceNumber =>
    have between := updateBitrateEstimate_between
      { state.control with
        lostPackets := state.control.lostPackets + 1
        packetsSinceLastLossUpdate := state.control.packetsSinceLastLossUpdate + 1 } ordered
    exact ⟨by simp [defined, ordered], between.1, between.2⟩
  | setMinBitrate bps =>
    refine ⟨by simp [defined, clamps], ?_, ?_⟩
    · simp only [call, setMinBitrate, getTargetBitrateBps]
      split
      case isTrue => exact UInt64.le_refl bps
      case isFalse atLeast => exact UInt64.not_lt.mp atLeast
    · simp only [call, setMinBitrate, getTargetBitrateBps]
      split
      case isTrue => exact respects
      case isFalse => exact bounded.below
  | setMaxBitrate bps =>
    refine ⟨by simp [defined, clamps], ?_, ?_⟩
    · simp only [call, setMaxBitrate, getTargetBitrateBps]
      split
      case isTrue => exact respects
      case isFalse => exact bounded.above
    · simp only [call, setMaxBitrate, getTargetBitrateBps]
      split
      case isTrue => exact UInt64.le_refl bps
      case isFalse atMost => exact UInt64.not_lt.mp atMost

/-- A bound set beyond the other one drags the target past that one. -/
theorem supervise_crossed {state next : Supervised}
    (missed : ¬ Respects state event) (stepped : supervise state event = some next) :
    ¬ Bounded next := by
  cases Option.some.inj stepped
  intro still
  apply missed
  have ordered := UInt64.le_trans still.above still.below
  cases event with
  | setMinBitrate bps => exact ordered
  | setMaxBitrate bps => exact ordered
  | onPacketSent sequenceNumber size sendTime => trivial
  | onPacketAcked sequenceNumber receiveTime => trivial
  | onPacketLost sequenceNumber => trivial

/-- The two setters repair the target against their own bound only. -/
theorem bounded_iff_respects (calls : List Call) :
    Throughout supervise Bounded {} calls ↔ Guarded supervise Respects {} calls := by
  refine throughout_iff_guarded (I := Bounded) (fun _ => id) (fun _ _ _ => supervise_bounded)
    (fun _ _ _ _ => supervise_crossed) ?_
  constructor <;> decide

/-- A minimum above the default maximum takes the target with it. -/
theorem min_above_max : ¬ Throughout supervise Bounded {} [.setMinBitrate 200000000] := by
  intro all
  have bounded := (all.last rfl).below
  revert bounded
  decide

end GoogleCongestionControl
end UltraDisplay
