import Mathlib.Data.Rat.Floor
import UltraDisplay.Shared.CongestionGcc.Acks

/-! What an acknowledgement does whose number has no entry in the history. It gives
no delay sample, but the estimate is run again on the trendline of the last sample. -/
namespace UltraDisplay.GoogleCongestionControl
open Transition

def step (control : GoogleCongestionControl) (event : Call) : Option GoogleCongestionControl :=
  some (control.call event)

/-- The state on which a call runs the estimate. -/
def estimated (control : GoogleCongestionControl) : Call → Option GoogleCongestionControl
  | .onPacketAcked sequenceNumber receiveTime =>
    match control.entry sequenceNumber with
    | none => some control
    | some info =>
      some
        { control.measure info receiveTime with
          lastSendTime := info.sendTime
          lastArrivalTime := receiveTime
          packetsSinceLastLossUpdate :=
            (control.measure info receiveTime).packetsSinceLastLossUpdate + 1
          history := (control.measure info receiveTime).history.eraseP
            fun info => info.sequenceNumber = sequenceNumber }
  | .onPacketLost _ =>
    some
      { control with
        lostPackets := control.lostPackets + 1
        packetsSinceLastLossUpdate := control.packetsSinceLastLossUpdate + 1 }
  | _ => none

/-- The estimate clamps between bounds in order, and each product by which it raises the
target, one for the delay and one for the losses, fits the 64 bits it is converted to. -/
def EstimateDefined (control : GoogleCongestionControl) : Prop :=
  control.minBitrateBps ≤ control.maxBitrateBps ∧
    (control.trendlineSlope < -5 → control.targetBitrateBps.toNat * 21 / 20 < 2 ^ 64) ∧
    (100 ≤ control.packetsSinceLastLossUpdate →
      (control.lostPackets.toNat / control.packetsSinceLastLossUpdate.toNat : ℚ) < 1 / 50 →
      control.delayBased.targetBitrateBps.toNat * 21 / 20 < 2 ^ 64)

instance (control : GoogleCongestionControl) : Decidable control.EstimateDefined := by
  unfold EstimateDefined
  infer_instance

/-- A controller with a record of whether every estimate so far was defined. -/
@[ext] structure Watched where
  control : GoogleCongestionControl := {}
  defined : Bool := true

def watch (state : Watched) (event : Call) : Option Watched :=
  some
    { control := state.control.call event
      defined := state.defined &&
        (state.control.estimated event).all fun estimated => estimated.EstimateDefined }

/-- An acknowledgement without an entry leaves the whole state as it is, and no estimate
up to it was undefined. -/
def Harmless (state : Watched) (event : Call) (next : Watched) : Prop :=
  ∀ sequenceNumber receiveTime, event = .onPacketAcked sequenceNumber receiveTime →
    state.control.entry sequenceNumber = none →
    next.defined = true ∧ next.control = state.control

/-- The target lies between the bounds where another estimate on the same trendline
leaves it: at the minimum while the delay grows, and at the maximum while it shrinks,
unless a twentieth of it is less than one bit. -/
def Settled (control : GoogleCongestionControl) : Prop :=
  (control.minBitrateBps ≤ control.targetBitrateBps ∧
    control.targetBitrateBps ≤ control.maxBitrateBps) ∧
  (5 < control.trendlineSlope → control.targetBitrateBps = control.minBitrateBps) ∧
  (control.trendlineSlope < -5 → control.targetBitrateBps.toNat * 21 / 20 < 2 ^ 64 ∧
    (control.targetBitrateBps = control.maxBitrateBps ∨ control.targetBitrateBps < 20))

instance (control : GoogleCongestionControl) : Decidable control.Settled := by
  unfold Settled
  infer_instance

def SettledAt (state : Watched) : Call → Prop
  | .onPacketAcked sequenceNumber _ => state.control.entry sequenceNumber = none →
    state.defined = true ∧ state.control.Settled
  | _ => True

instance (state : Watched) (event : Call) : Decidable (SettledAt state event) := by
  cases event <;> (unfold SettledAt; infer_instance)

/-- Every estimate starts a new loss window at 100 packets. -/
def Counting (control : GoogleCongestionControl) : Prop :=
  control.packetsSinceLastLossUpdate.toNat < 100

theorem scale_toNat (bitrate : UInt64) (numerator denominator : Nat) :
    (scale bitrate (numerator / denominator)).toNat =
      bitrate.toNat * numerator / denominator % 2 ^ 64 := by
  have product : (bitrate.toNat : ℚ) * (numerator / denominator) =
      ((bitrate.toNat * numerator : Nat) : ℚ) / denominator := by
    push_cast
    ring
  have floor : (((bitrate.toNat * numerator : Nat) : ℚ) / denominator).floor =
      (bitrate.toNat * numerator / denominator : Nat) :=
    Rat.floor_natCast_div_natCast (bitrate.toNat * numerator) denominator
  rw [scale, product, floor, UInt64.toNat_ofNat', Int.toNat_natCast]

theorem lossBased_counting {control : GoogleCongestionControl} (counting : Counting control) :
    control.lossBased = control := by
  refine if_neg fun many => ?_
  have many := UInt64.le_iff_toNat_le.mp many
  have few : control.packetsSinceLastLossUpdate.toNat < 100 := counting
  change 100 ≤ _ at many
  omega

theorem updateBitrateEstimate_counting (control : GoogleCongestionControl) :
    Counting control.updateBitrateEstimate := by
  simp only [Counting, updateBitrateEstimate, lossBased]
  split
  case isTrue => exact (by decide : (0 : UInt64).toNat < 100)
  case isFalse few =>
    have few := UInt64.lt_iff_toNat_lt.mp (UInt64.not_le.mp few)
    exact few

theorem call_counting {control : GoogleCongestionControl} (counting : Counting control)
    (event : Call) : Counting (control.call event) := by
  cases event with
  | onPacketSent sequenceNumber size sendTime => exact counting
  | onPacketAcked sequenceNumber receiveTime =>
    simp only [call, onPacketAcked]
    split <;> exact updateBitrateEstimate_counting _
  | onPacketLost sequenceNumber => exact updateBitrateEstimate_counting _
  | setMinBitrate bps => exact counting
  | setMaxBitrate bps => exact counting

theorem updateBitrateEstimate_eq {control : GoogleCongestionControl} (counting : Counting control) :
    control.updateBitrateEstimate =
      { control with
        targetBitrateBps := clamp control.delayBased.targetBitrateBps
          control.minBitrateBps control.maxBitrateBps } := by
  have counting' : Counting control.delayBased := by
    rw [delayBased_eq]
    exact counting
  unfold updateBitrateEstimate
  rw [lossBased_counting counting']
  dsimp only
  obtain ⟨lo, hi⟩ := delayBased_bounds control
  rw [lo, hi, delayBased_eq]

theorem clamp_toNat (value lo hi : UInt64) : (clamp value lo hi).toNat =
    if value.toNat < lo.toNat then lo.toNat
    else if hi.toNat < value.toNat then hi.toNat else value.toNat := by
  simp only [clamp, UInt64.lt_iff_toNat_lt]
  split
  · rfl
  · split <;> rfl

theorem clamp_shrunk_iff (target lo hi : UInt64) :
    clamp (scale target (17 / 20)) lo hi = target ↔ target = lo := by
  have value : (scale target (17 / 20)).toNat = target.toNat * 17 / 20 % 2 ^ 64 := by
    exact_mod_cast scale_toNat target 17 20
  have bound := target.toNat_lt
  rw [← UInt64.toNat_inj, ← UInt64.toNat_inj, clamp_toNat, value, Nat.mod_eq_of_lt (by omega)]
  split
  · omega
  · split <;> omega

theorem clamp_grown_iff {target lo hi : UInt64} (ordered : lo ≤ hi)
    (fits : target.toNat * 21 / 20 < 2 ^ 64) :
    clamp (scale target (21 / 20)) lo hi = target ↔
      (lo ≤ target ∧ target ≤ hi) ∧ (target = hi ∨ target < 20) := by
  have value : (scale target (21 / 20)).toNat = target.toNat * 21 / 20 % 2 ^ 64 := by
    exact_mod_cast scale_toNat target 21 20
  rw [Nat.mod_eq_of_lt fits] at value
  have ordered := UInt64.le_iff_toNat_le.mp ordered
  simp only [← UInt64.toNat_inj, clamp_toNat, value, UInt64.lt_iff_toNat_lt, UInt64.le_iff_toNat_le]
  change _ ↔ _ ∧ (_ ∨ target.toNat < 20)
  split
  · omega
  · split <;> omega

theorem clamp_kept_iff (target lo hi : UInt64) :
    clamp target lo hi = target ↔ lo ≤ target ∧ target ≤ hi := by
  rw [← UInt64.toNat_inj, clamp_toNat, UInt64.le_iff_toNat_le, UInt64.le_iff_toNat_le]
  split
  · omega
  · split <;> omega

theorem estimateDefined_iff {control : GoogleCongestionControl} (counting : Counting control) :
    control.EstimateDefined ↔ control.minBitrateBps ≤ control.maxBitrateBps ∧
      (control.trendlineSlope < -5 → control.targetBitrateBps.toNat * 21 / 20 < 2 ^ 64) := by
  have open_window : ¬ 100 ≤ control.packetsSinceLastLossUpdate := by
    rw [UInt64.not_le]
    exact counting
  simp only [EstimateDefined, open_window, false_imp_iff, and_true]

/-- Another estimate is defined and changes nothing. -/
theorem estimate_settled_iff {control : GoogleCongestionControl} (counting : Counting control) :
    control.EstimateDefined ∧ control.updateBitrateEstimate = control ↔ control.Settled := by
  have target : control.updateBitrateEstimate = control ↔
      clamp control.delayBased.targetBitrateBps control.minBitrateBps control.maxBitrateBps =
        control.targetBitrateBps := by
    rw [updateBitrateEstimate_eq counting]
    constructor
    · intro same
      exact congrArg targetBitrateBps same
    · intro same
      rw [same]
  rw [estimateDefined_iff counting, target]
  unfold Settled
  constructor
  · rintro ⟨⟨ordered, fits⟩, kept⟩
    have between := clamp_between control.delayBased.targetBitrateBps ordered
    rw [kept] at between
    refine ⟨between, ?_, ?_⟩
    · intro overuse
      rw [delayBased, if_pos overuse] at kept
      exact (clamp_shrunk_iff _ _ _).mp kept
    · intro underuse
      have falling : ¬ 5 < control.trendlineSlope := by linarith
      rw [delayBased, if_neg falling, if_pos underuse] at kept
      exact ⟨fits underuse, ((clamp_grown_iff ordered (fits underuse)).mp kept).2⟩
  · rintro ⟨between, lowest, highest⟩
    have ordered := UInt64.le_trans between.1 between.2
    refine ⟨⟨ordered, fun underuse => (highest underuse).1⟩, ?_⟩
    unfold delayBased
    split
    case isTrue overuse => exact (clamp_shrunk_iff _ _ _).mpr (lowest overuse)
    case isFalse =>
      split
      case isTrue underuse =>
        obtain ⟨fits, highest⟩ := highest underuse
        exact (clamp_grown_iff ordered fits).mpr ⟨between, highest⟩
      case isFalse => exact (clamp_kept_iff _ _ _).mpr between

/-- An acknowledgement that finds an entry takes it out of the history. -/
theorem onPacketAcked_changes {control : GoogleCongestionControl} {sequenceNumber : UInt16}
    (receiveTime : Timestamp) (found : control.entry sequenceNumber ≠ none) :
    control.onPacketAcked sequenceNumber receiveTime ≠ control := by
  intro same
  have history := Flow.onPacketAcked_history control sequenceNumber receiveTime
  rw [same] at history
  obtain ⟨info, member⟩ := Option.ne_none_iff_exists'.mp found
  have numbered := List.find?_some member
  have shorter : (control.history.eraseP fun info => info.sequenceNumber = sequenceNumber).length =
      control.history.length - 1 :=
    List.length_eraseP_of_mem (List.mem_of_find?_eq_some member) numbered
  have some_entry := List.length_pos_of_mem (List.mem_of_find?_eq_some member)
  rw [← history] at shorter
  omega

/-- An acknowledgement is defined and changes nothing where it has no entry and the
target is settled. -/
theorem watch_acked_iff {state : Watched} (counting : Counting state.control)
    (sequenceNumber : UInt16) (receiveTime : Timestamp) :
    watch state (.onPacketAcked sequenceNumber receiveTime) = some state ∧ state.defined = true ↔
      state.defined = true ∧ state.control.entry sequenceNumber = none ∧ state.control.Settled := by
  obtain ⟨control, defined⟩ := state
  simp only [watch, call, estimated, Option.some.injEq, Watched.mk.injEq]
  cases found : control.entry sequenceNumber with
  | none =>
    rw [← estimate_settled_iff counting]
    simp only [onPacketAcked, found, Option.all_some, true_and]
    cases defined with
    | false => simp
    | true => simp [and_comm]
  | some info =>
    have changes := onPacketAcked_changes receiveTime (found ▸ Option.some_ne_none info)
    simp [changes]

theorem harmless_iff {state next : Watched} (counting : Counting state.control)
    (stepped : watch state event = some next) :
    Harmless state event next ↔ SettledAt state event := by
  cases event with
  | onPacketAcked sequenceNumber receiveTime =>
    have fixed := watch_acked_iff counting sequenceNumber receiveTime
    rw [stepped, Option.some_inj] at fixed
    have earlier : next.defined = true → state.defined = true := by
      cases Option.some.inj stepped
      exact fun defined => (Bool.and_eq_true_iff.mp defined).1
    constructor
    · intro harmless missing
      obtain ⟨defined, same⟩ := harmless sequenceNumber receiveTime rfl missing
      have whole : next = state := by
        rw [Watched.ext_iff, same, defined, earlier defined]
        exact ⟨rfl, rfl⟩
      obtain ⟨defined, _, settled⟩ := fixed.mp ⟨whole, earlier defined⟩
      exact ⟨defined, settled⟩
    · intro settled _ _ same missing
      cases same
      obtain ⟨defined, settled⟩ := settled missing
      obtain ⟨rfl, defined⟩ := fixed.mpr ⟨defined, missing, settled⟩
      exact ⟨defined, rfl⟩
  | onPacketSent | onPacketLost | setMinBitrate | setMaxBitrate =>
    exact iff_of_true (fun _ _ other => nomatch other) trivial

/-- Acknowledgements without an entry do nothing in a run precisely when they meet a
settled target, and so does a second delivery whose number has no other entry. -/
theorem harmless_iff_settled (calls : List Call) :
    (EveryStep watch Harmless {} calls ↔ Guarded watch SettledAt {} calls) ∧
    ∀ sequenceNumber receiveTime once,
      run watch {} (calls ++ [.onPacketAcked sequenceNumber receiveTime]) = some once →
      (run watch {} (calls ++ [.onPacketAcked sequenceNumber receiveTime,
          .onPacketAcked sequenceNumber receiveTime]) = some once ∧ once.defined = true ↔
        once.defined = true ∧ once.control.entry sequenceNumber = none ∧
          once.control.Settled) := by
  have preserved : ∀ state event next, Counting state.control →
      watch state event = some next → Counting next.control := by
    intro state event next counting stepped
    cases Option.some.inj stepped
    exact call_counting counting event
  have start : Counting {} := (by decide : (0 : UInt64).toNat < 100)
  constructor
  · refine EveryStep.congr_of_invariant preserved ?_ start
    intro state event next counting stepped
    exact harmless_iff counting stepped
  · intro sequenceNumber receiveTime once reached
    have counting : Counting once.control :=
      run_invariant (I := fun state => Counting state.control) preserved start reached
    have again : run watch once [.onPacketAcked sequenceNumber receiveTime] =
        watch once (.onPacketAcked sequenceNumber receiveTime) := Option.bind_fun_some _
    rw [← watch_acked_iff counting sequenceNumber receiveTime, ← again, ← List.singleton_append,
      ← List.append_assoc, run_append, reached, Option.bind_some]

/-- The only packet, acknowledged twice. -/
theorem harmless_iff_settled_single : ∃ once : Watched,
    run watch {} [.onPacketSent 1 1200 1000, .onPacketAcked 1 1500] = some once ∧
    (run watch {} [.onPacketSent 1 1200 1000, .onPacketAcked 1 1500, .onPacketAcked 1 1500] =
        some once ∧ once.defined = true ↔
      once.defined = true ∧ once.control.entry 1 = none ∧ once.control.Settled) :=
  ⟨_, rfl, (harmless_iff_settled [.onPacketSent 1 1200 1000]).2 1 1500 _ rfl⟩

/-- The second delivery of an acknowledgement, a queue having built up before the first. -/
theorem duplicate_lowers_target : ¬ EveryStep watch Harmless {}
    [.onPacketSent 1 1200 1000, .onPacketSent 2 1200 2000, .onPacketAcked 1 1000,
      .onPacketAcked 2 2100, .onPacketAcked 2 2100] := by
  intro every
  have same := every [.onPacketSent 1 1200 1000, .onPacketSent 2 1200 2000, .onPacketAcked 1 1000,
    .onPacketAcked 2 2100] _ _ _ (List.prefix_refl _) rfl rfl 2 2100 rfl
    (by decide +kernel)
  have target := congrArg targetBitrateBps same.2
  revert target
  decide +kernel

end UltraDisplay.GoogleCongestionControl
