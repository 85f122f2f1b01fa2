import UltraDisplay.Server.AdaptiveController

/-! How far the configured bitrate is from 80% of the estimate. The 64-bit product is
narrowed to 32 bits before it is clamped, and a change of up to 1 Mbit/s is not made. -/
namespace UltraDisplay.AdaptiveController
open Transition

def advance (controller : AdaptiveController) (event : Call) : Option AdaptiveController :=
  some (controller.call event)

/-- 80% of the estimate between the limits, without a conversion. -/
def idealBps (bandwidthEstBps : UInt64) : Nat :=
  max 1000000 (min 150000000 (bandwidthEstBps.toNat * 4 / 5))

/-- After new statistics with an estimate, the bitrate is within the limits and within
1 Mbit/s of the ideal. -/
def Tracks (_ : AdaptiveController) (event : Call) (next : AdaptiveController) : Prop :=
  ∀ stats, event = .updateNetworkStats stats → 0 < stats.bandwidthEstBps →
    let bitrate := next.currentConfig.bitrateBps.toNat
    1000000 ≤ bitrate ∧ bitrate ≤ 150000000 ∧
      bitrate ≤ idealBps stats.bandwidthEstBps + 1000000 ∧
      idealBps stats.bandwidthEstBps ≤ bitrate + 1000000

/-- 80% of the estimate fits 32 bits, or what is left of it leads the bitrate to within
1 Mbit/s of the upper limit, or leaves it there. -/
def Narrowable (controller : AdaptiveController) : Call → Prop
  | .updateNetworkStats stats =>
    let product := stats.bandwidthEstBps.toNat * 4 / 5
    let narrowed := product % 4294967296
    let current := controller.currentConfig.bitrateBps.toNat
    0 < stats.bandwidthEstBps → product < 4294967296 ∨ 150000000 ≤ narrowed ∨
      149000000 ≤ narrowed ∧ (149000000 ≤ current ∨ current + 1000000 < narrowed) ∨
      149000000 ≤ current ∧ current ≤ narrowed + 1000000
  | _ => True

instance (controller : AdaptiveController) (event : Call) : Decidable (controller.Narrowable event) := by
  cases event <;> (unfold Narrowable; infer_instance)

/-- The limits of the bitrate, from the first `init` on. -/
structure Limited (controller : AdaptiveController) : Prop where
  least : 1000000 ≤ controller.currentConfig.bitrateBps.toNat
  most : controller.currentConfig.bitrateBps.toNat ≤ 150000000

theorem toInt_toInt32 (word : UInt32) (small : word.toNat < 2147483648) :
    word.toInt32.toInt = word.toNat := by
  have signed : word.toInt32.toInt = word.toBitVec.toInt := rfl
  rw [signed, BitVec.toInt_eq_toNat_cond, UInt32.toNat_toBitVec]
  split <;> omega

theorem targetBps_toNat (bandwidthEstBps : UInt64) : (targetBps bandwidthEstBps).toNat =
    max 1000000 (min 150000000 (bandwidthEstBps.toNat * 4 / 5 % 4294967296)) := by
  have narrowed : (UInt32.ofNat (bandwidthEstBps.toNat * 4 / 5)).toNat =
      bandwidthEstBps.toNat * 4 / 5 % 4294967296 := UInt32.toNat_ofNat'
  simp only [targetBps, UInt32.lt_iff_toNat_lt, narrowed, UInt32.reduceToNat]
  split
  case isTrue low =>
    change 1000000 = _
    omega
  case isFalse =>
    split
    case isTrue high =>
      change 150000000 = _
      omega
    case isFalse =>
      rw [narrowed]
      omega

theorem adaptCodec_bitrate (controller : AdaptiveController) :
    controller.adaptCodec.currentConfig.bitrateBps = controller.currentConfig.bitrateBps := by
  simp only [adaptCodec]
  split
  · split <;> rfl
  · split <;> rfl

/-- New statistics move the bitrate to the target unless it is within 1 Mbit/s. -/
theorem updateNetworkStats_bitrate {controller : AdaptiveController} (limited : Limited controller)
    {stats : TransportStats} (estimated : 0 < stats.bandwidthEstBps) :
    (controller.updateNetworkStats stats).currentConfig.bitrateBps.toNat =
      let target := (targetBps stats.bandwidthEstBps).toNat
      let current := controller.currentConfig.bitrateBps.toNat
      if target + 1000000 < current ∨ current + 1000000 < target then target else current := by
  obtain ⟨least, most⟩ := limited
  have target := targetBps_toNat stats.bandwidthEstBps
  have signed := toInt_toInt32 controller.currentConfig.bitrateBps (by omega)
  have signed' := toInt_toInt32 (targetBps stats.bandwidthEstBps) (by omega)
  simp only [updateNetworkStats, adaptCodec_bitrate, adaptBitrate, estimated, if_true, signed, signed']
  split
  case isTrue far =>
    rw [if_pos (by omega)]
  case isFalse near =>
    rw [if_neg (by omega)]

theorem init_limited (controller : AdaptiveController) (serverCaps : EncoderCapabilities)
    (clientCaps : DecoderCapabilities) : Limited (controller.init serverCaps clientCaps) := by
  have bitrate : (controller.init serverCaps clientCaps).currentConfig.bitrateBps = 5000000 :=
    adaptCodec_bitrate _
  constructor
  · rw [bitrate]
    decide
  · rw [bitrate]
    decide

theorem advance_limited {controller next : AdaptiveController} (limited : Limited controller)
    (advanced : controller.advance event = some next) : Limited next := by
  cases Option.some.inj advanced
  cases event with
  | init serverCaps clientCaps => exact init_limited controller serverCaps clientCaps
  | evaluateFrame scene => exact ⟨limited.least, limited.most⟩
  | updateNetworkStats stats =>
    by_cases estimated : 0 < stats.bandwidthEstBps
    · have bitrate := updateNetworkStats_bitrate limited estimated
      have target := targetBps_toNat stats.bandwidthEstBps
      obtain ⟨least, most⟩ := limited
      constructor
      · simp only [call, bitrate]
        split <;> omega
      · simp only [call, bitrate]
        split <;> omega
    · have same : (controller.updateNetworkStats stats).currentConfig.bitrateBps =
          controller.currentConfig.bitrateBps := by
        simp only [updateNetworkStats, adaptCodec_bitrate, adaptBitrate, estimated, if_false]
      exact ⟨same ▸ limited.least, same ▸ limited.most⟩

theorem tracks_iff {controller next : AdaptiveController} (limited : Limited controller)
    (advanced : controller.advance event = some next) :
    Tracks controller event next ↔ controller.Narrowable event := by
  have limited' := advance_limited limited advanced
  cases Option.some.inj advanced
  cases event with
  | init | evaluateFrame => exact iff_of_true (fun _ other => nomatch other) trivial
  | updateNetworkStats stats =>
    by_cases estimated : 0 < stats.bandwidthEstBps
    · have bitrate := updateNetworkStats_bitrate limited estimated
      have target := targetBps_toNat stats.bandwidthEstBps
      obtain ⟨least, most⟩ := limited
      have narrowable : controller.Narrowable (.updateNetworkStats stats) ↔
          let bitrate := (controller.updateNetworkStats stats).currentConfig.bitrateBps.toNat
          bitrate ≤ idealBps stats.bandwidthEstBps + 1000000 ∧
            idealBps stats.bandwidthEstBps ≤ bitrate + 1000000 := by
        have whole : stats.bandwidthEstBps.toNat * 4 / 5 < 4294967296 →
            stats.bandwidthEstBps.toNat * 4 / 5 % 4294967296 =
              stats.bandwidthEstBps.toNat * 4 / 5 := Nat.mod_eq_of_lt
        simp only [Narrowable, estimated, true_implies, idealBps]
        dsimp only at bitrate
        generalize stats.bandwidthEstBps.toNat * 4 / 5 % 4294967296 = narrowed at target whole ⊢
        split at bitrate <;> omega
      rw [narrowable]
      constructor
      · intro tracks
        exact (tracks stats rfl estimated).2.2
      · rintro near _ same _
        cases same
        exact ⟨limited'.least, limited'.most, near⟩
    · refine iff_of_true ?_ fun positive => absurd positive estimated
      rintro _ same positive
      cases same
      exact absurd positive estimated

/-- After an `init` in any state, the bitrate follows the estimates precisely when each
is narrowed without harm. -/
theorem tracks_iff_narrowable (controller : AdaptiveController) (serverCaps : EncoderCapabilities)
    (clientCaps : DecoderCapabilities) (calls : List Call) :
    EveryStep advance Tracks controller (.init serverCaps clientCaps :: calls) ↔
      Guarded advance Narrowable controller (.init serverCaps clientCaps :: calls) := by
  have later : EveryStep advance Tracks (controller.init serverCaps clientCaps) calls ↔
      Guarded advance Narrowable (controller.init serverCaps clientCaps) calls :=
    EveryStep.congr_of_invariant (I := Limited) (fun _ _ _ => advance_limited)
      (fun _ _ _ => tracks_iff) (init_limited controller serverCaps clientCaps)
  rw [EveryStep.cons_iff, Guarded.cons_iff]
  constructor
  · intro every next advanced
    cases Option.some.inj advanced
    exact ⟨trivial, later.mp (every _ rfl).2⟩
  · intro guarded next advanced
    cases Option.some.inj advanced
    refine ⟨?_, later.mpr (guarded _ rfl).2⟩
    rintro _ ⟨⟩

/-- At 5.4 Gbit/s the narrowed product is 0, and the bitrate falls to the lower limit. -/
theorem fast_estimate_slows : ¬ EveryStep advance Tracks (construct ⟨0b1110, true⟩ ⟨0b1110, true⟩)
    [.init ⟨0b1110, true⟩ ⟨0b1110, true⟩,
      .updateNetworkStats { bandwidthEstBps := 5368709120 }] := by
  intro every
  have started := (EveryStep.cons_iff.mp every _ rfl).2
  have tracks := (EveryStep.cons_iff.mp started _ rfl).1 _ rfl (by decide)
  revert tracks
  decide

end UltraDisplay.AdaptiveController
