import UltraDisplay.Library.TumblingWindow
import UltraDisplay.Shared.CongestionGcc.Duplicates

/-! What the loss ratio measures, and what the history holds. The two loss counters
advance in different calls, and they start again in the estimate, which also runs when
nothing was counted. -/
namespace UltraDisplay.GoogleCongestionControl
open Transition

inductive Outcome where
  | acked
  | lost
  deriving DecidableEq

/-- The outcome that a call counts: an acknowledgement with an entry, or a loss. -/
def counted (control : GoogleCongestionControl) : Call → Option Outcome
  | .onPacketAcked sequenceNumber _ => (control.entry sequenceNumber).map fun _ => .acked
  | .onPacketLost _ => some .lost
  | _ => none

/-- The loss ratio that a call computes, if its estimate gets to it. -/
def computed (control : GoogleCongestionControl) (event : Call) : Option ℚ :=
  (control.estimated event).bind fun estimated =>
    if 100 ≤ estimated.packetsSinceLastLossUpdate then some (control.call event).lossRatio
    else none

def transmission : Call → Option PacketInfo
  | .onPacketSent sequenceNumber size sendTime => some { sequenceNumber, size, sendTime }
  | _ => none

/-- A controller with what its calls so far have sent, counted and computed. -/
structure Ledger where
  control : GoogleCongestionControl := {}
  sent : List PacketInfo := []
  counted : List Outcome := []
  ratios : List ℚ := []

def Ledger.record (ledger : Ledger) (event : Call) : Option Ledger :=
  some
    { control := ledger.control.call event
      sent := ledger.sent ++ (transmission event).toList
      counted := ledger.counted ++ (ledger.control.counted event).toList
      ratios := ledger.ratios ++ (ledger.control.computed event).toList }

/-- The counted outcomes are cut into windows of 100. The two counters measure the open
window, and each ratio is the part of one closed window that was lost. -/
structure Measured (ledger : Ledger) (windows : TumblingWindow Outcome 100) : Prop where
  counted : windows.items = ledger.counted
  packets : ledger.control.packetsSinceLastLossUpdate.toNat = windows.current.length
  lost : ledger.control.lostPackets.toNat = windows.current.count .lost
  ratios : ledger.ratios = windows.closed.map fun window => (window.count .lost : ℚ) / 100

structure Accounted (ledger : Ledger) : Prop where
  part : ledger.control.lostPackets ≤ ledger.control.packetsSinceLastLossUpdate
  below : ledger.control.packetsSinceLastLossUpdate ≤ 99
  windows : ∃ windows, Measured ledger windows
  unit : ∀ ratio ∈ ledger.ratios, 0 ≤ ratio ∧ ratio ≤ 1
  short : ledger.control.history.length ≤ 1000
  held : ledger.control.history.Sublist ledger.sent

theorem call_estimated {control entered : GoogleCongestionControl}
    (found : control.estimated event = some entered) :
    control.call event = entered.updateBitrateEstimate := by
  cases event with
  | onPacketAcked sequenceNumber receiveTime =>
    cases held : control.entry sequenceNumber with
    | none =>
      simp only [estimated, held, Option.some.injEq] at found
      simp only [call, onPacketAcked, held]
      rw [found]
    | some info =>
      simp only [estimated, held, Option.some.injEq] at found
      simp only [call, onPacketAcked, held]
      rw [found]
  | onPacketLost sequenceNumber =>
    cases Option.some.inj found
    rfl
  | onPacketSent | setMinBitrate | setMaxBitrate => contradiction

theorem measure_counters (control : GoogleCongestionControl) (info : PacketInfo)
    (receiveTime : Timestamp) :
    (control.measure info receiveTime).packetsSinceLastLossUpdate =
      control.packetsSinceLastLossUpdate ∧
    (control.measure info receiveTime).lostPackets = control.lostPackets := by
  rw [measure_eq]
  exact ⟨rfl, rfl⟩

theorem toNat_succ {count : UInt64} (few : count.toNat < 100) :
    (count + 1).toNat = count.toNat + 1 := by
  have one : (1 : UInt64).toNat = 1 := rfl
  rw [UInt64.toNat_add, one]
  exact Nat.mod_eq_of_lt (by omega)

/-- A counted outcome has advanced the counters when the estimate runs. -/
theorem estimated_of_counted {control : GoogleCongestionControl} (counting : Counting control)
    (part : control.lostPackets.toNat ≤ control.packetsSinceLastLossUpdate.toNat)
    (hit : control.counted event = some outcome) :
    ∃ entered, control.estimated event = some entered ∧
      entered.packetsSinceLastLossUpdate.toNat = control.packetsSinceLastLossUpdate.toNat + 1 ∧
      entered.lostPackets.toNat = control.lostPackets.toNat + [outcome].count .lost := by
  have packets := toNat_succ counting
  cases event with
  | onPacketAcked sequenceNumber receiveTime =>
    obtain ⟨info, found, rfl⟩ := Option.map_eq_some_iff.mp hit
    obtain ⟨same, lost⟩ := measure_counters control info receiveTime
    simp only [estimated, found, Option.some.injEq, exists_eq_left', same, lost, packets,
      true_and]
    rfl
  | onPacketLost sequenceNumber =>
    cases Option.some.inj hit
    exact ⟨_, rfl, packets, toNat_succ (part.trans_lt counting)⟩
  | onPacketSent | setMinBitrate | setMaxBitrate => contradiction

/-- Where nothing is counted, the estimate runs on the state before the call or not
at all. -/
theorem estimated_of_uncounted {control : GoogleCongestionControl}
    (miss : control.counted event = none) :
    control.estimated event = some control ∨ control.estimated event = none ∧
      (control.call event).packetsSinceLastLossUpdate = control.packetsSinceLastLossUpdate ∧
      (control.call event).lostPackets = control.lostPackets := by
  cases event with
  | onPacketAcked sequenceNumber receiveTime =>
    have missing : control.entry sequenceNumber = none := Option.map_eq_none_iff.mp miss
    simp only [estimated, missing, true_or]
  | onPacketLost sequenceNumber => contradiction
  | onPacketSent | setMinBitrate | setMaxBitrate => exact Or.inr ⟨rfl, rfl, rfl⟩

theorem updateBitrateEstimate_counters {control : GoogleCongestionControl}
    (counting : Counting control) :
    control.updateBitrateEstimate.packetsSinceLastLossUpdate = control.packetsSinceLastLossUpdate ∧
    control.updateBitrateEstimate.lostPackets = control.lostPackets := by
  rw [updateBitrateEstimate_eq counting]
  exact ⟨rfl, rfl⟩

theorem delayBased_counters (control : GoogleCongestionControl) :
    control.delayBased.packetsSinceLastLossUpdate = control.packetsSinceLastLossUpdate ∧
    control.delayBased.lostPackets = control.lostPackets := by
  rw [delayBased_eq]
  exact ⟨rfl, rfl⟩

theorem updateBitrateEstimate_full {control : GoogleCongestionControl}
    (full : 100 ≤ control.packetsSinceLastLossUpdate) :
    control.updateBitrateEstimate.packetsSinceLastLossUpdate = 0 ∧
    control.updateBitrateEstimate.lostPackets = 0 ∧
    control.updateBitrateEstimate.lossRatio =
      control.lostPackets.toNat / control.packetsSinceLastLossUpdate.toNat := by
  obtain ⟨packets, lost⟩ := delayBased_counters control
  unfold updateBitrateEstimate lossBased
  rw [packets, lost, if_pos full]
  exact ⟨rfl, rfl, rfl⟩

theorem Counting.not_full {control : GoogleCongestionControl} (counting : Counting control) :
    ¬ 100 ≤ control.packetsSinceLastLossUpdate := by
  intro full
  have many : 100 ≤ control.packetsSinceLastLossUpdate.toNat := UInt64.le_iff_toNat_le.mp full
  exact absurd counting (Nat.not_lt.mpr many)

theorem call_uncounted {control : GoogleCongestionControl} (counting : Counting control)
    (miss : control.counted event = none) :
    control.computed event = none ∧
      (control.call event).packetsSinceLastLossUpdate = control.packetsSinceLastLossUpdate ∧
      (control.call event).lostPackets = control.lostPackets := by
  rcases estimated_of_uncounted miss with same | ⟨absent, counters⟩
  · rw [computed, same, Option.bind_some, if_neg counting.not_full, call_estimated same]
    exact ⟨rfl, updateBitrateEstimate_counters counting⟩
  · rw [computed, absent]
    exact ⟨rfl, counters⟩

theorem call_counted_open {control : GoogleCongestionControl}
    (room : control.packetsSinceLastLossUpdate.toNat + 1 < 100)
    (part : control.lostPackets.toNat ≤ control.packetsSinceLastLossUpdate.toNat)
    (hit : control.counted event = some outcome) :
    control.computed event = none ∧
      (control.call event).packetsSinceLastLossUpdate.toNat =
        control.packetsSinceLastLossUpdate.toNat + 1 ∧
      (control.call event).lostPackets.toNat =
        control.lostPackets.toNat + [outcome].count .lost := by
  have counting : Counting control := Nat.lt_of_succ_lt room
  obtain ⟨entered, found, packets, lost⟩ := estimated_of_counted counting part hit
  have counting' : Counting entered := packets.trans_lt room
  obtain ⟨packets', lost'⟩ := updateBitrateEstimate_counters counting'
  rw [computed, found, Option.bind_some, if_neg counting'.not_full, call_estimated found, packets',
    lost']
  exact ⟨rfl, packets, lost⟩

theorem call_counted_last {control : GoogleCongestionControl}
    (last : control.packetsSinceLastLossUpdate.toNat + 1 = 100)
    (part : control.lostPackets.toNat ≤ control.packetsSinceLastLossUpdate.toNat)
    (hit : control.counted event = some outcome) :
    control.computed event =
        some (((control.lostPackets.toNat + [outcome].count .lost : Nat) : ℚ) / 100) ∧
      (control.call event).packetsSinceLastLossUpdate = 0 ∧
      (control.call event).lostPackets = 0 := by
  have counting : Counting control := Nat.lt_of_succ_le last.le
  obtain ⟨entered, found, packets, lost⟩ := estimated_of_counted counting part hit
  have full : 100 ≤ entered.packetsSinceLastLossUpdate :=
    UInt64.le_iff_toNat_le.mpr (packets.trans last).ge
  obtain ⟨packets', lost', ratio⟩ := updateBitrateEstimate_full full
  rw [packets, last, lost] at ratio
  rw [computed, found, Option.bind_some, if_pos full, call_estimated found, ratio]
  exact ⟨rfl, packets', lost'⟩

theorem Measured.part {ledger : Ledger} {windows : TumblingWindow Outcome 100}
    (measured : Measured ledger windows) :
    ledger.control.lostPackets.toNat ≤ ledger.control.packetsSinceLastLossUpdate.toNat := by
  rw [measured.lost, measured.packets]
  exact List.count_le_length

theorem Measured.counting {ledger : Ledger} {windows : TumblingWindow Outcome 100}
    (measured : Measured ledger windows) : Counting ledger.control :=
  measured.packets.trans_lt windows.short

theorem Measured.record {ledger next : Ledger} {windows : TumblingWindow Outcome 100}
    (measured : Measured ledger windows) (recorded : ledger.record event = some next) :
    ∃ windows, Measured next windows := by
  cases Option.some.inj recorded
  cases hit : ledger.control.counted event with
  | none =>
    obtain ⟨computed, packets, lost⟩ := call_uncounted measured.counting hit
    refine ⟨windows, ?_, ?_, ?_, ?_⟩
    · simp only [Option.toList_none, List.append_nil, measured.counted]
    · simp only [packets, measured.packets]
    · simp only [lost, measured.lost]
    · simp only [computed, Option.toList_none, List.append_nil, measured.ratios]
  | some outcome =>
    rcases windows.room_or_last with room | last
    · obtain ⟨computed, packets, lost⟩ :=
        call_counted_open (measured.packets ▸ room) measured.part hit
      refine ⟨windows.fill outcome room, ?_, ?_, ?_, ?_⟩
      · simp only [TumblingWindow.fill_items, Option.toList_some, measured.counted]
      · simp only [packets, measured.packets, TumblingWindow.fill, List.length_append,
          List.length_singleton]
      · simp only [lost, measured.lost, TumblingWindow.fill, List.count_append]
      · simp only [computed, Option.toList_none, List.append_nil, measured.ratios,
          TumblingWindow.fill]
    · obtain ⟨computed, packets, lost⟩ :=
        call_counted_last (measured.packets ▸ last) measured.part hit
      refine ⟨windows.close outcome last, ?_, ?_, ?_, ?_⟩
      · simp only [TumblingWindow.close_items, Option.toList_some, measured.counted]
      · simp only [packets]
        rfl
      · simp only [lost]
        rfl
      · simp only [computed, Option.toList_some, measured.ratios, measured.lost,
          TumblingWindow.close, List.map_append, List.map_cons, List.map_nil, List.count_append]

theorem call_history {control : GoogleCongestionControl} {sent : List PacketInfo}
    (short : control.history.length ≤ 1000) (held : control.history.Sublist sent) (event : Call) :
    (control.call event).history.length ≤ 1000 ∧
      (control.call event).history.Sublist (sent ++ (transmission event).toList) := by
  cases event with
  | onPacketSent sequenceNumber size sendTime =>
    simp only [call, onPacketSent, transmission, Option.toList_some, List.length_append,
      List.length_singleton]
    split
    case isTrue full =>
      constructor
      · rw [List.length_tail]
        omega
      · exact ((List.tail_sublist _).trans held).append_right _
    case isFalse room =>
      constructor
      · omega
      · exact held.append_right _
  | onPacketAcked sequenceNumber receiveTime =>
    simp only [call, Flow.onPacketAcked_history, transmission, Option.toList_none, List.append_nil]
    constructor
    · exact List.eraseP_sublist.length_le.trans short
    · exact List.eraseP_sublist.trans held
  | onPacketLost sequenceNumber =>
    simp only [call, onPacketLost, Flow.updateBitrateEstimate_history, transmission,
      Option.toList_none, List.append_nil]
    exact ⟨short, held⟩
  | setMinBitrate | setMaxBitrate =>
    simp only [transmission, Option.toList_none, List.append_nil]
    exact ⟨short, held⟩

theorem Measured.accounted {ledger : Ledger} {windows : TumblingWindow Outcome 100}
    (measured : Measured ledger windows) (short : ledger.control.history.length ≤ 1000)
    (held : ledger.control.history.Sublist ledger.sent) : Accounted ledger where
  part := UInt64.le_iff_toNat_le.mpr measured.part
  below := UInt64.le_iff_toNat_le.mpr (Nat.le_of_lt_succ measured.counting)
  windows := ⟨windows, measured⟩
  unit := by
    intro ratio member
    rw [measured.ratios] at member
    obtain ⟨window, closed, rfl⟩ := List.mem_map.mp member
    exact windows.share_unit .lost window closed
  short := short
  held := held

theorem Accounted.record {ledger next : Ledger} (accounted : Accounted ledger)
    (recorded : ledger.record event = some next) : Accounted next := by
  obtain ⟨windows, measured⟩ := accounted.windows
  obtain ⟨windows', measured'⟩ := measured.record recorded
  obtain ⟨short, held⟩ := call_history accounted.short accounted.held event
  cases Option.some.inj recorded
  exact measured'.accounted short held

theorem start_accounted : Accounted {} := by
  have measured : Measured {} (.start (by decide)) := ⟨rfl, rfl, rfl, rfl⟩
  exact measured.accounted (Nat.zero_le _) (List.Sublist.refl _)

/-- After every call, the losses counted are a part of fewer than 100 outcomes, each
ratio so far is the share of the losses among 100 consecutive outcomes, and the history
is among the packets sent. -/
theorem accounted_throughout (calls : List Call) :
    (∃ ledger, run Ledger.record {} calls = some ledger ∧
      run step {} calls = some ledger.control) ∧
    Throughout Ledger.record Accounted {} calls := by
  have total : ∀ (ledger : Ledger) event, ∃ next, ledger.record event = some next :=
    fun _ _ => ⟨_, rfl⟩
  constructor
  · obtain ⟨ledger, reached⟩ := run_total total {} calls
    refine ⟨ledger, reached, run_map Ledger.control ?_ reached⟩
    intro ledger event next recorded
    cases Option.some.inj recorded
    rfl
  · intro before ledger _ reached
    exact run_invariant (fun _ _ _ => Accounted.record) start_accounted reached

end UltraDisplay.GoogleCongestionControl
