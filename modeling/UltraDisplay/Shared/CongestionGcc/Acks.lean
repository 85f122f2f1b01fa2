import UltraDisplay.Shared.CongestionGcc
import Mathlib.Data.List.Count

/-! Which transmission an acknowledgement is matched to. Packets are numbered
consecutively modulo 2^16, and each is reported at most once, before 1000 further
packets are sent. Entries of lost packets stay in the history until evicted. -/
namespace UltraDisplay.GoogleCongestionControl
open Transition

/-- A controller with its flow: packet `n` is the element of `sent` at `n`, and
`first` is the sequence number of packet 0. -/
structure Flow where
  control : GoogleCongestionControl := {}
  first : UInt16 := 0
  sent : List PacketInfo := []
  reported : List Nat := []

inductive FlowEvent where
  | sent (size : UInt64) (sendTime : Timestamp)
  | acked (packet : Nat) (receiveTime : Timestamp)
  | lost (packet : Nat)

namespace Flow

def number (flow : Flow) (packet : Nat) : UInt16 := flow.first + UInt16.ofNat packet

structure Reportable (flow : Flow) (packet : Nat) : Prop where
  sent : packet < flow.sent.length
  recent : flow.sent.length - (packet + 1) < 1000
  unreported : packet ∉ flow.reported

instance (flow : Flow) (packet : Nat) : Decidable (flow.Reportable packet) :=
  decidable_of_iff
    (packet < flow.sent.length ∧ flow.sent.length - (packet + 1) < 1000 ∧ packet ∉ flow.reported)
    ⟨fun ⟨sent, recent, unreported⟩ => ⟨sent, recent, unreported⟩,
      fun ⟨sent, recent, unreported⟩ => ⟨sent, recent, unreported⟩⟩

def step (flow : Flow) : FlowEvent → Option Flow
  | .sent size sendTime =>
    let sequenceNumber := flow.number flow.sent.length
    some
      { flow with
        control := flow.control.onPacketSent sequenceNumber size sendTime
        sent := flow.sent ++ [{ sequenceNumber, size, sendTime }] }
  | .acked packet receiveTime =>
    if flow.Reportable packet then
      some
        { flow with
          control := flow.control.onPacketAcked (flow.number packet) receiveTime
          reported := packet :: flow.reported }
    else none
  | .lost packet =>
    if flow.Reportable packet then
      some
        { flow with
          control := flow.control.onPacketLost (flow.number packet)
          reported := packet :: flow.reported }
    else none

/-- The most recent transmission with the number. -/
def latest (flow : Flow) (sequenceNumber : UInt16) : Option PacketInfo :=
  flow.sent.reverse.find? fun info => info.sequenceNumber = sequenceNumber

/-- An entry that `on_packet_acked` finds has the send time of the most recent
transmission numbered so. -/
def Matched (flow : Flow) (event : FlowEvent) (_ : Flow) : Prop :=
  ∀ packet receiveTime, event = .acked packet receiveTime →
    ∀ info, flow.control.entry (flow.number packet) = some info →
      ∃ latest, flow.latest (flow.number packet) = some latest ∧ info.sendTime = latest.sendTime

/-- An acknowledged number has one entry in the history at most. -/
def Unambiguous (flow : Flow) : FlowEvent → Prop
  | .acked packet _ =>
    flow.control.history.countP (fun info => info.sequenceNumber = flow.number packet) ≤ 1
  | _ => True

instance (flow : Flow) (event : FlowEvent) : Decidable (Unambiguous flow event) := by
  cases event <;> (unfold Unambiguous; infer_instance)

/-- The history holds the packets of `held`, in order, among them every packet of
the last 1000 that is not reported yet. -/
structure Tracks (flow : Flow) (held : List Nat) : Prop where
  entries : held.map (flow.sent[·]?) = flow.control.history.map some
  increasing : held.Pairwise (· < ·)
  short : held.length ≤ 1000
  numbered : ∀ packet info, flow.sent[packet]? = some info →
    info.sequenceNumber = flow.number packet
  present : ∀ packet < flow.sent.length, flow.sent.length ≤ packet + 1000 →
    packet ∉ flow.reported → packet ∈ held

theorem number_inj {flow : Flow} {packet other : Nat} (same : flow.number packet = flow.number other)
    (near : packet < other + 65536) (near' : other < packet + 65536) : packet = other := by
  have values := congrArg UInt16.toNat same
  simp only [number, UInt16.toNat_add, UInt16.toNat_ofNat'] at values
  omega

theorem Tracks.sent_of_held {flow : Flow} (tracks : Tracks flow held) (member : packet ∈ held) :
    packet < flow.sent.length := by
  have mapped : flow.sent[packet]? ∈ held.map (flow.sent[·]?) := List.mem_map_of_mem member
  rw [tracks.entries] at mapped
  obtain ⟨info, _, found⟩ := List.mem_map.mp mapped
  exact (List.getElem?_eq_some_iff.mp found.symm).1

theorem head_room {head bound : Nat} {rest : List Nat}
    (increasing : (head :: rest).Pairwise (· < ·)) (below : ∀ packet ∈ head :: rest, packet < bound) :
    head + rest.length < bound := by
  induction rest generalizing head with
  | nil => exact below head (by simp)
  | cons next rest ih =>
    obtain ⟨first, increasing⟩ := List.pairwise_cons.mp increasing
    have room := ih increasing fun packet member => below packet (by simp [member])
    have smaller := first next (by simp)
    simp only [List.length_cons]
    omega

/-- Eviction takes the oldest entry, which is not among the last 999 packets. -/
theorem Tracks.evict {flow : Flow} (tracks : Tracks flow held) :
    ∃ kept : List Nat, kept.Sublist held ∧ kept.length < 1000 ∧
      kept.map (flow.sent[·]?) = (if 1000 ≤ flow.control.history.length
        then flow.control.history.tail else flow.control.history).map some ∧
      ∀ packet ∈ held, flow.sent.length < packet + 1000 → packet ∈ kept := by
  have lengths : held.length = flow.control.history.length := by
    simpa using congrArg List.length tracks.entries
  split
  case isTrue full =>
    refine ⟨held.tail, List.tail_sublist held, ?_, ?_, ?_⟩
    · have short := tracks.short
      rw [List.length_tail]
      omega
    · rw [List.map_tail, tracks.entries, List.map_tail]
    · intro packet member recent
      cases held with
      | nil => contradiction
      | cons head rest =>
        have room := head_room tracks.increasing fun packet member => tracks.sent_of_held member
        rw [← lengths, List.length_cons] at full
        rcases List.mem_cons.mp member with rfl | member
        · omega
        · exact member
  case isFalse space =>
    exact ⟨held, List.Sublist.refl held, by omega, tracks.entries, fun _ member _ => member⟩

theorem step_sent_tracks {flow : Flow} (tracks : Tracks flow held)
    (stepped : step flow (.sent size sendTime) = some next) : ∃ held, Tracks next held := by
  cases Option.some.inj stepped
  obtain ⟨kept, sub, short, entries, recent⟩ := tracks.evict
  have below : ∀ packet ∈ kept, packet < flow.sent.length :=
    fun packet member => tracks.sent_of_held (sub.subset member)
  refine ⟨kept ++ [flow.sent.length], ?_, ?_, ?_, ?_, ?_⟩
  · have same : kept.map ((flow.sent ++ [⟨flow.number flow.sent.length, size, sendTime⟩])[·]?) =
        kept.map (flow.sent[·]?) :=
      List.map_congr_left fun packet member => List.getElem?_append_left (below packet member)
    simp only [onPacketSent, List.map_append, same, entries]
    simp
  · refine List.pairwise_append.mpr ⟨tracks.increasing.sublist sub, by simp, ?_⟩
    simpa using below
  · simp only [List.length_append, List.length_cons, List.length_nil]
    omega
  · intro packet info found
    by_cases old : packet < flow.sent.length
    · rw [List.getElem?_append_left old] at found
      exact tracks.numbered packet info found
    · rw [List.getElem?_append_right (by omega)] at found
      obtain ⟨index, rfl⟩ := List.getElem?_eq_some_iff.mp found
      simp only [List.length_cons, List.length_nil] at index
      have last : packet = flow.sent.length := by omega
      simp [last, number]
  · intro packet sent window unreported
    simp only [List.length_append, List.length_cons, List.length_nil] at sent window
    simp only [List.mem_append, List.mem_singleton]
    by_cases old : packet < flow.sent.length
    · exact Or.inl (recent packet (tracks.present packet old (by omega) unreported) (by omega))
    · exact Or.inr (by omega)

theorem updateBitrateEstimate_history (control : GoogleCongestionControl) :
    control.updateBitrateEstimate.history = control.history := by
  have loss : ∀ control : GoogleCongestionControl, control.lossBased.history = control.history := by
    intro control
    unfold lossBased
    split <;> rfl
  have delay : control.delayBased.history = control.history := by rw [delayBased_eq]
  exact (loss _).trans delay

theorem onPacketAcked_history (control : GoogleCongestionControl) (sequenceNumber : UInt16)
    (receiveTime : Timestamp) :
    (control.onPacketAcked sequenceNumber receiveTime).history =
      control.history.eraseP fun info => info.sequenceNumber = sequenceNumber := by
  unfold onPacketAcked
  split
  case h_1 missing =>
    rw [updateBitrateEstimate_history, List.eraseP_of_forall_not]
    simpa [entry] using missing
  case h_2 info found =>
    rw [updateBitrateEstimate_history, measure_eq]

theorem step_acked_tracks {flow : Flow} (tracks : Tracks flow held)
    (stepped : step flow (.acked packet receiveTime) = some next) : ∃ held, Tracks next held := by
  simp only [step] at stepped
  split at stepped
  case isFalse => contradiction
  case isTrue reportable =>
    cases Option.some.inj stepped
    let numbered : Option PacketInfo → Bool :=
      fun found => found.any fun info => info.sequenceNumber = flow.number packet
    refine ⟨held.eraseP (numbered ∘ (flow.sent[·]?)), ?_, ?_, ?_, tracks.numbered, ?_⟩
    · rw [onPacketAcked_history, ← List.eraseP_map, tracks.entries, List.eraseP_map]
      rfl
    · exact tracks.increasing.sublist (List.eraseP_sublist)
    · exact (List.eraseP_sublist.length_le).trans tracks.short
    · intro other sent window unreported
      dsimp only at sent window
      simp only [List.mem_cons, not_or] at unreported
      have member := tracks.present other sent window unreported.2
      apply (List.mem_eraseP_of_neg ?_).mpr member
      have found := List.getElem?_eq_getElem sent
      have recent := reportable.recent
      have bound := reportable.sent
      simp only [Function.comp_apply, found, numbered, Option.any_some, decide_eq_true_eq,
        tracks.numbered other _ found]
      intro same
      exact unreported.1 (number_inj same (by omega) (by omega))

theorem step_lost_tracks {flow : Flow} (tracks : Tracks flow held)
    (stepped : step flow (.lost packet) = some next) : ∃ held, Tracks next held := by
  simp only [step] at stepped
  split at stepped
  case isFalse => contradiction
  case isTrue reportable =>
    cases Option.some.inj stepped
    refine ⟨held, ?_, tracks.increasing, tracks.short, tracks.numbered, ?_⟩
    · simp only [onPacketLost, updateBitrateEstimate_history]
      exact tracks.entries
    · intro other sent window unreported
      exact tracks.present other sent window fun member => unreported (by simp [member])

theorem step_tracks {flow next : Flow} (tracks : ∃ held, Tracks flow held)
    (stepped : step flow event = some next) : ∃ held, Tracks next held := by
  obtain ⟨held, tracks⟩ := tracks
  cases event with
  | sent size sendTime => exact step_sent_tracks tracks stepped
  | acked packet receiveTime => exact step_acked_tracks tracks stepped
  | lost packet => exact step_lost_tracks tracks stepped

theorem countP_le_one_unique {α : Type*} {p : α → Bool} {l : List α} {a b : α}
    (few : l.countP p ≤ 1) (memberA : a ∈ l) (memberB : b ∈ l) (holdsA : p a) (holdsB : p b) :
    a = b := by
  have filtered : (l.filter p).length ≤ 1 := List.countP_eq_length_filter ▸ few
  have inA : a ∈ l.filter p := List.mem_filter.mpr ⟨memberA, holdsA⟩
  have inB : b ∈ l.filter p := List.mem_filter.mpr ⟨memberB, holdsB⟩
  match same : l.filter p, filtered with
  | [], _ => simp [same] at inA
  | [c], _ =>
    rw [same, List.mem_singleton] at inA inB
    exact inA.trans inB.symm

/-- The transmission of a packet is the latest with its number for 2^16 packets. -/
theorem Tracks.latest_eq {flow : Flow} (tracks : Tracks flow held)
    (found : flow.sent[packet]? = some info) (near : flow.sent.length ≤ packet + 65536) :
    flow.latest (flow.number packet) = some info := by
  obtain ⟨bound, value⟩ := List.getElem?_eq_some_iff.mp found
  have split : flow.sent = flow.sent.take packet ++ info :: flow.sent.drop (packet + 1) := by
    rw [← value, List.cons_getElem_drop_succ, List.take_append_drop]
  have later : ∀ other ∈ flow.sent.drop (packet + 1), other.sequenceNumber ≠ flow.number packet := by
    intro other member same
    obtain ⟨index, inside, rfl⟩ := List.mem_iff_getElem.mp member
    rw [List.getElem_drop] at same
    rw [List.length_drop] at inside
    have numbered := tracks.numbered (packet + 1 + index) _ (List.getElem?_eq_getElem (by omega))
    have equal := number_inj (numbered.symm.trans same) (by omega) (by omega)
    omega
  unfold latest
  rw [split, List.reverse_append, List.reverse_cons, List.append_assoc, List.find?_append,
    List.find?_eq_none.mpr (by simpa using later)]
  simp [tracks.numbered packet info found]

theorem matched_of_tracks {flow next : Flow} (tracks : ∃ held, Tracks flow held)
    (unambiguous : Unambiguous flow event) (stepped : step flow event = some next) :
    Matched flow event next := by
  rintro packet receiveTime rfl info found
  obtain ⟨held, tracks⟩ := tracks
  simp only [step] at stepped
  split at stepped
  case isFalse => contradiction
  case isTrue reportable =>
    have recent := reportable.recent
    have bound := reportable.sent
    have member := tracks.present packet bound (by omega) reportable.unreported
    obtain ⟨own, transmitted⟩ : ∃ own, flow.sent[packet]? = some own :=
      ⟨_, List.getElem?_eq_getElem bound⟩
    have held_own : own ∈ flow.control.history := by
      have mapped : flow.sent[packet]? ∈ held.map (flow.sent[·]?) := List.mem_map_of_mem member
      rw [tracks.entries, transmitted] at mapped
      obtain ⟨other, inside, same⟩ := List.mem_map.mp mapped
      exact Option.some.inj same ▸ inside
    have hit := List.find?_some found
    have same : info = own := countP_le_one_unique unambiguous (List.mem_of_find?_eq_some found)
      held_own hit (decide_eq_true (tracks.numbered packet own transmitted))
    exact ⟨own, tracks.latest_eq transmitted (by omega), congrArg _ same⟩

theorem start_tracks (first : UInt16) : Tracks { first } [] := by
  constructor <;> simp

/-- A number with a single entry belongs to the packet reported, since an entry
lasts for 1000 packets if nothing else takes it away. -/
theorem matched_of_unambiguous (first : UInt16) (events : List FlowEvent)
    (unambiguous : Guarded step Unambiguous { first } events) :
    EveryStep step Matched { first } events :=
  everyStep_guarded (I := fun flow => ∃ held, Tracks flow held)
    (fun _ _ _ tracks _ => step_tracks tracks) (fun _ _ _ => matched_of_tracks) unambiguous
    ⟨[], start_tracks first⟩

/-- One packet lost, one acknowledged, across the wrap of the numbers. -/
theorem matched_of_unambiguous_wrap :
    EveryStep step Matched { first := 65535 }
      [.sent 1200 100, .sent 1200 200, .lost 0, .acked 1 300] :=
  matched_of_unambiguous 65535 [.sent 1200 100, .sent 1200 200, .lost 0, .acked 1 300] (by decide)

/-- Packet 0 is lost, and each of the following is acknowledged before the next is sent. -/
def firstLost (count : Nat) : List FlowEvent :=
  [.sent 1200 1, .lost 0] ++ (List.range count).flatMap fun packet =>
    [.sent 1200 (UInt64.ofNat (packet + 2)), .acked (packet + 1) (UInt64.ofNat (packet + 3))]

/-- Only the lost packet is left in the history. -/
structure Leftover (flow : Flow) (count : Nat) : Prop where
  first : flow.first = 0
  history : flow.control.history = [⟨0, 1200, 1⟩]
  length : flow.sent.length = count + 1
  reported : ∀ packet ∈ flow.reported, packet ≤ count

theorem Leftover.turn {flow : Flow} (left : Leftover flow count) (fits : count + 1 < 65536)
    (sendTime receiveTime : Timestamp) : ∃ next, run step flow
      [.sent 1200 sendTime, .acked (count + 1) receiveTime] = some next ∧
      Leftover next (count + 1) := by
  have other : ¬ (0 : UInt16) = flow.number (count + 1) := by
    intro zero
    have value := congrArg UInt16.toNat zero
    simp only [number, left.first, UInt16.toNat_add, UInt16.toNat_ofNat', UInt16.toNat_zero] at value
    omega
  let mid : Flow :=
    { flow with
      control := flow.control.onPacketSent (flow.number (count + 1)) 1200 sendTime
      sent := flow.sent ++ [⟨flow.number (count + 1), 1200, sendTime⟩] }
  have sent : step flow (.sent 1200 sendTime) = some mid := by
    simp only [step, left.length]
    rfl
  have reportable : mid.Reportable (count + 1) := by
    refine ⟨?_, ?_, fun member => ?_⟩
    · simp [mid, left.length]
    · simp [mid, left.length]
    · have := left.reported _ member
      omega
  have history : mid.control.history =
      [⟨0, 1200, 1⟩, ⟨flow.number (count + 1), 1200, sendTime⟩] := by
    simp [mid, onPacketSent, left.history]
  refine ⟨_, by rw [run_cons, sent, Option.bind_some, run_cons, step, if_pos reportable]; rfl, ?_⟩
  refine ⟨left.first, ?_, ?_, ?_⟩
  · rw [onPacketAcked_history, history]
    have same : mid.number (count + 1) = flow.number (count + 1) := rfl
    simp [same, other]
  · simp [mid, left.length]
  · intro packet member
    rcases List.mem_cons.mp member with rfl | member
    · exact Nat.le_refl _
    · exact (left.reported packet member).trans (Nat.le_succ _)

theorem firstLost_leftover {count : Nat} (fits : count < 65536) :
    ∃ flow, run step {} (firstLost count) = some flow ∧ Leftover flow count := by
  induction count with
  | zero =>
    refine ⟨_, rfl, rfl, rfl, rfl, ?_⟩
    simp
  | succ count ih =>
    obtain ⟨flow, reached, left⟩ := ih (by omega)
    obtain ⟨next, turned, left⟩ :=
      left.turn fits (UInt64.ofNat (count + 2)) (UInt64.ofNat (count + 3))
    have more : firstLost (count + 1) = firstLost count ++
        [.sent 1200 (UInt64.ofNat (count + 2)), .acked (count + 1) (UInt64.ofNat (count + 3))] := by
      simp [firstLost, List.range_succ]
    refine ⟨next, ?_, left⟩
    rw [more, run_append, reached]
    exact turned

/-- Packet 65536 is numbered like the lost packet 0, whose entry is found instead. -/
theorem lost_entry_matched : ¬ EveryStep step Matched {}
    (firstLost 65535 ++ [.sent 1200 70000, .acked 65536 70100]) := by
  intro every
  obtain ⟨flow, reached, left⟩ := firstLost_leftover (by decide : 65535 < 65536)
  have wrapped : flow.number 65536 = 0 := by
    rw [number, left.first]
    rfl
  let last : Flow :=
    { flow with
      control := flow.control.onPacketSent 0 1200 70000
      sent := flow.sent ++ [⟨0, 1200, 70000⟩] }
  have sent : step flow (.sent 1200 70000) = some last := by
    simp only [step, left.length, wrapped]
    rfl
  have reportable : last.Reportable 65536 := by
    refine ⟨?_, ?_, fun member => ?_⟩
    · simp [last, left.length]
    · simp [last, left.length]
    · have := left.reported _ member
      omega
  have arrived : run step {} (firstLost 65535 ++ [.sent 1200 70000]) = some last := by
    rw [run_append, reached, Option.bind_some, run_cons, sent]
    rfl
  have zero : last.number 65536 = 0 := wrapped
  have found : last.control.entry (last.number 65536) = some ⟨0, 1200, 1⟩ := by
    rw [zero]
    simp [entry, last, onPacketSent, left.history]
  have newest : last.latest (last.number 65536) = some ⟨0, 1200, 70000⟩ := by
    rw [zero]
    simp [Flow.latest, last]
  obtain ⟨latest, most, same⟩ := every _ (.acked 65536 70100) last _ (by simp) arrived
    (if_pos reportable) 65536 70100 rfl _ found
  cases Option.some.inj (most.symm.trans newest)
  revert same
  decide

end Flow
end UltraDisplay.GoogleCongestionControl
