import UltraDisplay.Shared.Fec.Erasure
import UltraDisplay.Shared.Fec.Groups

/-! How a receiver restores a lost packet at the low level: it takes the packets it has
out of the parity. Offset by offset, the bytes of the lost packet are what is left. -/
namespace UltraDisplay.FecEncoder
open Fec LittleEndian

/-- The packets that further calls of `encode` return, and the encoder after them. -/
def encodeAll (encoder : FecEncoder) : Group → Option (List Packet × FecEncoder)
  | [] => some ([], encoder)
  | (header, payload) :: group =>
    (encoder.encode header payload).bind fun (fecPackets, encoder) =>
      (encodeAll encoder group).map fun (later, encoder) => (fecPackets ++ later, encoder)

def padded (length : Nat) (packet : Packet) : Packet :=
  packet ++ List.replicate (length - packet.length) 0

/-- The parity with the packets received taken out of it, padded to its length. -/
def restored (parity : Packet) (received : List Packet) : Packet :=
  (received.map (padded parity.length)).foldl (fun sum packet => xorInto packet sum) parity

def payloadLengthOf (packet : Packet) : Nat := value ((packet.drop 16).take 2)

theorem padded_getD (length : Nat) (packet : Packet) (offset : Nat) :
    (padded length packet).getD offset 0 = packet.getD offset 0 := by
  rw [List.getD_eq_getElem?_getD, List.getD_eq_getElem?_getD, padded, List.getElem?_append]
  split
  case isTrue => rfl
  case isFalse outside =>
    rw [List.getElem?_replicate, List.getElem?_eq_none (Nat.le_of_not_lt outside)]
    split <;> rfl

theorem column_padded (length offset : Nat) (packets : List Packet) :
    column offset (packets.map (padded length)) = column offset packets := by
  unfold column
  rw [List.map_map]
  exact congrArg _ (List.map_congr_left fun packet _ => padded_getD length packet offset)

theorem padded_getElem? {packet : Packet} (fits : packet.length ≤ length) (offset : Nat) :
    (padded length packet)[offset]? =
      if offset < length then some (packet.getD offset 0) else none := by
  have size : (padded length packet).length = length := by
    simp [padded, fits]
  split
  case isTrue inside =>
    have within : offset < (padded length packet).length := by omega
    rw [← padded_getD length, List.getD_eq_getElem _ _ within]
    exact List.getElem?_eq_getElem within
  case isFalse outside =>
    exact List.getElem?_eq_none (by omega)

theorem markFec_length (groupId : UInt8) (parity : Packet) :
    (markFec groupId parity).length = parity.length := by
  unfold markFec
  split
  · rw [List.length_set, List.length_set]
  · rfl

theorem foldl_xorInto_length (packets : List Packet) (parity : Packet) :
    (packets.foldl (fun parity packet => xorInto packet parity) parity).length = parity.length := by
  have pointwise := foldl_xorInto_getElem? packets parity
  apply Nat.le_antisymm
  · have last := pointwise parity.length
    rw [List.getElem?_eq_none (le_refl _), Option.map_none] at last
    exact List.getElem?_eq_none_iff.mp last
  · have last := (pointwise _).symm.trans (List.getElem?_eq_none (le_refl _))
    exact List.getElem?_eq_none_iff.mp (Option.map_eq_none_iff.mp last)

theorem xorAll_length (packets : List Packet) : (xorAll packets).length = maxLen packets := by
  rw [xorAll, foldl_xorInto_length, List.length_replicate]

/-- Off the overwritten bytes, what is left of the parity is the lost packet. -/
theorem restored_getElem? {packets : List Packet} {lost : Packet} (groupId : UInt8)
    (here : packets[i]? = some lost) (type : offset ≠ PacketHeader.offsetofType)
    (group : offset ≠ PacketHeader.offsetofFecGroupId) :
    (restored (markFec groupId (xorAll packets)) (packets.eraseIdx i))[offset]? =
      (padded (maxLen packets) lost)[offset]? := by
  have fits := le_maxLen (List.mem_of_getElem? here)
  rw [restored, foldl_xorInto_getElem?, column_padded, markFec_getElem? offset type group,
    xorAll_getElem?, padded_getElem? fits]
  split
  case isTrue inside =>
    have bytes : (packets.map fun packet => packet.getD offset 0)[i]? = some (lost.getD offset 0) := by
      rw [List.getElem?_map, here]
      rfl
    have byte := xor_laws.recover bytes
    rw [List.eraseIdx_map] at byte
    exact congrArg some byte
  case isFalse => rfl

theorem restored_inside {packets : List Packet} {lost : Packet} (groupId : UInt8)
    (here : packets[i]? = some lost) (inside : offset < lost.length)
    (type : offset ≠ PacketHeader.offsetofType) (group : offset ≠ PacketHeader.offsetofFecGroupId) :
    (restored (markFec groupId (xorAll packets)) (packets.eraseIdx i))[offset]? = lost[offset]? := by
  rw [restored_getElem? groupId here type group, padded, List.getElem?_append_left inside]

theorem payloadLengthOf_packet (header : PacketHeader) (payload : List UInt8) :
    payloadLengthOf (packet header payload) = header.payloadLength.toNat := by
  have field : ((packet header payload).drop 16).take 2 = bytes 2 header.payloadLength.toNat := by
    simp [packet, PacketHeader.toBytes, bytes]
  rw [payloadLengthOf, field, value_bytes]
  exact Nat.mod_eq_of_lt header.payloadLength.toNat_lt

theorem payloadLengthOf_restored {packets : List Packet} {lost : Packet} (groupId : UInt8)
    (here : packets[i]? = some lost) (whole : PacketHeader.sizeof ≤ lost.length) :
    payloadLengthOf (restored (markFec groupId (xorAll packets)) (packets.eraseIdx i)) =
      payloadLengthOf lost := by
  change 20 ≤ lost.length at whole
  unfold payloadLengthOf
  congr 1
  apply List.ext_getElem?
  intro j
  rw [List.getElem?_take, List.getElem?_take]
  split
  case isTrue early =>
    rw [List.getElem?_drop, List.getElem?_drop]
    apply restored_inside groupId here
    · omega
    · change ¬ _ = 2
      omega
    · change ¬ _ = 15
      omega
  case isFalse => rfl

/-- The calls that fill a group at the low level return one parity, of all of it. -/
theorem encodeAll_low {encoder : FecEncoder} {rest : Group} (low : encoder.currentLevel = .low)
    (last : rest ≠ []) (ten : encoder.dataBlock.length + rest.length = 10) :
    encodeAll encoder rest =
      some ([markFec encoder.currentGroupId (xorAll (encoder.dataBlock ++ rest.packets))],
        { encoder with dataBlock := [], currentGroupId := encoder.currentGroupId + 1 }) := by
  induction rest generalizing encoder with
  | nil => contradiction
  | cons first rest ih =>
    obtain ⟨header, payload⟩ := first
    obtain ⟨level, groupId, dataBlock⟩ := encoder
    obtain rfl : level = .low := low
    have encoded := encode_eq ⟨.low, groupId, dataBlock⟩ header payload
    rw [if_neg fun off => nomatch off] at encoded
    rw [encodeAll, encoded, Option.bind_some]
    simp only [List.length_cons] at ten
    by_cases final : rest = []
    · subst final
      have full : dataBlock.length + 1 = FecLevel.low.k := ten
      rw [if_pos full]
      rfl
    · have some_left := List.length_pos_iff.mpr final
      have partly : ¬ dataBlock.length + 1 = FecLevel.low.k := by
        change ¬ _ = 10
        omega
      rw [if_neg partly]
      have next := @ih ⟨.low, groupId, dataBlock ++ [packet header payload]⟩ rfl final
        (by simp only [List.length_append, List.length_singleton]; omega)
      refine (congrArg (Option.map _) next).trans ?_
      simp [Group.packets]

/-- Any one of the ten packets of a group is restored from the parity and the other
nine, off the two bytes overwritten in the parity, and so is its size where its
header gives it. -/
theorem low_restores_lost (encoder : FecEncoder) (pending rest : Group)
    (low : encoder.currentLevel = .low) (held : encoder.dataBlock = pending.packets)
    (last : rest ≠ []) (ten : (pending ++ rest).length = 10) :
    ∃ parity after, encodeAll encoder rest = some ([parity], after) ∧
      ∀ i header payload, (pending ++ rest)[i]? = some (header, payload) →
        let recovered := restored parity ((pending ++ rest).packets.eraseIdx i)
        (∀ offset, offset ≠ PacketHeader.offsetofType → offset ≠ PacketHeader.offsetofFecGroupId →
          recovered[offset]? = (padded parity.length (packet header payload))[offset]?) ∧
        payloadLengthOf recovered = header.payloadLength.toNat ∧
        (header.payloadLength.toNat = payload.length →
          AgreeOff (recovered.take (PacketHeader.sizeof + payloadLengthOf recovered))
            (packet header payload)) := by
  have count : encoder.dataBlock.length + rest.length = 10 := by
    rw [held, packets_length, ← List.length_append, ten]
  have encoded := encodeAll_low low last count
  have block : encoder.dataBlock ++ rest.packets = (pending ++ rest).packets := by
    rw [held, Group.packets, Group.packets, ← List.map_append]
    rfl
  rw [block] at encoded
  refine ⟨_, _, encoded, ?_⟩
  intro i header payload member
  have here : (pending ++ rest).packets[i]? = some (packet header payload) := by
    rw [Group.packets, List.getElem?_map, member]
    rfl
  have size := packet_length header payload
  have parity := (markFec_length encoder.currentGroupId _).trans (xorAll_length (pending ++ rest).packets)
  have field := payloadLengthOf_restored encoder.currentGroupId here (by omega)
  rw [payloadLengthOf_packet] at field
  refine ⟨?_, field, ?_⟩
  · intro offset type group
    rw [parity]
    exact restored_getElem? encoder.currentGroupId here type group
  · intro exact_size
    rw [field, exact_size, ← size]
    have fits := le_maxLen (List.mem_of_getElem? here)
    constructor
    · rw [List.length_take, restored, foldl_xorInto_length, parity]
      exact Nat.min_eq_left fits
    · intro offset type group
      rw [List.getElem?_take]
      split
      case isTrue inside => exact restored_inside encoder.currentGroupId here inside type group
      case isFalse outside => exact (List.getElem?_eq_none (Nat.le_of_not_lt outside)).symm

/-- Ten packets, the seventh of which is the only one with a payload. -/
theorem low_restores_lost_longest :
    let group : Group := (silentGroup 10).set 6 ({ zeroHeader with payloadLength := 3 }, [7, 8, 9])
    ∃ parity after, encodeAll { currentLevel := .low } group = some ([parity], after) ∧
      ∀ i header payload, ([] ++ group)[i]? = some (header, payload) →
        let recovered := restored parity ((Group.packets ([] ++ group)).eraseIdx i)
        (∀ offset, offset ≠ PacketHeader.offsetofType → offset ≠ PacketHeader.offsetofFecGroupId →
          recovered[offset]? = (padded parity.length (packet header payload))[offset]?) ∧
        payloadLengthOf recovered = header.payloadLength.toNat ∧
        (header.payloadLength.toNat = payload.length →
          AgreeOff (recovered.take (PacketHeader.sizeof + payloadLengthOf recovered))
            (packet header payload)) := by
  apply low_restores_lost
  · rfl
  · rfl
  · decide
  · rfl

end UltraDisplay.FecEncoder
