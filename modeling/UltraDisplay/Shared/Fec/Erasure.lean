import Mathlib.Data.Fintype.Card
import Mathlib.Data.List.GetD
import UltraDisplay.Shared.Fec

/-! Which losses the Reed-Solomon levels can make up for. A group of packets is
compared with any other that the receiver might take it for: same lengths, same
surviving packets, same parities. -/
namespace UltraDisplay.Fec

/-- The same bytes, but for the two that the encoder overwrites in a parity. -/
def AgreeOff (one other : Packet) : Prop :=
  one.length = other.length ∧
  ∀ i, i ≠ PacketHeader.offsetofType → i ≠ PacketHeader.offsetofFecGroupId → one[i]? = other[i]?

theorem AgreeOff.refl (packet : Packet) : AgreeOff packet packet := ⟨rfl, fun _ _ _ => rfl⟩

abbrev Group := List (PacketHeader × List UInt8)

def Group.packets (group : Group) : List Packet := group.map fun (header, payload) =>
  packet header payload

/-- The packets outside `lost` and the parities determine the packets in it. -/
def Determined (k n : Nat) (lost : Finset (Fin k)) : Prop :=
  ∀ (sent other : Group) (groupId groupId' : UInt8) (parities parities' : List Packet),
    sent.length = k → other.length = k →
    sent.packets.map List.length = other.packets.map List.length →
    (∀ i : Fin k, i ∉ lost → sent.packets[i.val]? = other.packets[i.val]?) →
    encodeRs k n groupId sent.packets = some parities →
    encodeRs k n groupId' other.packets = some parities' →
    List.Forall₂ AgreeOff parities parities' →
    List.Forall₂ AgreeOff sent.packets other.packets

theorem packet_length (header : PacketHeader) (payload : List UInt8) :
    (packet header payload).length = PacketHeader.sizeof + payload.length := by
  simp [packet]

theorem markFec_getElem? (i : Nat) (type : i ≠ PacketHeader.offsetofType)
    (group : i ≠ PacketHeader.offsetofFecGroupId) : (markFec groupId parity)[i]? = parity[i]? := by
  unfold markFec
  split
  · rw [List.getElem?_set_ne group.symm, List.getElem?_set_ne type.symm]
  · rfl

theorem columns_agree (lengths : one.map List.length = other.map List.length)
    (agree : AgreeOff (markFec groupId (xorAll one)) (markFec groupId' (xorAll other)))
    (type : i ≠ PacketHeader.offsetofType) (group : i ≠ PacketHeader.offsetofFecGroupId)
    (inside : i < maxLen one) : column i one = column i other := by
  have same := agree.2 i type group
  have longest : maxLen one = maxLen other := by rw [maxLen, lengths, ← maxLen]
  rw [markFec_getElem? i type group, markFec_getElem? i type group, xorAll_getElem?,
    xorAll_getElem?, ← longest, if_pos inside, if_pos inside] at same
  exact Option.some.inj same

theorem packets_agree {one other : List Packet} (lost : Nat)
    (lengths : one.map List.length = other.map List.length)
    (agree : ∀ i, i ≠ lost → one[i]? = other[i]?)
    (parities : AgreeOff (markFec groupId (xorAll one)) (markFec groupId' (xorAll other))) :
    List.Forall₂ AgreeOff one other := by
  have count : one.length = other.length := by simpa using congrArg List.length lengths
  apply List.forall₂_iff_get.mpr
  refine ⟨count, ?_⟩
  intro i inside inside'
  have size : (one.get ⟨i, inside⟩).length = (other.get ⟨i, inside'⟩).length := by
    simpa [List.getElem?_eq_getElem inside, List.getElem?_eq_getElem inside'] using
      congrArg (fun sizes => sizes[i]?) lengths
  refine ⟨size, ?_⟩
  intro offset type group
  by_cases within : offset < (one.get ⟨i, inside⟩).length
  · have reach : offset < maxLen one := within.trans_le (le_maxLen (List.get_mem _ _))
    have bytes := xor_laws.erasure_determined lost (by simpa using count)
      (by
        intro j elsewhere
        simp only [List.getElem?_map, agree j elsewhere])
      (columns_agree lengths parities type group reach)
    have byte : (one.get ⟨i, inside⟩).getD offset 0 = (other.get ⟨i, inside'⟩).getD offset 0 := by
      simpa [List.getElem?_eq_getElem inside, List.getElem?_eq_getElem inside'] using
        congrArg (fun column => column[i]?) bytes
    have within' : offset < (other.get ⟨i, inside'⟩).length := size ▸ within
    rw [List.getElem?_eq_getElem within, List.getElem?_eq_getElem within']
    rw [List.getD_eq_getElem _ _ within, List.getD_eq_getElem _ _ within'] at byte
    exact congrArg some byte
  · rw [List.getElem?_eq_none (by omega), List.getElem?_eq_none (by omega)]

variable {k n : Nat} {lost : Finset (Fin k)}

@[simp] theorem packets_length (group : Group) : group.packets.length = group.length := by
  simp [Group.packets]

theorem encodeRs_packets (filled : 0 < k) (small : n ≤ 256) {group : Group}
    (count : group.length = k) :
    encodeRs k n groupId group.packets =
      some (List.replicate (n - k) (markFec groupId (xorAll group.packets))) := by
  apply encodeRs_eq _ _ small
  · intro empty
    have none := congrArg List.length empty
    simp [count] at none
    omega
  · rw [packets_length, count]

theorem single_place (single : lost.card ≤ 1) :
    ∃ place : Nat, ∀ i : Fin k, i.val ≠ place → i ∉ lost := by
  obtain empty | ⟨place, member⟩ := lost.eq_empty_or_nonempty
  · exact ⟨0, fun i _ => by simp [empty]⟩
  · refine ⟨place, ?_⟩
    intro i elsewhere also
    exact elsewhere (congrArg Fin.val (Finset.card_le_one.mp single i also place member))

/-- A level that sends any parity recovers a single loss. -/
theorem determined_of_card_le_one (sends : k < n) (small : n ≤ 256) (single : lost.card ≤ 1) :
    Determined k n lost := by
  intro sent other groupId groupId' parities parities' count count' lengths agree encoded encoded'
    same
  obtain rfl | filled := Nat.eq_zero_or_pos k
  · have none : sent = [] := List.eq_nil_of_length_eq_zero count
    have none' : other = [] := List.eq_nil_of_length_eq_zero count'
    rw [none, none']
    exact List.Forall₂.nil
  · obtain ⟨place, elsewhere⟩ := single_place single
    obtain ⟨more, positive⟩ : ∃ more, n - k = more + 1 := ⟨n - k - 1, by omega⟩
    rw [encodeRs_packets filled small count, positive] at encoded
    rw [encodeRs_packets filled small count', positive] at encoded'
    cases Option.some.inj encoded
    cases Option.some.inj encoded'
    cases same with
    | cons first _ =>
      refine packets_agree place lengths ?_ first
      intro i apart
      by_cases inside : i < k
      · exact agree ⟨i, inside⟩ (elsewhere ⟨i, inside⟩ apart)
      · rw [List.getElem?_eq_none (by simp; omega), List.getElem?_eq_none (by simp; omega)]

def zeroHeader : PacketHeader := ⟨0, 0, 0, 0, 0, 0, 0, 0, 0, 0, 0⟩

/-- A group of empty packets, and the same with the magic of two changed. -/
def silentGroup (k : Nat) : Group := List.replicate k (zeroHeader, [])

def changedGroup (k i j : Nat) : Group :=
  ((silentGroup k).set i ({ zeroHeader with magic := 1 }, [])).set j
    ({ zeroHeader with magic := 1 }, [])

/-- Two packets changed in the same byte leave every column as it was. -/
theorem changedGroup_column (inside : i < k) (inside' : j < k) (distinct : i ≠ j) (offset : Nat) :
    column offset (changedGroup k i j).packets = column offset (silentGroup k).packets := by
  simp only [changedGroup, Group.packets, List.map_set, column, silentGroup, List.map_replicate]
  apply xor_laws.parity_two_changes (a := (packet zeroHeader []).getD offset 0)
  · simp [inside]
  · simp [inside']
  · exact distinct

theorem changedGroup_lengths (k i j : Nat) :
    (changedGroup k i j).packets.map List.length = (silentGroup k).packets.map List.length := by
  simp [changedGroup, Group.packets, silentGroup, packet_length]

theorem changedGroup_xorAll (inside : i < k) (inside' : j < k) (distinct : i ≠ j) :
    xorAll (changedGroup k i j).packets = xorAll (silentGroup k).packets := by
  apply List.ext_getElem?
  intro offset
  rw [xorAll_getElem?, xorAll_getElem?, changedGroup_column inside inside' distinct, maxLen,
    changedGroup_lengths, ← maxLen]

/-- Two losses are never told apart from a change in both. -/
theorem not_determined_of_two {i j : Fin k} (first : i ∈ lost) (second : j ∈ lost)
    (distinct : i ≠ j) (small : n ≤ 256) : ¬ Determined k n lost := by
  intro determined
  have filled : 0 < k := i.pos
  have apart : i.val ≠ j.val := fun same => distinct (Fin.ext same)
  have count : (silentGroup k).length = k := by simp [silentGroup]
  have count' : (changedGroup k i j).length = k := by simp [changedGroup, silentGroup]
  have same := determined (silentGroup k) (changedGroup k i j) 0 0 _ _ count count'
    (changedGroup_lengths k i j).symm ?_ (encodeRs_packets filled small count)
    (encodeRs_packets filled small count') ?_
  · obtain ⟨_, pointwise⟩ := List.forall₂_iff_get.mp same
    have byte := (pointwise i (by simp [count]) (by simp [count'])).2 0 (by decide) (by decide)
    have before : (silentGroup k).packets.get ⟨i, by simp [count]⟩ = packet zeroHeader [] := by
      simp [silentGroup, Group.packets]
    have after : (changedGroup k i j).packets.get ⟨i, by simp [count']⟩ =
        packet { zeroHeader with magic := 1 } [] := by
      simp [changedGroup, silentGroup, Group.packets, List.getElem_set_ne apart.symm]
    rw [before, after] at byte
    revert byte
    decide
  · intro m survives
    have notFirst : i.val ≠ m.val := fun same => survives (Fin.ext same ▸ first)
    have notSecond : j.val ≠ m.val := fun same => survives (Fin.ext same ▸ second)
    simp [changedGroup, Group.packets, notFirst, notSecond]
  · rw [changedGroup_xorAll i.isLt j.isLt apart]
    exact List.forall₂_same.mpr fun _ _ => AgreeOff.refl _

/-- However many parities a Reed-Solomon level sends, it makes up for one loss. -/
theorem determined_iff_card_le_one (level : FecLevel) (rs : level = .medium ∨ level = .high)
    (lost : Finset (Fin level.k)) : Determined level.k level.n lost ↔ lost.card ≤ 1 := by
  have sends : level.k < level.n := by rcases rs with rfl | rfl <;> decide
  have small : level.n ≤ 256 := by rcases rs with rfl | rfl <;> decide
  constructor
  · intro determined
    by_contra more
    obtain ⟨i, first, j, second, distinct⟩ := Finset.one_lt_card.mp (not_le.mp more)
    exact not_determined_of_two first second distinct small determined
  · exact determined_of_card_le_one sends small

/-- At the high level, the loss of the third packet of six. -/
theorem determined_iff_card_le_one_high :
    Determined FecLevel.high.k FecLevel.high.n {(2 : Fin 6)} :=
  (determined_iff_card_le_one .high (Or.inr rfl) {(2 : Fin 6)}).mpr (by decide)

/-- Four parities do not tell two groups apart that differ in their first two packets. -/
theorem two_losses_undetermined :
    ¬ ∀ lost : Finset (Fin FecLevel.high.k), lost.card ≤ FecLevel.high.n - FecLevel.high.k →
      Determined FecLevel.high.k FecLevel.high.n lost := by
  intro all
  have determined := all {(0 : Fin 6), (1 : Fin 6)} (by decide)
  have second : (1 : Fin 6) ∈ ({0, 1} : Finset (Fin 6)) := by decide
  exact not_determined_of_two (Finset.mem_insert_self _ _) second (by decide) (by decide) determined

end UltraDisplay.Fec
