import UltraDisplay.Shared.Fec.Recovery

/-! What the calls of `encode` return over a whole run. A record beside the encoder
holds the packets passed so far and the groups completed. -/
namespace UltraDisplay.FecEncoder
open Fec Transition

def parityCount : FecLevel → Nat
  | .none => 0
  | .low => 1
  | .medium | .high => 4

structure Record where
  encoder : FecEncoder := {}
  passed : List Packet := []
  completed : Nat := 0
  returned : List Packet := []
  deriving DecidableEq

/-- A call of `encode` whose coefficients divide by zero has no step. -/
def record (log : Record) : Call → Option Record
  | .setLevel level => some { log with encoder := log.encoder.setLevel level, returned := [] }
  | .encode header payload =>
    (log.encoder.encode header payload).map fun (fecPackets, encoder) =>
      { encoder
        passed := log.passed ++ [packet header payload]
        completed := if fecPackets = [] then log.completed else log.completed + 1
        returned := fecPackets }

/-- The parities of a group by the encoder of the level. -/
def parities (level : FecLevel) (groupId : UInt8) (group : List Packet) : Option (List Packet) :=
  if level = .low then some (encodeXor groupId group) else encodeRs level.k level.n groupId group

/-- The parities of the last packets passed, and an encoder with nothing pending. -/
structure Completed (log next : Record) : Prop where
  protects : log.encoder.currentLevel ≠ .none
  count : next.returned.length = parityCount log.encoder.currentLevel
  enough : log.encoder.currentLevel.k ≤ next.passed.length
  computed : parities log.encoder.currentLevel (UInt8.ofNat log.completed)
    (next.passed.drop (next.passed.length - log.encoder.currentLevel.k)) = some next.returned
  marked : ∀ parity ∈ next.returned,
    parity[PacketHeader.offsetofType]? = some PacketType.fec.toUInt8 ∧
    parity[PacketHeader.offsetofFecGroupId]? = some (UInt8.ofNat log.completed)
  longest : ∀ parity ∈ next.returned,
    (∃ packet ∈ next.passed.drop (next.passed.length - log.encoder.currentLevel.k),
      packet.length = parity.length) ∧
    ∀ packet ∈ next.passed.drop (next.passed.length - log.encoder.currentLevel.k),
      packet.length ≤ parity.length
  empty : next.encoder.dataBlock = []

def WellFormed (log : Record) (event : Call) (next : Record) : Prop :=
  event.isEncode = true → next.returned = [] ∨ Completed log next

/-- What is pending was passed last, and the group id counts the completed groups. -/
structure Logged (log : Record) : Prop where
  pending : log.encoder.dataBlock <:+ log.passed
  counted : log.encoder.currentGroupId = UInt8.ofNat log.completed
  whole : ∀ packet ∈ log.passed, PacketHeader.sizeof ≤ packet.length

theorem maxLen_attained (packets : List Packet) (filled : packets ≠ []) :
    ∃ packet ∈ packets, packet.length = maxLen packets := by
  obtain ⟨first, rest, rfl⟩ := List.exists_cons_of_ne_nil filled
  have greatest : ((first :: rest).map List.length).max? = some (maxLen (first :: rest)) := by
    rw [List.map_cons, List.max?_cons', maxLen, List.map_cons, List.foldl_cons, Nat.zero_max]
  exact List.mem_map.mp (List.max?_mem greatest)

theorem markFec_marked {parity : Packet} (whole : PacketHeader.sizeof ≤ parity.length) :
    (markFec groupId parity)[PacketHeader.offsetofType]? = some PacketType.fec.toUInt8 ∧
    (markFec groupId parity)[PacketHeader.offsetofFecGroupId]? = some groupId := by
  have bytes : 20 ≤ parity.length := whole
  rw [markFec, if_pos whole]
  constructor
  · rw [List.getElem?_set_ne (by decide), List.getElem?_set_self]
    exact Nat.lt_of_lt_of_le (by decide) bytes
  · rw [List.getElem?_set_self]
    rw [List.length_set]
    exact Nat.lt_of_lt_of_le (by decide) bytes

theorem parityCount_eq (level : FecLevel) : level.n - level.k = parityCount level := by
  cases level <;> rfl

/-- Both encoders return copies of the one marked parity of a full group. -/
theorem parities_eq {level : FecLevel} {group : List Packet} (groupId : UInt8)
    (protects : level ≠ .none) (full : group.length = level.k) :
    parities level groupId group =
      some (List.replicate (parityCount level) (markFec groupId (xorAll group))) := by
  have processed := process_eq ⟨level, groupId, group⟩ protects full
  rw [parityCount_eq] at processed
  obtain ⟨fecPackets, encoded, same⟩ := Option.map_eq_some_iff.mp processed
  have returned := congrArg Prod.fst same
  exact encoded.trans (congrArg some returned)

theorem completed_of_full {log next : Record} (logged : Logged next)
    (protects : log.encoder.currentLevel ≠ .none)
    {group : List Packet} (suffix : group <:+ next.passed)
    (full : group.length = log.encoder.currentLevel.k)
    (returned : next.returned = List.replicate (parityCount log.encoder.currentLevel)
      (markFec (UInt8.ofNat log.completed) (xorAll group)))
    (empty : next.encoder.dataBlock = []) : Completed log next := by
  have last := List.suffix_iff_eq_drop.mp suffix
  rw [full] at last
  have filled : group ≠ [] := by
    have positive := k_pos protects
    exact List.length_pos_iff.mp (by omega)
  obtain ⟨longest, member, length⟩ := maxLen_attained group filled
  have size := (markFec_length (UInt8.ofNat log.completed) (xorAll group)).trans (xorAll_length group)
  have same : ∀ parity ∈ next.returned,
      parity = markFec (UInt8.ofNat log.completed) (xorAll group) := by
    intro parity listed
    rw [returned] at listed
    exact List.eq_of_mem_replicate listed
  constructor
  case protects => exact protects
  case count => rw [returned, List.length_replicate]
  case enough => exact full ▸ suffix.length_le
  case computed =>
    rw [← last, returned]
    exact parities_eq _ protects full
  case marked =>
    intro parity listed
    rw [same parity listed]
    apply markFec_marked
    rw [xorAll_length, ← length]
    exact logged.whole longest (suffix.subset member)
  case longest =>
    intro parity listed
    rw [same parity listed, size, ← last]
    refine ⟨⟨longest, member, length⟩, ?_⟩
    intro packet inside
    exact le_maxLen inside
  case empty => exact empty

theorem record_some (log : Record) (event : Call) : ∃ next, record log event = some next := by
  cases event with
  | setLevel level => exact ⟨_, rfl⟩
  | encode header payload =>
    rw [record, encode_eq]
    exact ⟨_, rfl⟩

theorem Logged.passes {log : Record} (logged : Logged log) (header : PacketHeader)
    (payload : List UInt8) :
    log.encoder.dataBlock ++ [packet header payload] <:+ log.passed ++ [packet header payload] ∧
      ∀ other ∈ log.passed ++ [packet header payload], PacketHeader.sizeof ≤ other.length := by
  constructor
  · obtain ⟨before, split⟩ := logged.pending
    exact ⟨before, by rw [← List.append_assoc, split]⟩
  · intro other member
    rcases List.mem_append.mp member with member | member
    · exact logged.whole other member
    · rw [List.mem_singleton.mp member, packet_length]
      exact Nat.le_add_right _ _

/-- What one call does to the record, and that it returns what it should. -/
theorem record_logged {log next : Record} (logged : Logged log)
    (recorded : record log event = some next) : Logged next ∧ WellFormed log event next := by
  cases event with
  | setLevel level =>
    cases Option.some.inj recorded
    exact ⟨⟨logged.pending, logged.counted, logged.whole⟩, fun other => nomatch other⟩
  | encode header payload =>
    rw [record, encode_eq, Option.map_some] at recorded
    obtain ⟨suffix, whole⟩ := logged.passes header payload
    by_cases off : log.encoder.currentLevel = .none
    · rw [if_pos off] at recorded
      cases Option.some.inj recorded
      exact ⟨⟨List.nil_suffix, logged.counted, whole⟩, fun _ => Or.inl rfl⟩
    · rw [if_neg off] at recorded
      by_cases full : log.encoder.dataBlock.length + 1 = log.encoder.currentLevel.k
      · rw [if_pos full, parityCount_eq] at recorded
        have some_parity : parityCount log.encoder.currentLevel ≠ 0 := by
          rw [← parityCount_eq]
          exact Nat.sub_ne_zero_of_lt (k_lt_n off)
        have logged' : Logged next := by
          cases Option.some.inj recorded
          refine ⟨List.nil_suffix, ?_, whole⟩
          simp only [List.replicate_eq_nil_iff, some_parity, if_false, logged.counted]
          exact (UInt8.ofNat_add log.completed 1).symm
        refine ⟨logged', fun _ => Or.inr ?_⟩
        cases Option.some.inj recorded
        apply completed_of_full logged' off suffix
        · rw [List.length_append]
          exact full
        · rw [logged.counted]
        · rfl
      · rw [if_neg full] at recorded
        cases Option.some.inj recorded
        exact ⟨⟨suffix, logged.counted, whole⟩, fun _ => Or.inl rfl⟩

/-- No call divides by zero, and each `encode` returns nothing or a completed group. -/
theorem emissions_wellFormed (calls : List Call) :
    (∃ log, run record {} calls = some log) ∧ EveryStep record WellFormed {} calls := by
  have preserved : ∀ log event next, Logged log → record log event = some next → Logged next :=
    fun _ _ _ logged recorded => (record_logged logged recorded).1
  have start : Logged {} := ⟨List.nil_suffix, rfl, fun _ member => nomatch member⟩
  constructor
  · exact run_total record_some {} calls
  · intro before event log next _ reached recorded
    have logged := run_invariant preserved start reached
    exact (record_logged logged recorded).2

end UltraDisplay.FecEncoder
