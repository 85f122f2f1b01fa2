import UltraDisplay.Library.Transition
import UltraDisplay.Shared.Fec

/-! How packets are grouped while the level changes: runs of `set_level` and
`encode` on one encoder. -/
namespace UltraDisplay.FecEncoder
open Fec Transition

inductive Call where
  | setLevel (level : FecLevel)
  | encode (header : PacketHeader) (payload : List UInt8)
  deriving DecidableEq

def step (encoder : FecEncoder) : Call → Option FecEncoder
  | .setLevel level => some (encoder.setLevel level)
  | .encode header payload => (encoder.encode header payload).map Prod.snd

theorem k_pos {level : FecLevel} (protects : level ≠ .none) : 0 < level.k := by
  cases level with
  | none => contradiction
  | low | medium | high => decide

theorem k_lt_n {level : FecLevel} (protects : level ≠ .none) : level.k < level.n := by
  cases level with
  | none => contradiction
  | low | medium | high => decide

theorem process_eq (encoder : FecEncoder) (level : encoder.currentLevel ≠ .none)
    (full : encoder.dataBlock.length = encoder.currentLevel.k) :
    encoder.process =
      some (List.replicate (encoder.currentLevel.n - encoder.currentLevel.k)
          (markFec encoder.currentGroupId (xorAll encoder.dataBlock)),
        { encoder with dataBlock := [], currentGroupId := encoder.currentGroupId + 1 }) := by
  have filled : encoder.dataBlock ≠ [] := by
    have positive := k_pos level
    exact List.length_pos_iff.mp (by omega)
  have small : encoder.currentLevel.n ≤ 256 := by
    cases encoder.currentLevel <;> decide
  unfold process
  by_cases low : encoder.currentLevel = .low
  · simp [low, encodeXor, filled, xorAll, FecLevel.n, FecLevel.k]
  · simp [low, encodeRs_eq filled full.le small]

theorem encode_eq (encoder : FecEncoder) (header : PacketHeader) (payload : List UInt8) :
    encoder.encode header payload = some (
      if encoder.currentLevel = .none then ([], { encoder with dataBlock := [] })
      else if encoder.dataBlock.length + 1 = encoder.currentLevel.k then
        (List.replicate (encoder.currentLevel.n - encoder.currentLevel.k)
          (markFec encoder.currentGroupId (xorAll (encoder.dataBlock ++ [packet header payload]))),
        { encoder with dataBlock := [], currentGroupId := encoder.currentGroupId + 1 })
      else ([], { encoder with dataBlock := encoder.dataBlock ++ [packet header payload] })) := by
  unfold encode
  by_cases none : encoder.currentLevel = .none
  · simp [none]
  · simp only [none, if_false, List.length_append, List.length_singleton]
    split
    · rename_i full
      rw [process_eq]
      · exact none
      · simpa using full
    · rfl

def Call.isEncode : Call → Bool
  | .setLevel _ => false
  | .encode _ _ => true

/-- After an `encode` fewer packets are pending than a group takes, none without FEC. -/
def Bounded (_ : FecEncoder) (call : Call) (after : FecEncoder) : Prop :=
  call.isEncode = true →
    if after.currentLevel = .none then after.dataBlock = []
    else after.dataBlock.length < after.currentLevel.k

/-- The call returns the parities of a group that begins with these packets. -/
def Completes (pending : List Packet) (encoder : FecEncoder) : Call → Prop
  | .setLevel _ => False
  | .encode header payload =>
    pending <+: encoder.dataBlock ++ [packet header payload] ∧
      ∃ fecPackets after, encoder.encode header payload = some (fecPackets, after) ∧
        fecPackets ≠ []

/-- One of the calls does. -/
def Covered (pending : List Packet) (encoder : FecEncoder) (calls : List Call) : Prop :=
  ∃ before call reached, before ++ [call] <+: calls ∧ run step encoder before = some reached ∧
    Completes pending reached call

/-- `encode` called once for a packet, further calls after it, the last of them an
`encode` too. -/
structure Protection where
  header : PacketHeader
  payload : List UInt8
  between : List Call
  lastHeader : PacketHeader
  lastPayload : List UInt8

namespace Protection

def upToLast (protection : Protection) : List Call :=
  .encode protection.header protection.payload :: protection.between

def calls (protection : Protection) : List Call :=
  protection.upToLast ++ [.encode protection.lastHeader protection.lastPayload]

/-- The `encode` calls after the packet's own. -/
def further (protection : Protection) : Nat := protection.between.countP Call.isEncode + 1

end Protection

/-- What the grouping promises of a run from a fresh encoder. A packet is covered
once as many further calls are made as the group size in force at the last. -/
structure GroupsForm (calls : List Call) : Prop where
  bounded : EveryStep step Bounded {} calls
  short : Throughout step (fun encoder => encoder.dataBlock.length ≤ 15) {} calls
  covered : ∀ before (protection : Protection) encoder reached,
    before ++ protection.calls <+: calls → run step {} before = some encoder →
    encoder.currentLevel ≠ .none → .setLevel .none ∉ protection.between →
    run step encoder protection.upToLast = some reached →
    reached.currentLevel.k ≤ protection.further →
    Covered (encoder.dataBlock ++ [packet protection.header protection.payload]) encoder
      protection.calls

/-- The pending packets still fit the group size when the next one is added. -/
def Fits (encoder : FecEncoder) (call : Call) : Prop :=
  call.isEncode = true → encoder.currentLevel ≠ .none →
    encoder.dataBlock.length < encoder.currentLevel.k

instance (encoder : FecEncoder) (call : Call) : Decidable (Fits encoder call) := by
  unfold Fits
  infer_instance

variable {encoder after : FecEncoder} {call : Call} {calls : List Call} {pending : List Packet}

theorem encode_cases (stepped : step encoder (.encode header payload) = some after) :
    after.currentLevel = encoder.currentLevel ∧
      ((encoder.currentLevel = .none ∧ after.dataBlock = []) ∨
        (encoder.currentLevel ≠ .none ∧ encoder.dataBlock.length + 1 = encoder.currentLevel.k ∧
          after.dataBlock = []) ∨
        (encoder.currentLevel ≠ .none ∧ encoder.dataBlock.length + 1 ≠ encoder.currentLevel.k ∧
          after.dataBlock = encoder.dataBlock ++ [packet header payload])) := by
  rw [step, encode_eq, Option.map_some] at stepped
  cases Option.some.inj stepped
  by_cases none : encoder.currentLevel = .none
  · simp [none]
  · by_cases full : encoder.dataBlock.length + 1 = encoder.currentLevel.k
    · simp [none, full]
    · simp [none, full]

/-- One step keeps the group below its size exactly if the packets fitted before. -/
theorem bounded_iff_fits (stepped : step encoder call = some after) :
    Bounded encoder call after ↔ Fits encoder call := by
  cases call with
  | setLevel level => simp [Bounded, Fits, Call.isEncode]
  | encode header payload =>
    obtain ⟨level, ⟨none, empty⟩ | ⟨protects, full, empty⟩ | ⟨protects, partly, grown⟩⟩ :=
      encode_cases stepped
    · simp [Bounded, Fits, Call.isEncode, level, none, empty]
    · have below : encoder.dataBlock.length < encoder.currentLevel.k := by omega
      have positive : 0 < encoder.currentLevel.k := by omega
      simp [Bounded, Fits, Call.isEncode, level, protects, empty, below, positive]
    · have same : encoder.dataBlock.length + 1 < encoder.currentLevel.k ↔
          encoder.dataBlock.length < encoder.currentLevel.k := by omega
      simp [Bounded, Fits, Call.isEncode, level, protects, grown, same]

theorem step_short (short : encoder.dataBlock.length ≤ 15) (fits : Fits encoder call)
    (stepped : step encoder call = some after) : after.dataBlock.length ≤ 15 := by
  cases call with
  | setLevel level =>
    cases Option.some.inj stepped
    exact short
  | encode header payload =>
    obtain ⟨_, ⟨_, empty⟩ | ⟨_, _, empty⟩ | ⟨protects, partly, grown⟩⟩ := encode_cases stepped
    · simp [empty]
    · simp [empty]
    · have below := fits rfl protects
      have most : encoder.currentLevel.k ≤ 16 := by cases encoder.currentLevel <;> decide
      rw [grown, List.length_append, List.length_singleton]
      omega

theorem Covered.cons (stepped : step encoder call = some after) (covered : Covered pending after calls) :
    Covered pending encoder (call :: calls) := by
  obtain ⟨before, last, reached, short, ran, completes⟩ := covered
  have ran' := run_cons_iff.mpr ⟨after, stepped, ran⟩
  exact ⟨call :: before, last, reached, by simpa using short, ran', completes⟩

theorem Covered.append (covered : Covered pending encoder calls) (more : List Call) :
    Covered pending encoder (calls ++ more) := by
  obtain ⟨before, last, reached, short, ran, completes⟩ := covered
  exact ⟨before, last, reached, short.trans (List.prefix_append _ _), ran, completes⟩

/-- A call that fills the group completes every packet in it. -/
theorem Covered.here (starts : pending <+: encoder.dataBlock ++ [packet header payload])
    (protects : encoder.currentLevel ≠ .none)
    (full : encoder.dataBlock.length + 1 = encoder.currentLevel.k) :
    Covered pending encoder (.encode header payload :: calls) := by
  have encoded := encode_eq encoder header payload
  rw [if_neg protects, if_pos full] at encoded
  refine ⟨[], .encode header payload, encoder, by simp, rfl, starts, _, _, encoded, ?_⟩
  have parities := Nat.sub_ne_zero_of_lt (k_lt_n protects)
  simpa using parities

/-- While FEC stays on, packets stay pending until a call completes them. -/
theorem grows_or_covered (starts : pending <+: encoder.dataBlock)
    (protects : encoder.currentLevel ≠ .none) (stays : .setLevel .none ∉ calls)
    (ran : run step encoder calls = some after) :
    Covered pending encoder calls ∨
      (after.currentLevel ≠ .none ∧ pending <+: after.dataBlock ∧
        after.dataBlock.length = encoder.dataBlock.length + calls.countP Call.isEncode) := by
  induction calls generalizing encoder with
  | nil =>
    cases Option.some.inj ran
    exact Or.inr ⟨protects, starts, by simp⟩
  | cons call calls ih =>
    obtain ⟨next, stepped, rest⟩ := run_cons_iff.mp ran
    have later : .setLevel .none ∉ calls := fun member => stays (List.mem_cons_of_mem _ member)
    cases call with
    | setLevel level =>
      cases Option.some.inj stepped
      have on : (encoder.setLevel level).currentLevel ≠ .none :=
        fun off => stays (List.mem_cons.mpr (Or.inl (congrArg Call.setLevel off.symm)))
      have kept : pending <+: (encoder.setLevel level).dataBlock := starts
      obtain covered | ⟨same, prefixed, count⟩ := ih kept on later rest
      · exact Or.inl (covered.cons rfl)
      · refine Or.inr ⟨same, prefixed, ?_⟩
        simpa [Call.isEncode, setLevel] using count
    | encode header payload =>
      have held : pending <+: encoder.dataBlock ++ [packet header payload] :=
        starts.trans (List.prefix_append _ _)
      obtain ⟨level, ⟨none, _⟩ | ⟨_, full, _⟩ | ⟨_, _, grown⟩⟩ := encode_cases stepped
      · exact absurd none protects
      · exact Or.inl (Covered.here held protects full)
      · rw [← grown] at held
        obtain covered | ⟨same, prefixed, count⟩ := ih held (level ▸ protects) later rest
        · exact Or.inl (covered.cons stepped)
        · refine Or.inr ⟨same, prefixed, ?_⟩
          rw [count, grown, List.countP_cons_of_pos rfl, List.length_append, List.length_singleton]
          omega

theorem covered_of_fits {protection : Protection} {reached : FecEncoder} (fits : Guarded step Fits {} calls)
    (short : before ++ protection.calls <+: calls) (ran : run step {} before = some encoder)
    (protects : encoder.currentLevel ≠ .none) (stays : .setLevel .none ∉ protection.between)
    (onward : run step encoder protection.upToLast = some reached)
    (enough : reached.currentLevel.k ≤ protection.further) :
    Covered (encoder.dataBlock ++ [packet protection.header protection.payload]) encoder
      protection.calls := by
  obtain ⟨next, stepped, rest⟩ := run_cons_iff.mp onward
  obtain ⟨level, ⟨none, _⟩ | ⟨_, full, _⟩ | ⟨_, _, grown⟩⟩ := encode_cases stepped
  · exact absurd none protects
  · exact Covered.here (List.prefix_refl _) protects full
  · rw [← grown]
    obtain covered | ⟨on, _, count⟩ :=
      grows_or_covered (List.prefix_refl _) (level ▸ protects) stays rest
    · exact (covered.cons stepped).append _
    · -- the last call meets a group at least as large as the level takes
      have whole : run step {} (before ++ protection.upToLast) = some reached := by
        rw [run_append, ran]
        exact onward
      have last := encode_eq reached protection.lastHeader protection.lastPayload
      have below := fits (before ++ protection.upToLast)
        (.encode protection.lastHeader protection.lastPayload) reached _
        (by rw [List.append_assoc]; exact short) whole (by rw [step, last]; rfl) rfl on
      rw [count, grown, List.length_append, List.length_singleton] at below
      simp only [Protection.further] at enough
      omega

/-- Groups form as intended in exactly the runs where no packet comes to a group
that is already full for the level. -/
theorem groupsForm_iff_fits (calls : List Call) :
    GroupsForm calls ↔ Guarded step Fits {} calls := by
  have bounded : EveryStep step Bounded {} calls ↔ Guarded step Fits {} calls :=
    EveryStep.congr_of_invariant (I := fun _ => True) (fun _ _ _ _ _ => trivial)
      (fun _ _ _ _ stepped => bounded_iff_fits stepped) trivial
  constructor
  · intro form
    exact bounded.mp form.bounded
  · intro fits
    refine ⟨bounded.mpr fits, ?_, ?_⟩
    · exact throughout_guarded (fun _ _ _ => step_short) fits (by decide)
    · intro before protection encoder reached short ran protects stays onward enough
      exact covered_of_fits fits short ran protects stays onward enough

/-- Six packets pending at the medium level overshoot the high level's group of six. -/
theorem group_overshot :
    let header : PacketHeader := ⟨0x5544, 0, 0, 0, 0, 0, 0, 0, 0, 0, 0⟩
    ¬ GroupsForm (.setLevel .medium :: List.replicate 6 (.encode header []) ++
      .setLevel .high :: List.replicate 10 (.encode header [])) := by
  intro header form
  have overshot : (run step {} (.setLevel .medium :: List.replicate 6 (.encode header []) ++
      .setLevel .high :: List.replicate 10 (.encode header []))).map
        (fun encoder => encoder.dataBlock.length) = some 16 := by decide
  obtain ⟨reached, ran, length⟩ := Option.map_eq_some_iff.mp overshot
  have short := form.short.last ran
  omega

end UltraDisplay.FecEncoder
