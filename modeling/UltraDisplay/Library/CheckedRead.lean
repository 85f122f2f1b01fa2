import Mathlib.Data.List.Basic

/-! Reading a byte buffer with every index checked. A reader that succeeds has
stayed inside the buffer and has come to an end. -/
namespace CheckedRead

abbrev Bytes := List UInt8

/-- What a reader must not do: read outside the buffer or use up the turns given
to a loop. -/
inductive Fault where
  | outOfBounds (index : Nat)
  | exhausted
  deriving DecidableEq

abbrev Reader := Except Fault

def read (bytes : Bytes) (index : Nat) : Reader UInt8 :=
  match bytes[index]? with
  | some byte => .ok byte
  | none => .error (.outOfBounds index)

def readBytes (bytes : Bytes) (index : Nat) : Nat → Reader Bytes
  | 0 => .ok []
  | count + 1 => do
    let byte ← read bytes index
    let rest ← readBytes bytes (index + 1) count
    return byte :: rest

/-- Big-endian. -/
def readU16 (bytes : Bytes) (index : Nat) : Reader UInt16 := do
  let high ← read bytes index
  let low ← read bytes (index + 1)
  return high.toUInt16 <<< 8 ||| low.toUInt16

def readU32 (bytes : Bytes) (index : Nat) : Reader UInt32 := do
  let b0 ← read bytes index
  let b1 ← read bytes (index + 1)
  let b2 ← read bytes (index + 2)
  let b3 ← read bytes (index + 3)
  return b0.toUInt32 <<< 24 ||| b1.toUInt32 <<< 16 ||| b2.toUInt32 <<< 8 ||| b3.toUInt32

def Succeeds (reader : Reader α) (kind : α → Prop) : Prop :=
  ∃ result, reader = .ok result ∧ kind result

/-- What was read, for a reader that cannot fail where it is used. -/
def valueOr (default : α) : Reader α → α
  | .ok result => result
  | .error _ => default

theorem Succeeds.eq_valueOr {reader : Reader α} (succeeds : Succeeds reader kind) (default : α) :
    reader = .ok (valueOr default reader) := by
  obtain ⟨result, same, _⟩ := succeeds
  rw [same]
  rfl

namespace Succeeds
variable {α β : Type} {reader : Reader α} {next : α → Reader β}

theorem pure {kind : α → Prop} (holds : kind result) : Succeeds (.ok result) kind :=
  ⟨result, rfl, holds⟩

theorem bind {kind : α → Prop} {kind' : β → Prop} (first : Succeeds reader kind)
    (second : ∀ result, reader = .ok result → kind result → Succeeds (next result) kind') :
    Succeeds (reader >>= next) kind' := by
  obtain ⟨result, same, holds⟩ := first
  subst same
  exact second result rfl holds

theorem mono {kind kind' : α → Prop} (succeeds : Succeeds reader kind)
    (weaker : ∀ result, kind result → kind' result) : Succeeds reader kind' := by
  obtain ⟨result, same, holds⟩ := succeeds
  exact ⟨result, same, weaker result holds⟩

end Succeeds

theorem bind_eq_ok {reader : Reader α} {next : α → Reader β} {result : β} :
    reader >>= next = .ok result ↔ ∃ middle, reader = .ok middle ∧ next middle = .ok result := by
  cases reader with
  | error fault => simp [Bind.bind, Except.bind]
  | ok middle => simp [Bind.bind, Except.bind]

theorem read_succeeds {bytes : Bytes} (inside : index < bytes.length) :
    Succeeds (read bytes index) fun byte => bytes[index]? = some byte := by
  refine ⟨bytes[index], ?_, List.getElem?_eq_getElem inside⟩
  simp only [read, List.getElem?_eq_getElem inside]

theorem readBytes_succeeds {bytes : Bytes} (inside : index + count ≤ bytes.length) :
    Succeeds (readBytes bytes index count) fun result => result = (bytes.drop index).take count := by
  induction count generalizing index with
  | zero => exact .pure (by simp)
  | succ count ih =>
    refine (read_succeeds (by omega)).bind fun byte _ here => ?_
    refine (ih (by omega)).bind fun rest _ same => .pure ?_
    obtain ⟨bound, rfl⟩ := List.getElem?_eq_some_iff.mp here
    rw [same, List.drop_eq_getElem_cons bound, List.take_succ_cons]

theorem readU16_succeeds {bytes : Bytes} (inside : index + 2 ≤ bytes.length) :
    Succeeds (readU16 bytes index) fun _ => True := by
  refine (read_succeeds (by omega)).bind fun _ _ _ => ?_
  exact (read_succeeds (by omega)).bind fun _ _ _ => .pure trivial

theorem readU32_succeeds {bytes : Bytes} (inside : index + 4 ≤ bytes.length) :
    Succeeds (readU32 bytes index) fun _ => True := by
  refine (read_succeeds (by omega)).bind fun _ _ _ => ?_
  refine (read_succeeds (by omega)).bind fun _ _ _ => ?_
  refine (read_succeeds (by omega)).bind fun _ _ _ => ?_
  exact (read_succeeds (by omega)).bind fun _ _ _ => .pure trivial

/-- The part stands in the bytes from the index on. -/
def Has (bytes : Bytes) : (index : Nat) → (part : Bytes) → Prop
  | _, [] => True
  | index, byte :: rest => bytes[index]? = some byte ∧ Has bytes (index + 1) rest

instance Has.decide (bytes : Bytes) : (index : Nat) → (part : Bytes) →
    Decidable (Has bytes index part)
  | _, [] => isTrue trivial
  | index, _ :: rest =>
    have : Decidable (Has bytes (index + 1) rest) := Has.decide bytes (index + 1) rest
    inferInstanceAs (Decidable (_ ∧ _))

def bytesU16 (value : UInt16) : Bytes :=
  [UInt8.ofNat (value.toNat / 256), UInt8.ofNat (value.toNat % 256)]

def bytesU32 (value : UInt32) : Bytes :=
  [UInt8.ofNat (value.toNat / 16777216), UInt8.ofNat (value.toNat / 65536 % 256),
    UInt8.ofNat (value.toNat / 256 % 256), UInt8.ofNat (value.toNat % 256)]

@[simp] theorem bytesU16_length (value : UInt16) : (bytesU16 value).length = 2 := rfl

theorem join_bytesU16 (value : UInt16) :
    (UInt8.ofNat (value.toNat / 256)).toUInt16 <<< 8 ||| (UInt8.ofNat (value.toNat % 256)).toUInt16 =
      value := by
  have bound := value.toNat_lt
  have high : value.toNat / 256 < 2 ^ 8 := by omega
  have low : value.toNat % 256 < 2 ^ 8 := Nat.mod_lt _ (by decide)
  have joined := Nat.two_pow_add_eq_or_of_lt low (value.toNat / 256)
  have shift : UInt16.toNat 8 % 16 = 8 := by decide
  apply UInt16.toNat.inj
  simp only [UInt16.toNat_or, UInt16.toNat_shiftLeft, UInt8.toNat_toUInt16, UInt8.toNat_ofNat',
    Nat.mod_eq_of_lt high, Nat.mod_eq_of_lt low, shift, Nat.shiftLeft_eq]
  rw [Nat.mod_eq_of_lt (by omega), Nat.mul_comm, ← joined]
  omega

namespace Has
variable {bytes part first second : Bytes} {index : Nat}

theorem append_iff : Has bytes index (first ++ second) ↔
    Has bytes index first ∧ Has bytes (index + first.length) second := by
  induction first generalizing index with
  | nil => simp [Has]
  | cons byte rest ih =>
    simp only [List.cons_append, Has, ih, List.length_cons, and_assoc]
    rw [show index + 1 + rest.length = index + (rest.length + 1) by omega]

theorem inside (has : Has bytes index (byte :: rest)) : index < bytes.length :=
  (List.getElem?_eq_some_iff.mp has.1).1

theorem bound (has : Has bytes index part) (start : index ≤ bytes.length) :
    index + part.length ≤ bytes.length := by
  induction part generalizing index with
  | nil => exact start
  | cons byte rest ih =>
    have later := ih has.2 has.inside
    rw [List.length_cons]
    omega

theorem read (has : Has bytes index (byte :: rest)) : CheckedRead.read bytes index = .ok byte := by
  simp only [CheckedRead.read, has.1]

theorem readBytes (has : Has bytes index part) :
    CheckedRead.readBytes bytes index part.length = .ok part := by
  induction part generalizing index with
  | nil => rfl
  | cons byte rest ih =>
    simp only [List.length_cons, CheckedRead.readBytes, has.read, ih has.2]
    rfl

theorem readU16 (has : Has bytes index (bytesU16 value)) :
    CheckedRead.readU16 bytes index = .ok value := by
  simp only [CheckedRead.readU16, has.read, has.2.read]
  exact congrArg Except.ok (join_bytesU16 value)

end Has

end CheckedRead
