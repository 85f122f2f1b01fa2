import UltraDisplay.Library.Parity
import UltraDisplay.Shared.Protocol

/-! The forward error correction of shared/transport/fec.cpp: the arithmetic of
GF(256), the two parity encoders and the encoder that groups packets for them.
A division by zero in a coefficient has no result. -/
namespace UltraDisplay

inductive FecLevel where
  | none
  | low
  | medium
  | high
  deriving DecidableEq

/-- The group size that `encode` compares with. -/
def FecLevel.k : FecLevel → Nat
  | .none => 0
  | .low => 10
  | .medium => 16
  | .high => 6

def FecLevel.n : FecLevel → Nat
  | .none => 0
  | .low => 11
  | .medium => 20
  | .high => 10

abbrev Packet := List UInt8

/-- The bytes of a packet: its header, then its payload. -/
def packet (header : PacketHeader) (payload : List UInt8) : Packet := header.toBytes ++ payload

namespace Fec

def gfAdd (a b : UInt8) : UInt8 := a ^^^ b

/-- The loop of `gf_mul`, `rounds` rounds before its end. -/
def gfMulLoop : (rounds : Nat) → (p a b : UInt8) → UInt8
  | 0, p, _, _ => p
  | rounds + 1, p, a, b =>
    let p := if b &&& 1 ≠ 0 then p ^^^ a else p
    let hiBitSet := a &&& 0x80
    let a := a <<< 1
    let a := if hiBitSet ≠ 0 then a ^^^ UInt8.ofNat 0x11B else a
    gfMulLoop rounds p a (b >>> 1)

def gfMul (a b : UInt8) : UInt8 := gfMulLoop 8 0 a b

/-- `parity[i] ^= pkt[i]` for every byte of the packet. -/
def xorInto : (packet parity : Packet) → Packet
  | [], parity => parity
  | _, [] => []
  | byte :: packet, sum :: parity => gfAdd sum byte :: xorInto packet parity

def maxLen (dataBlock : List Packet) : Nat := (dataBlock.map List.length).foldl max 0

/-- `hdr->type = PacketType::FEC; hdr->fec_group_id = current_group_id_`. -/
def markFec (groupId : UInt8) (parity : Packet) : Packet :=
  if PacketHeader.sizeof ≤ parity.length then
    (parity.set PacketHeader.offsetofType PacketType.fec.toUInt8).set
      PacketHeader.offsetofFecGroupId groupId
  else parity

/-- The parity packets appended to the output. -/
def encodeXor (groupId : UInt8) (dataBlock : List Packet) : List Packet :=
  if dataBlock = [] then []
  else
    let parity := dataBlock.foldl (fun parity packet => xorInto packet parity)
      (List.replicate (maxLen dataBlock) 0)
    [markFec groupId parity]

/-- The "simplified Cauchy coefficient": an integer division of constants. -/
def coeff (k p d : Nat) : Option UInt8 :=
  let divisor := (UInt8.ofNat (p + k) ^^^ UInt8.ofNat d).toNat
  if divisor = 0 then none
  else
    let coeff := UInt8.ofNat (1 / divisor)
    some (if coeff = 0 then 1 else coeff)

/-- The inner loop over the data packets from position `d` on. -/
def accumulate (k p : Nat) : (d : Nat) → (dataBlock : List Packet) → (parity : Packet) → Option Packet
  | _, [], parity => some parity
  | d, packet :: dataBlock, parity =>
    (coeff k p d).bind fun coeff =>
      accumulate k p (d + 1) dataBlock (xorInto (packet.map (gfMul coeff)) parity)

def encodeRs (k n : Nat) (groupId : UInt8) (dataBlock : List Packet) : Option (List Packet) :=
  if dataBlock = [] then some []
  else
    (List.range (n - k)).mapM fun p =>
      (accumulate k p 0 dataBlock (List.replicate (maxLen dataBlock) 0)).map (markFec groupId)

end Fec

structure FecEncoder where
  currentLevel : FecLevel := .none
  currentGroupId : UInt8 := 0
  dataBlock : List Packet := []
  deriving DecidableEq

namespace FecEncoder
open Fec

def setLevel (encoder : FecEncoder) (level : FecLevel) : FecEncoder :=
  { encoder with currentLevel := level }

/-- The group is encoded and the next one begins. -/
def process (encoder : FecEncoder) : Option (List Packet × FecEncoder) :=
  let level := encoder.currentLevel
  let parities :=
    if level = .low then some (encodeXor encoder.currentGroupId encoder.dataBlock)
    else encodeRs level.k level.n encoder.currentGroupId encoder.dataBlock
  parities.map fun fecPackets =>
    (fecPackets, { encoder with dataBlock := [], currentGroupId := encoder.currentGroupId + 1 })

def encode (encoder : FecEncoder) (header : PacketHeader) (payload : List UInt8) :
    Option (List Packet × FecEncoder) :=
  let encoder := { encoder with dataBlock := encoder.dataBlock ++ [packet header payload] }
  if encoder.currentLevel = .none then some ([], { encoder with dataBlock := [] })
  else if encoder.dataBlock.length = encoder.currentLevel.k then encoder.process
  else some ([], encoder)

end FecEncoder

namespace Fec

theorem xor_laws : Parity.Laws (· ^^^ ·) (0 : UInt8) where
  assoc := UInt8.xor_assoc
  comm := UInt8.xor_comm
  identity := fun _ => UInt8.zero_xor
  inverse := fun _ => UInt8.xor_self

/-- The parity of the bytes at one offset, packets that end before it left out. -/
def column (offset : Nat) (dataBlock : List Packet) : UInt8 :=
  Parity.parity (· ^^^ ·) 0 (dataBlock.map fun packet => packet.getD offset 0)

theorem gfMul_one (b : UInt8) : gfMul 1 b = b := by
  have bytes : ∀ n : Fin 256, gfMul 1 (UInt8.ofFin n) = UInt8.ofFin n := by decide +kernel
  exact bytes b.toFin

/-- Whatever it divides by, a coefficient comes out as one. -/
theorem coeff_eq_one (computed : coeff k p d = some c) : c = 1 := by
  unfold coeff at computed
  simp only at computed
  split at computed
  · contradiction
  · rename_i nonzero
    cases Option.some.inj computed
    generalize (UInt8.ofNat (p + k) ^^^ UInt8.ofNat d).toNat = divisor at nonzero ⊢
    obtain rfl | large : divisor = 1 ∨ 2 ≤ divisor := by omega
    · decide
    · rw [Nat.div_eq_of_lt large]
      decide

theorem coeff_isSome (distinct : (p + k) % 256 ≠ d % 256) : (coeff k p d).isSome = true := by
  unfold coeff
  have nonzero : (UInt8.ofNat (p + k) ^^^ UInt8.ofNat d).toNat ≠ 0 := by
    intro zero
    have same : UInt8.ofNat (p + k) = UInt8.ofNat d := by
      apply UInt8.xor_eq_zero_iff.mp
      exact UInt8.toNat_inj.mp zero
    apply distinct
    simpa using congrArg UInt8.toNat same
  simp only [if_neg nonzero, Option.isSome_some]

theorem xorInto_getElem? (packet parity : Packet) (i : Nat) :
    (xorInto packet parity)[i]? = parity[i]?.map fun sum => sum ^^^ packet.getD i 0 := by
  induction packet generalizing parity i with
  | nil => simp [xorInto]
  | cons byte packet ih =>
    cases parity with
    | nil => simp [xorInto]
    | cons sum parity =>
      cases i with
      | zero => simp [xorInto, gfAdd]
      | succ i => simpa [xorInto] using ih parity i

theorem le_foldl_max (lengths : List Nat) (least : Nat) :
    least ≤ lengths.foldl max least ∧ ∀ length ∈ lengths, length ≤ lengths.foldl max least := by
  induction lengths generalizing least with
  | nil => simp
  | cons length lengths ih =>
    obtain ⟨first, rest⟩ := ih (max least length)
    rw [List.foldl_cons]
    refine ⟨(Nat.le_max_left _ _).trans first, ?_⟩
    rintro other (_ | ⟨_, later⟩)
    · exact (Nat.le_max_right _ _).trans first
    · exact rest other later

theorem le_maxLen {packet : Packet} (member : packet ∈ dataBlock) :
    packet.length ≤ maxLen dataBlock :=
  (le_foldl_max _ 0).2 _ (List.mem_map_of_mem member)

/-- The accumulated parity before its header is overwritten. -/
def xorAll (dataBlock : List Packet) : Packet :=
  dataBlock.foldl (fun parity packet => xorInto packet parity)
    (List.replicate (maxLen dataBlock) 0)

theorem foldl_xorInto_getElem? (dataBlock : List Packet) (parity : Packet) (i : Nat) :
    (dataBlock.foldl (fun parity packet => xorInto packet parity) parity)[i]? =
      parity[i]?.map fun sum => sum ^^^ column i dataBlock := by
  induction dataBlock generalizing parity with
  | nil => simp [column, Parity.parity]
  | cons packet dataBlock ih =>
    rw [List.foldl_cons, ih, xorInto_getElem?, Option.map_map]
    congr 1
    funext sum
    simp [column, Parity.parity, UInt8.xor_assoc]

theorem xorAll_getElem? (dataBlock : List Packet) (i : Nat) :
    (xorAll dataBlock)[i]? = if i < maxLen dataBlock then some (column i dataBlock) else none := by
  rw [xorAll, foldl_xorInto_getElem?, List.getElem?_replicate]
  split <;> simp

/-- All coefficients being one, every parity packet is the plain parity. -/
theorem accumulate_eq (dataBlock : List Packet) (parity : Packet)
    (distinct : ∀ i, d ≤ i → i < d + dataBlock.length → (p + k) % 256 ≠ i % 256) :
    accumulate k p d dataBlock parity =
      some (dataBlock.foldl (fun parity packet => xorInto packet parity) parity) := by
  induction dataBlock generalizing d parity with
  | nil => rfl
  | cons packet dataBlock ih =>
    obtain ⟨c, computed⟩ := Option.isSome_iff_exists.mp
      (coeff_isSome (distinct d (le_refl d) (by simp)))
    have one : c = 1 := coeff_eq_one computed
    have unscaled : packet.map (gfMul 1) = packet := by
      simp [funext gfMul_one]
    rw [accumulate, computed, one, Option.bind_some, unscaled, List.foldl_cons]
    apply ih
    intro i later inside
    exact distinct i (by omega) (by simp only [List.length_cons]; omega)

theorem mapM_constant {f : Nat → Option Packet} {positions : List Nat}
    (each : ∀ p ∈ positions, f p = some parity) :
    positions.mapM f = some (List.replicate positions.length parity) := by
  induction positions with
  | nil => rfl
  | cons p positions ih =>
    rw [List.mapM_cons, each p (by simp), ih fun q later => each q (by simp [later])]
    rfl

/-- The Reed-Solomon group is the XOR parity, as many times as it has parities. -/
theorem encodeRs_eq (filled : dataBlock ≠ []) (fits : dataBlock.length ≤ k) (small : n ≤ 256) :
    encodeRs k n groupId dataBlock =
      some (List.replicate (n - k) (markFec groupId (xorAll dataBlock))) := by
  have each : ∀ p ∈ List.range (n - k),
      (accumulate k p 0 dataBlock (List.replicate (maxLen dataBlock) 0)).map (markFec groupId) =
        some (markFec groupId (xorAll dataBlock)) := by
    intro p position
    have bound := List.mem_range.mp position
    rw [accumulate_eq dataBlock _ (by intro i _ inside; omega)]
    rfl
  rw [encodeRs, if_neg filled, mapM_constant each, List.length_range]

end Fec
end UltraDisplay
