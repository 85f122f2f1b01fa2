import Mathlib.Tactic.Ring

/-! The token bucket of shared/transport/pacer.cpp. Readings of the microsecond
clock are naturals, tokens exact integers, and the product of a rate and a
duration is converted to int64_t. -/
namespace UltraDisplay

structure PacketPacer where
  rateBps : UInt64 := 0
  tokens : Int := 0
  maxTokens : Int := 0
  lastUpdateUs : Nat
  deriving DecidableEq

namespace PacketPacer

def int64 (x : Int) : Int := x.bmod (2 ^ 64)

def construct (now : Nat) : PacketPacer := { lastUpdateUs := now }

def setRate (pacer : PacketPacer) (bps : UInt64) : PacketPacer :=
  let maxTokens : Int := (bps / 8 / 100).toNat
  { pacer with
    rateBps := bps
    maxTokens
    tokens := if maxTokens < pacer.tokens then maxTokens else pacer.tokens }

def refillTokens (pacer : PacketPacer) (now : Nat) : PacketPacer :=
  let elapsed : Int := now - pacer.lastUpdateUs
  if 0 < elapsed ∧ 0 < pacer.rateBps then
    let newTokens := (int64 (pacer.rateBps.toNat * elapsed)).tdiv (8 * 1000000)
    { pacer with
      tokens := min pacer.maxTokens (pacer.tokens + newTokens)
      lastUpdateUs := now }
  else pacer

/-- The answer and the refilled pacer. -/
def canSend (pacer : PacketPacer) (packetBytes : UInt64) (now : Nat) : Bool × PacketPacer :=
  let pacer := pacer.refillTokens now
  (int64 packetBytes.toNat ≤ pacer.tokens, pacer)

def recordSend (pacer : PacketPacer) (packetBytes : UInt64) : PacketPacer :=
  { pacer with tokens := pacer.tokens - int64 packetBytes.toNat }

/-- What `wait_until_can_send` does after a test that failed. The multiplication
of the missing tokens may overflow, which is undefined. -/
inductive Pause where
  | sleep (us : Nat)
  | yield
  | undefined
  deriving DecidableEq

def pause (pacer : PacketPacer) (packetBytes : UInt64) : Pause :=
  let missingTokens := int64 packetBytes.toNat - pacer.tokens
  if 0 < pacer.rateBps ∧ 0 < missingTokens then
    if missingTokens * 8 * 1000000 < 2 ^ 63 then
      .sleep ((missingTokens * 8 * 1000000).toNat / pacer.rateBps.toNat)
    else .undefined
  else .yield

theorem int64_eq {x : Int} (low : 0 ≤ x) (high : x < 2 ^ 63) : int64 x = x := by
  apply Int.bmod_eq_of_le_mul_two
  · push_cast
    omega
  · push_cast
    omega

/-- The rate and the cap belong together, and the balance respects the cap. -/
structure Capped (pacer : PacketPacer) : Prop where
  cap : pacer.maxTokens = (pacer.rateBps.toNat / 800 : Nat)
  below : pacer.tokens ≤ pacer.maxTokens

theorem construct_capped (now : Nat) : Capped (construct now) :=
  ⟨by simp [construct], le_rfl⟩

theorem setRate_capped (pacer : PacketPacer) (bps : UInt64) : Capped (pacer.setRate bps) := by
  constructor
  · simp only [setRate, UInt64.toNat_div]
    have chain : bps.toNat / 8 / 100 = bps.toNat / 800 := Nat.div_div_eq_div_mul _ 8 100
    exact congrArg Nat.cast chain
  · simp only [setRate]
    split <;> omega

theorem refillTokens_capped {pacer : PacketPacer} (capped : Capped pacer) (now : Nat) :
    Capped (pacer.refillTokens now) := by
  simp only [refillTokens]
  split
  · exact ⟨capped.cap, min_le_left _ _⟩
  · exact capped

/-- A refill whose product does not overflow adds the rate times the time, rounded
down, up to the cap. -/
theorem refillTokens_eq {pacer : PacketPacer} {now : Nat} (capped : Capped pacer)
    (rate : 0 < pacer.rateBps.toNat) (later : pacer.lastUpdateUs ≤ now)
    (defined : pacer.rateBps.toNat * (now - pacer.lastUpdateUs) < 2 ^ 63) :
    pacer.refillTokens now =
      { pacer with
        tokens := min pacer.maxTokens
          (pacer.tokens + (pacer.rateBps.toNat * (now - pacer.lastUpdateUs) / 8000000 : Nat))
        lastUpdateUs := now } := by
  have positive : 0 < pacer.rateBps := UInt64.lt_iff_toNat_lt.mpr rate
  have elapsed : (now : Int) - pacer.lastUpdateUs = (now - pacer.lastUpdateUs : Nat) := by omega
  simp only [refillTokens, elapsed, positive, and_true]
  split
  case isTrue advanced =>
    have product : int64 (pacer.rateBps.toNat * (now - pacer.lastUpdateUs : Nat)) =
        (pacer.rateBps.toNat * (now - pacer.lastUpdateUs) : Nat) := by
      rw [← Nat.cast_mul]
      exact int64_eq (by omega) (by omega)
    rw [product]
    congr 2
  case isFalse still =>
    have same : now = pacer.lastUpdateUs := by omega
    have below := capped.below
    obtain ⟨rateBps, tokens, maxTokens, lastUpdateUs⟩ := pacer
    simp only at same below
    simp [same, below]

end PacketPacer
end UltraDisplay
