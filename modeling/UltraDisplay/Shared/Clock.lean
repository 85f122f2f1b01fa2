import Mathlib.Tactic.Ring

/-! The clock synchronisation of shared/util/clock.hpp. Timestamps wrap modulo
2^64 and the conversion to a duration is two's complement. -/
namespace UltraDisplay

/-- Microseconds. -/
abbrev Timestamp := UInt64

abbrev Duration := Int64

/-- The values of int64_t, and so of a duration. -/
def InInt64 (x : Int) : Prop := -9223372036854775808 ≤ x ∧ x < 9223372036854775808

instance (x : Int) : Decidable (InInt64 x) := by
  unfold InInt64
  infer_instance

theorem InInt64.bmod_eq {x : Int} (fits : InInt64 x) : x.bmod (2 ^ 64) = x := by
  obtain ⟨low, high⟩ := fits
  apply Int.bmod_eq_of_le_mul_two
  · push_cast
    omega
  · push_cast
    omega

structure ClockSync where
  initialized : Bool := false
  smoothedRtt : Duration := 0
  offset : Duration := 0
  deriving DecidableEq

namespace ClockSync

/-- The filter shared by both averages. The source leaves a signed overflow of
`smoothed * 7 + sample` undefined; here it wraps. -/
def smooth (smoothed sample : Duration) : Duration := (smoothed * 7 + sample) / 8

def rttSample (t0 t1 t2 t3 : Timestamp) : Duration := ((t3 - t0) - (t2 - t1)).toInt64

/-- The division by two is still unsigned, the conversion comes last. -/
def offsetSample (t0 t1 t2 t3 : Timestamp) : Duration := (((t1 - t0) + (t2 - t3)) / 2).toInt64

def update (sync : ClockSync) (t0 t1 t2 t3 : Timestamp) : ClockSync :=
  let rtt := rttSample t0 t1 t2 t3
  let offset := offsetSample t0 t1 t2 t3
  if sync.initialized then
    { sync with
      smoothedRtt := smooth sync.smoothedRtt rtt
      offset := smooth sync.offset offset }
  else { initialized := true, smoothedRtt := rtt, offset := offset }

def localToRemote (sync : ClockSync) (here : Timestamp) : Timestamp := here + sync.offset.toUInt64

def remoteToLocal (sync : ClockSync) (remote : Timestamp) : Timestamp :=
  remote - sync.offset.toUInt64

def rtt (sync : ClockSync) : Duration := sync.smoothedRtt

/-- The two translations undo each other, whatever offset was measured. -/
theorem remoteToLocal_localToRemote (sync : ClockSync) (here : Timestamp) :
    sync.remoteToLocal (sync.localToRemote here) = here :=
  UInt64.add_sub_cancel here sync.offset.toUInt64

end ClockSync

/-- A ping answered by a pong: both take `delay`, the peer takes `processing`
to answer, and its clock reads `skew` more than the local one. -/
structure PingPong where
  (t0 t1 t2 t3 : Timestamp)
  (delay processing : Nat)
  skew : Int
  received : (t1.toNat : Int) = t0.toNat + delay + skew
  answered : t2.toNat = t1.toNat + processing
  returned : t3.toNat = t0.toNat + 2 * delay + processing
  moderate : skew.natAbs < 2 ^ 62

namespace PingPong

def measured (exchange : PingPong) : ClockSync :=
  ({} : ClockSync).update exchange.t0 exchange.t1 exchange.t2 exchange.t3

/-- The round trip and the skew are measured exactly, and every local reading is
translated to the peer's. -/
def Exact (exchange : PingPong) : Prop :=
  exchange.measured.rtt.toInt = 2 * exchange.delay ∧
  exchange.measured.offset.toInt = exchange.skew ∧
  ∀ here remote : Timestamp, (remote.toNat : Int) = here.toNat + exchange.skew →
    exchange.measured.localToRemote here = remote

end PingPong

theorem toInt_toInt64 (word : UInt64) : word.toInt64.toInt =
    if word.toNat < 2 ^ 63 then (word.toNat : Int) else word.toNat - 2 ^ 64 := by
  have signed : word.toInt64.toInt = word.toBitVec.toInt := rfl
  rw [signed, BitVec.toInt_eq_toNat_cond, UInt64.toNat_toBitVec]
  split <;> split <;> omega

theorem toNat_toUInt64 (duration : Duration) :
    (duration.toUInt64.toNat : Int) = duration.toInt % 2 ^ 64 := by
  have signed := toInt_toInt64 duration.toUInt64
  have small := duration.toUInt64.toNat_lt
  have same : duration.toUInt64.toInt64 = duration := rfl
  rw [same] at signed
  split at signed <;> omega

namespace PingPong
variable (exchange : PingPong)

/-- Before the conversion the round trip is right, whatever the skew. -/
theorem rtt_word : ((exchange.t3 - exchange.t0) - (exchange.t2 - exchange.t1)).toNat =
    2 * exchange.delay := by
  have fits := exchange.t3.toNat_lt
  have fitsRemote := exchange.t2.toNat_lt
  have answered := exchange.answered
  have returned := exchange.returned
  simp only [UInt64.toNat_sub]
  omega

/-- Halving the wrapped sum of the two differences loses the sign of the skew. -/
theorem offset_word :
    ((((exchange.t1 - exchange.t0) + (exchange.t2 - exchange.t3)) / 2).toNat : Int) =
      if 0 ≤ exchange.skew then exchange.skew else 2 ^ 63 + exchange.skew := by
  have fits := exchange.t3.toNat_lt
  have fitsRemote := exchange.t2.toNat_lt
  have received := exchange.received
  have answered := exchange.answered
  have returned := exchange.returned
  have moderate := exchange.moderate
  simp only [UInt64.toNat_div, UInt64.toNat_add, UInt64.toNat_sub, UInt64.reduceToNat]
  split <;> omega

/-- The measurement is exact when the peer's clock is not behind and the round
trip fits the signed duration, and in no other exchange. -/
theorem exact_iff : exchange.Exact ↔ 0 ≤ exchange.skew ∧ 2 * exchange.delay < 2 ^ 63 := by
  have rtt : exchange.measured.rtt.toInt = _ := toInt_toInt64 _
  have offset : exchange.measured.offset.toInt = _ := toInt_toInt64 _
  rw [exchange.rtt_word] at rtt
  have halved := exchange.offset_word
  have moderate := exchange.moderate
  constructor
  · rintro ⟨roundTrip, skew, _⟩
    rw [roundTrip] at rtt
    rw [skew] at offset
    split at rtt <;> split at offset <;> split at halved <;> omega
  · rintro ⟨ahead, short⟩
    have skew : exchange.measured.offset.toInt = exchange.skew := by
      rw [if_pos ahead] at halved
      rw [offset]
      split <;> omega
    refine ⟨?_, skew, ?_⟩
    · rw [rtt, if_pos short]
      omega
    · intro here remote reading
      have shift := toNat_toUInt64 exchange.measured.offset
      have fits := remote.toNat_lt
      rw [skew] at shift
      apply UInt64.toNat_inj.mp
      rw [ClockSync.localToRemote, UInt64.toNat_add]
      omega

/-- A peer one microsecond behind, with no delay at all. -/
def behind : PingPong where
  t0 := 1000
  t1 := 999
  t2 := 999
  t3 := 1000
  delay := 0
  processing := 0
  skew := -1
  received := by decide
  answered := by decide
  returned := by decide
  moderate := by decide

theorem behind_offset_positive :
    behind.measured.offset.toInt = 2 ^ 63 - 1 ∧ ¬ behind.Exact := by
  constructor
  · decide
  · rintro ⟨_, skew, _⟩
    revert skew
    decide

end PingPong
end UltraDisplay
