import UltraDisplay.Library.Transition
import UltraDisplay.Shared.Pacer

/-! How much a paced sender records in a window of time. The bucket is refilled when
a packet is tested and not when it is recorded, so the first packet of a window may
have been tested before it. -/
namespace UltraDisplay.PacketPacer
open Transition

/-- A pacer with the time and the sizes tested with success since the last record. -/
structure Bucket where
  pacer : PacketPacer
  now : Nat
  granted : List UInt64 := []

inductive Event where
  | setRate (bps : UInt64)
  | canSend (packetBytes : UInt64) (now : Nat)
  | recordSend (packetBytes : UInt64) (now : Nat)
  deriving DecidableEq

namespace Bucket

def fresh (now : Nat) : Bucket := { pacer := construct now, now }

/-- Calls at non-decreasing times. The product of the rate and the time since the
last refill stays below 2^63, and what is recorded has been tested. -/
def step (bucket : Bucket) : Event → Option Bucket
  | .setRate bps => some { bucket with pacer := bucket.pacer.setRate bps, granted := [] }
  | .canSend packetBytes now =>
    if bucket.now ≤ now ∧ packetBytes.toNat < 2 ^ 63 ∧
        bucket.pacer.rateBps.toNat * (now - bucket.pacer.lastUpdateUs) < 2 ^ 63 then
      let (sendable, pacer) := bucket.pacer.canSend packetBytes now
      some
        { pacer, now
          granted := if sendable then packetBytes :: bucket.granted else bucket.granted }
    else none
  | .recordSend packetBytes now =>
    if bucket.now ≤ now ∧ packetBytes ∈ bucket.granted then
      some { pacer := bucket.pacer.recordSend packetBytes, now }
    else none

end Bucket

def Event.within (s t : Nat) : Event → Bool
  | .setRate _ => false
  | .canSend _ now => s ≤ now && now ≤ t
  | .recordSend _ now => s ≤ now && now ≤ t

def Event.bytes : Event → Nat
  | .recordSend packetBytes _ => packetBytes.toNat
  | _ => 0

def Event.keepsRate : Event → Bool
  | .setRate _ => false
  | _ => true

/-- The bytes recorded in the window. -/
def recorded (s t : Nat) : List Event → Nat
  | [] => 0
  | event :: events => (if event.within s t then event.bytes else 0) + recorded s t events

/-- The size of a packet recorded first thing in the window, tested before it. -/
def testedBefore (s t : Nat) (events : List Event) : Nat :=
  match events.find? (·.within s t) with
  | some (.recordSend packetBytes _) => packetBytes.toNat
  | _ => 0

namespace Bucket

def Balanced (bucket : Bucket) : Prop :=
  0 ≤ bucket.pacer.tokens ∧ bucket.pacer.tokens ≤ bucket.pacer.maxTokens

structure Sound (bucket : Bucket) : Prop where
  capped : Capped bucket.pacer
  solvent : 0 ≤ bucket.pacer.tokens
  time : bucket.pacer.lastUpdateUs ≤ bucket.now
  covered : ∀ packetBytes ∈ bucket.granted,
    packetBytes.toNat < 2 ^ 63 ∧ (packetBytes.toNat : Int) ≤ bucket.pacer.tokens

/-- What each call does where it is allowed. -/
inductive Stepped (bucket : Bucket) : Event → Bucket → Prop where
  | setRate {bps : UInt64} :
      Stepped bucket (.setRate bps) { bucket with pacer := bucket.pacer.setRate bps, granted := [] }
  | canSend {packetBytes : UInt64} {now : Nat} (later : bucket.now ≤ now)
      (size : packetBytes.toNat < 2 ^ 63)
      (defined : bucket.pacer.rateBps.toNat * (now - bucket.pacer.lastUpdateUs) < 2 ^ 63) :
      Stepped bucket (.canSend packetBytes now)
        { pacer := bucket.pacer.refillTokens now
          now
          granted := if int64 packetBytes.toNat ≤ (bucket.pacer.refillTokens now).tokens
            then packetBytes :: bucket.granted else bucket.granted }
  | recordSend {packetBytes : UInt64} {now : Nat} (later : bucket.now ≤ now)
      (granted : packetBytes ∈ bucket.granted) :
      Stepped bucket (.recordSend packetBytes now)
        { pacer := bucket.pacer.recordSend packetBytes, now }

theorem step_cases {bucket next : Bucket} (stepped : step bucket event = some next) :
    Stepped bucket event next := by
  cases event with
  | setRate bps =>
    cases Option.some.inj stepped
    exact .setRate
  | canSend packetBytes now =>
    simp only [step, PacketPacer.canSend, decide_eq_true_eq] at stepped
    split at stepped
    case isFalse => cases stepped
    case isTrue allowed =>
      cases Option.some.inj stepped
      exact .canSend allowed.1 allowed.2.1 allowed.2.2
  | recordSend packetBytes now =>
    simp only [step] at stepped
    split at stepped
    case isFalse => cases stepped
    case isTrue allowed =>
      cases Option.some.inj stepped
      exact .recordSend allowed.1 allowed.2

/-- What a refill within the limits does, whether or not there is a rate. -/
theorem refill_spec {pacer : PacketPacer} {now : Nat} (capped : Capped pacer)
    (later : pacer.lastUpdateUs ≤ now)
    (defined : pacer.rateBps.toNat * (now - pacer.lastUpdateUs) < 2 ^ 63) :
    (pacer.refillTokens now).rateBps = pacer.rateBps ∧
    (pacer.refillTokens now).maxTokens = pacer.maxTokens ∧
    pacer.tokens ≤ (pacer.refillTokens now).tokens ∧
    8000000 * (pacer.refillTokens now).tokens ≤
      8000000 * pacer.tokens + (pacer.rateBps.toNat * (now - pacer.lastUpdateUs) : Nat) ∧
    (pacer.refillTokens now).lastUpdateUs ≤ now ∧
    (0 < pacer.rateBps.toNat → (pacer.refillTokens now).lastUpdateUs = now) := by
  have below := capped.below
  rcases Nat.eq_zero_or_pos pacer.rateBps.toNat with zero | rate
  · have unpaced : ¬ 0 < pacer.rateBps := by
      rw [UInt64.lt_iff_toNat_lt, zero]
      exact Nat.lt_irrefl 0
    have same : pacer.refillTokens now = pacer := if_neg fun both => unpaced both.2
    rw [same]
    exact ⟨rfl, rfl, le_rfl, by omega, later, by omega⟩
  · rw [refillTokens_eq capped rate later defined]
    refine ⟨rfl, rfl, ?_, ?_, le_rfl, fun _ => rfl⟩
    · simp only
      omega
    · simp only
      omega

theorem step_sound {bucket next : Bucket} (sound : Sound bucket)
    (stepped : step bucket event = some next) : Sound next := by
  obtain ⟨capped, solvent, time, covered⟩ := sound
  cases step_cases stepped with
  | @setRate bps =>
    refine ⟨setRate_capped bucket.pacer bps, ?_, time, by simp⟩
    simp only [PacketPacer.setRate]
    split
    · exact Int.natCast_nonneg _
    · exact solvent
  | @canSend packetBytes now later size defined =>
    obtain ⟨_, _, grown, _, last, _⟩ := refill_spec capped (time.trans later) defined
    refine ⟨refillTokens_capped capped now, solvent.trans grown, last, ?_⟩
    have kept : ∀ other ∈ bucket.granted, other.toNat < 2 ^ 63 ∧
        (other.toNat : Int) ≤ (bucket.pacer.refillTokens now).tokens :=
      fun other member => ⟨(covered other member).1, (covered other member).2.trans grown⟩
    dsimp only
    split
    case isFalse => exact kept
    case isTrue sendable =>
      intro other member
      rcases List.mem_cons.mp member with rfl | member
      · rw [int64_eq (Int.natCast_nonneg _) (by exact_mod_cast size)] at sendable
        exact ⟨size, sendable⟩
      · exact kept other member
  | @recordSend packetBytes now later granted =>
    obtain ⟨size, enough⟩ := covered packetBytes granted
    have value := int64_eq (Int.natCast_nonneg packetBytes.toNat) (by exact_mod_cast size)
    have below := capped.below
    refine ⟨⟨capped.cap, ?_⟩, ?_, time.trans later, by simp⟩
    · simp only [PacketPacer.recordSend, value]
      omega
    · simp only [PacketPacer.recordSend, value]
      omega

theorem step_keeps {bucket next : Bucket} (sound : Sound bucket) (keeps : event.keepsRate = true)
    (stepped : step bucket event = some next) :
    next.pacer.rateBps = bucket.pacer.rateBps ∧ next.pacer.maxTokens = bucket.pacer.maxTokens ∧
    bucket.now ≤ next.now := by
  cases step_cases stepped with
  | setRate => cases keeps
  | canSend later _ defined =>
    obtain ⟨rate, cap, _⟩ := refill_spec sound.capped (sound.time.trans later) defined
    exact ⟨rate, cap, later⟩
  | recordSend later => exact ⟨rfl, rfl, later⟩

theorem step_within {bucket next : Bucket} (keeps : event.keepsRate = true)
    (stepped : step bucket event = some next) (s t : Nat) :
    event.within s t = (s ≤ next.now && next.now ≤ t) := by
  cases step_cases stepped with
  | setRate => cases keeps
  | canSend => rfl
  | recordSend => rfl

theorem step_outside {bucket next : Bucket} {t : Nat} (keeps : event.keepsRate = true)
    (stepped : step bucket event = some next) (late : t < next.now) (s : Nat) :
    event.within s t = false := by
  rw [step_within keeps stepped]
  simp only [Bool.and_eq_false_iff, decide_eq_false_iff_not]
  omega

/-- The balance in bits, less what the rate had brought by the last refill. -/
def potential (bucket : Bucket) : Int :=
  8000000 * bucket.pacer.tokens - (bucket.pacer.rateBps.toNat * bucket.pacer.lastUpdateUs : Nat)

/-- A record takes its bytes from the balance, and a test adds no more than the rate
has brought since the refill before. -/
theorem step_potential {bucket next : Bucket} (sound : Sound bucket)
    (keeps : event.keepsRate = true) (rate : 0 < bucket.pacer.rateBps.toNat)
    (stepped : step bucket event = some next) :
    8000000 * (event.bytes : Int) + next.potential ≤ bucket.potential := by
  cases step_cases stepped with
  | setRate => cases keeps
  | canSend later _ defined =>
    have elapsed := sound.time.trans later
    obtain ⟨same, _, _, refilled, _, last⟩ := refill_spec sound.capped elapsed defined
    have earlier := Nat.mul_le_mul_left bucket.pacer.rateBps.toNat elapsed
    rw [Nat.mul_sub] at refilled
    simp only [potential, Event.bytes, same, last rate]
    omega
  | recordSend later granted =>
    have size := (sound.covered _ granted).1
    have value := int64_eq (Int.natCast_nonneg _) (by exact_mod_cast size)
    simp only [potential, Event.bytes, PacketPacer.recordSend, value]
    omega

theorem recorded_after {bucket final : Bucket} {s t : Nat} (sound : Sound bucket)
    (fixed : ∀ event ∈ events, event.keepsRate = true) (late : t < bucket.now)
    (reached : run step bucket events = some final) : recorded s t events = 0 := by
  induction events generalizing bucket with
  | nil => rfl
  | cons event events ih =>
    obtain ⟨next, stepped, reached⟩ := run_cons_iff.mp reached
    have keeps := fixed event (by simp)
    have time := (step_keeps sound keeps stepped).2.2
    have late' : t < next.now := late.trans_le time
    have outside := step_outside keeps stepped late' s
    rw [recorded, if_neg (by simp [outside]), Nat.zero_add]
    exact ih (step_sound sound stepped) (fun other member => fixed other (by simp [member]))
      late' reached

/-- From within the window, no more is recorded than the balance and what the rate
brings from the last refill to the end of the window. -/
theorem recorded_le_potential {bucket final : Bucket} {s t : Nat} (sound : Sound bucket)
    (fixed : ∀ event ∈ events, event.keepsRate = true) (rate : 0 < bucket.pacer.rateBps.toNat)
    (inside : s ≤ bucket.now) (early : bucket.now ≤ t)
    (reached : run step bucket events = some final) :
    8000000 * (recorded s t events : Int) ≤
      bucket.potential + (bucket.pacer.rateBps.toNat * t : Nat) := by
  have solvent := sound.solvent
  have elapsed := Nat.mul_le_mul_left bucket.pacer.rateBps.toNat (sound.time.trans early)
  induction events generalizing bucket with
  | nil =>
    simp only [recorded, potential]
    omega
  | cons event events ih =>
    obtain ⟨next, stepped, reached⟩ := run_cons_iff.mp reached
    have keeps := fixed event (by simp)
    have fixed' : ∀ other ∈ events, other.keepsRate = true :=
      fun other member => fixed other (by simp [member])
    obtain ⟨same, _, time⟩ := step_keeps sound keeps stepped
    have sound' := step_sound sound stepped
    by_cases late : t < next.now
    · have none_left := recorded_after (s := s) sound' fixed' late reached
      have outside := step_outside keeps stepped late s
      rw [recorded, if_neg (by simp [outside]), none_left]
      simp only [potential]
      omega
    · have early' := Nat.le_of_not_lt late
      have spent := step_potential sound keeps rate stepped
      have rest := ih sound' fixed' (same ▸ rate) (by omega) early' reached sound'.solvent
        (Nat.mul_le_mul_left _ (sound'.time.trans early'))
      rw [same] at rest
      rw [recorded]
      split <;> omega

/-- A test sets the potential no higher than a full balance at its time. -/
theorem step_tested {bucket next : Bucket} {now : Nat} (sound : Sound bucket)
    (rate : 0 < bucket.pacer.rateBps.toNat)
    (stepped : step bucket (.canSend packetBytes now) = some next) :
    next.now = now ∧ next.potential ≤
      8000000 * bucket.pacer.maxTokens - (bucket.pacer.rateBps.toNat * now : Nat) := by
  have below := (step_sound sound stepped).capped.below
  cases step_cases stepped with
  | canSend later _ defined =>
    obtain ⟨same, cap, _, _, _, last⟩ :=
      refill_spec sound.capped (sound.time.trans later) defined
    simp only [cap] at below
    refine ⟨rfl, ?_⟩
    simp only [potential, same, last rate]
    omega

theorem recorded_of_tested {bucket next final : Bucket} {s t now : Nat} (sound : Sound bucket)
    (fixed : ∀ event ∈ events, event.keepsRate = true) (rate : 0 < bucket.pacer.rateBps.toNat)
    (inside : s ≤ now) (stepped : step bucket (.canSend packetBytes now) = some next)
    (reached : run step next events = some final) :
    8000000 * (recorded s t events : Int) ≤
      8000000 * bucket.pacer.maxTokens + (bucket.pacer.rateBps.toNat * (t - s) : Nat) := by
  have sound' := step_sound sound stepped
  obtain ⟨same, _, _⟩ := step_keeps sound rfl stepped
  obtain ⟨rfl, full⟩ := step_tested sound rate stepped
  by_cases late : t < next.now
  · have room := sound.capped.below
    have solvent := sound.solvent
    rw [recorded_after sound' fixed late reached]
    omega
  · have early := Nat.le_of_not_lt late
    have bound := recorded_le_potential sound' fixed (same ▸ rate) inside early reached
    rw [same] at bound
    have window : bucket.pacer.rateBps.toNat * t ≤
        bucket.pacer.rateBps.toNat * (t - s) + bucket.pacer.rateBps.toNat * next.now := by
      rw [← Nat.mul_add]
      exact Nat.mul_le_mul_left _ (by omega)
    omega

/-- After a record nothing is granted, so that the next call is a test. -/
theorem recorded_of_ungranted {bucket final : Bucket} {s t : Nat} (sound : Sound bucket)
    (fixed : ∀ event ∈ events, event.keepsRate = true) (rate : 0 < bucket.pacer.rateBps.toNat)
    (inside : s ≤ bucket.now) (empty : bucket.granted = [])
    (reached : run step bucket events = some final) :
    8000000 * (recorded s t events : Int) ≤
      8000000 * bucket.pacer.maxTokens + (bucket.pacer.rateBps.toNat * (t - s) : Nat) := by
  have room := sound.capped.below
  have solvent := sound.solvent
  cases events with
  | nil =>
    simp only [recorded]
    omega
  | cons event events =>
    obtain ⟨next, stepped, remaining⟩ := run_cons_iff.mp reached
    have fixed' : ∀ other ∈ events, other.keepsRate = true :=
      fun other member => fixed other (by simp [member])
    cases event with
    | setRate bps => cases fixed (.setRate bps) (by simp)
    | recordSend packetBytes now => simp [step, empty] at stepped
    | canSend packetBytes now =>
      have time := (step_keeps sound rfl stepped).2.2
      have same := (step_tested sound rate stepped).1
      have started : s ≤ now := by omega
      have bound := recorded_of_tested (t := t) sound fixed' rate started stepped remaining
      simpa [recorded, Event.bytes] using bound

theorem recorded_window {bucket final : Bucket} {s t : Nat} (sound : Sound bucket)
    (fixed : ∀ event ∈ events, event.keepsRate = true) (rate : 0 < bucket.pacer.rateBps.toNat)
    (reached : run step bucket events = some final) :
    8000000 * (recorded s t events : Int) ≤ 8000000 * bucket.pacer.maxTokens +
      (bucket.pacer.rateBps.toNat * (t - s) : Nat) + 8000000 * (testedBefore s t events : Int) := by
  induction events generalizing bucket with
  | nil =>
    have room := sound.capped.below
    have solvent := sound.solvent
    simp only [recorded]
    omega
  | cons event events ih =>
    obtain ⟨next, stepped, remaining⟩ := run_cons_iff.mp reached
    have keeps := fixed event (by simp)
    have fixed' : ∀ other ∈ events, other.keepsRate = true :=
      fun other member => fixed other (by simp [member])
    obtain ⟨same, cap, time⟩ := step_keeps sound keeps stepped
    have sound' := step_sound sound stepped
    have within := step_within keeps stepped s t
    by_cases inside : event.within s t = true
    · have bounds : s ≤ next.now ∧ next.now ≤ t := by simpa [within] using inside
      cases event with
      | setRate bps => cases keeps
      | canSend packetBytes now =>
        obtain ⟨rfl, _⟩ := step_tested sound rate stepped
        have bound := recorded_of_tested (t := t) sound fixed' rate bounds.1 stepped remaining
        simp only [recorded, Event.bytes, ite_self, Nat.zero_add]
        omega
      | recordSend packetBytes now =>
        have empty : next.granted = [] := by
          cases step_cases stepped with
          | recordSend => rfl
        have bound := recorded_of_ungranted (t := t) sound' fixed' (same ▸ rate) bounds.1 empty remaining
        rw [same, cap] at bound
        simp only [recorded, inside, if_true, Event.bytes, testedBefore, List.find?_cons]
        omega
    · have rest := ih sound' fixed' (same ▸ rate) remaining
      rw [same, cap] at rest
      simp only [recorded, testedBefore, List.find?_cons, inside] at rest ⊢
      simpa using rest

theorem fresh_sound (origin : Nat) : Sound (fresh origin) :=
  ⟨construct_capped origin, le_rfl, le_rfl, by simp [fresh]⟩

/-- In every window a sender records no more than a full bucket, what the rate brings
in the window, and one packet that was tested before it. -/
theorem window_conforms (origin : Nat) (prior during : List Event) (bps : UInt64)
    (bucket final : Bucket) (positive : 0 < bps)
    (set : run step (fresh origin) (prior ++ [.setRate bps]) = some bucket)
    (fixed : ∀ event ∈ during, event.keepsRate = true)
    (reached : run step bucket during = some final) :
    Throughout step Balanced bucket during ∧ ∀ s t, s ≤ t →
      8000000 * (recorded s t during : Int) ≤ 8000000 * bucket.pacer.maxTokens +
        (bps.toNat * (t - s) : Nat) + 8000000 * (testedBefore s t during : Int) := by
  have sound : Sound bucket := run_invariant (fun _ _ _ => step_sound) (fresh_sound origin) set
  have rate : bucket.pacer.rateBps = bps := by
    rw [run_append] at set
    obtain ⟨before, _, last⟩ := Option.bind_eq_some_iff.mp set
    cases Option.some.inj last
    rfl
  constructor
  · intro before state short arrived
    have kept : Sound state := run_invariant (fun _ _ _ => step_sound) sound arrived
    exact ⟨kept.solvent, kept.capped.below⟩
  · intro s t _
    have paced : 0 < bucket.pacer.rateBps.toNat := by
      rw [rate]
      exact UInt64.lt_iff_toNat_lt.mp positive
    have bound := recorded_window (s := s) (t := t) sound fixed paced reached
    rwa [rate] at bound

/-- Two packets at 8 Mbit/s, each recorded a millisecond after its test. -/
theorem window_conforms_two :
    let during : List Event := [.canSend 1000 5000, .recordSend 1000 6000, .canSend 1000 6000,
      .recordSend 1000 7000]
    ∃ bucket, run step (fresh 0) [.setRate 8000000] = some bucket ∧
      Throughout step Balanced bucket during ∧ ∀ s t, s ≤ t →
        8000000 * (recorded s t during : Int) ≤ 8000000 * bucket.pacer.maxTokens +
          ((8000000 : UInt64).toNat * (t - s) : Nat) + 8000000 * (testedBefore s t during : Int) :=
  ⟨_, rfl, window_conforms 0 [] _ 8000000 _ _ (by decide) rfl (by decide) rfl⟩

/-- A full bucket tested early and recorded late can be emptied twice at one time. -/
theorem late_record_doubles :
    let during : List Event := [.canSend 10000 10000, .recordSend 10000 20000,
      .canSend 10000 20000, .recordSend 10000 20000]
    ∃ bucket final, run step (fresh 0) [.setRate 8000000] = some bucket ∧
      run step bucket during = some final ∧
      8000000 * bucket.pacer.maxTokens + ((8000000 : UInt64).toNat * (20000 - 20000) : Nat) <
        8000000 * (recorded 20000 20000 during : Int) :=
  ⟨_, _, rfl, rfl, by decide⟩

end Bucket
end UltraDisplay.PacketPacer
