import UltraDisplay.Shared.Pacer.Refill

/-! When `wait_until_can_send` returns. The clock is an adversary that may advance
by exactly the time slept: then the truncated sleep and the truncated refill can
leave the balance short for ever. A test whose refill is undefined ends the loop
without a return. -/
namespace UltraDisplay.PacketPacer

/-- The loop against a clock whose successive readings are given, for at most the
given number of tests. -/
def waitUntilCanSend (packetBytes : UInt64) : Nat → (Nat → Nat) → PacketPacer → Option PacketPacer
  | 0, _, _ => none
  | tests + 1, clock, pacer =>
    if pacer.Defined (clock 0) then
      let (sendable, pacer) := pacer.canSend packetBytes (clock 0)
      if sendable then some pacer
      else match pacer.pause packetBytes with
        | .undefined => none
        | _ => waitUntilCanSend packetBytes tests (fun reading => clock (reading + 1)) pacer
    else none

/-- The pacers that calls of the public functions lead to, none of them undefined. -/
inductive Reachable : PacketPacer → Prop where
  | construct (now : Nat) : Reachable (construct now)
  | setRate (bps : UInt64) : Reachable pacer → Reachable (pacer.setRate bps)
  | canSend {pacer : PacketPacer} (packetBytes : UInt64) (now : Nat)
      (defined : pacer.Defined now) :
      Reachable pacer → Reachable (pacer.canSend packetBytes now).2
  | recordSend {pacer : PacketPacer} (packetBytes : UInt64) (size : packetBytes.toNat < 2 ^ 63)
      (low : -9223372036854775808 ≤ pacer.tokens - packetBytes.toNat) :
      Reachable pacer → Reachable (pacer.recordSend packetBytes)

theorem Reachable.capped (reachable : Reachable pacer) : Capped pacer := by
  induction reachable with
  | construct now => exact construct_capped now
  | setRate bps _ _ => exact setRate_capped _ bps
  | canSend packetBytes now _ _ ih => exact refillTokens_capped ih now
  | @recordSend pacer packetBytes size _ _ ih =>
    refine ⟨ih.cap, ?_⟩
    have positive := int64_eq (Int.natCast_nonneg packetBytes.toNat) (by exact_mod_cast size)
    have below := ih.below
    have less := Int.sub_le_self pacer.tokens (Int.natCast_nonneg packetBytes.toNat)
    simp only [PacketPacer.recordSend, positive]
    exact less.trans below

theorem Reachable.low (reachable : Reachable pacer) : -9223372036854775808 ≤ pacer.tokens := by
  induction reachable with
  | construct now => exact (by decide : (-9223372036854775808 : Int) ≤ 0)
  | setRate bps _ ih =>
    simp only [PacketPacer.setRate]
    split <;> omega
  | @canSend pacer packetBytes now defined reachable ih =>
    simp only [PacketPacer.canSend]
    by_cases refills : pacer.lastUpdateUs < now ∧ 0 < pacer.rateBps
    · have elapsed : (0 : Int) < now - pacer.lastUpdateUs := by omega
      have sum := (defined ⟨elapsed, refills.2⟩).2.1
      have cap := reachable.capped.cap
      rw [refillTokens_defined refills.2 refills.1 defined]
      exact le_min (by omega) sum
    · have still : pacer.refillTokens now = pacer :=
        if_neg fun both => refills ⟨by omega, both.2⟩
      rw [still]
      exact ih
  | @recordSend pacer packetBytes size low _ _ =>
    have positive := int64_eq (Int.natCast_nonneg packetBytes.toNat) (by exact_mod_cast size)
    simp only [PacketPacer.recordSend, positive]
    exact low

/-- The pacer after the test that reads the clock for the `k`th time. -/
def tested (pacer : PacketPacer) (clock : Nat → Nat) : Nat → PacketPacer
  | 0 => pacer.refillTokens (clock 0)
  | k + 1 => (tested pacer clock k).refillTokens (clock (k + 1))

/-- The refill of that test is defined. -/
def DefinedAt (pacer : PacketPacer) (clock : Nat → Nat) : Nat → Prop
  | 0 => pacer.Defined (clock 0)
  | k + 1 => (tested pacer clock k).Defined (clock (k + 1))

def Returns (pacer : PacketPacer) (packetBytes : UInt64) (clock : Nat → Nat) : Prop :=
  ∃ tests result, waitUntilCanSend packetBytes tests clock pacer = some result

/-- A clock that advances by at least the time slept, and without bound where the
loop yields without end. No refill after the first overflows. -/
structure Admissible (pacer : PacketPacer) (packetBytes : UInt64) (clock : Nat → Nat) : Prop where
  start : pacer.lastUpdateUs ≤ clock 0
  forward : ∀ k, clock k ≤ clock (k + 1)
  sleeps : ∀ k us, (tested pacer clock k).pause packetBytes = .sleep us →
    clock k + us ≤ clock (k + 1)
  yields : (∀ n, ∃ k, n ≤ k ∧ (tested pacer clock k).tokens < int64 packetBytes.toNat ∧
    (tested pacer clock k).pause packetBytes = .yield) → ∀ bound, ∃ k, bound ≤ clock k
  defined : ∀ k, pacer.rateBps.toNat * (clock (k + 1) - clock k) < 2 ^ 63

theorem tested_shift (pacer : PacketPacer) (clock : Nat → Nat) (k : Nat) :
    tested (tested pacer clock 0) (fun reading => clock (reading + 1)) k =
      tested pacer clock (k + 1) := by
  induction k with
  | zero => rfl
  | succ k ih => exact congrArg (fun pacer => pacer.refillTokens (clock (k + 2))) ih

theorem definedAt_shift (pacer : PacketPacer) (clock : Nat → Nat) (k : Nat) :
    DefinedAt (tested pacer clock 0) (fun reading => clock (reading + 1)) k ↔
      DefinedAt pacer clock (k + 1) := by
  cases k with
  | zero => exact Iff.rfl
  | succ k => rw [DefinedAt, tested_shift, DefinedAt]

theorem waitUntilCanSend_succ (packetBytes : UInt64) (tests : Nat) (clock : Nat → Nat)
    (pacer : PacketPacer) : waitUntilCanSend packetBytes (tests + 1) clock pacer =
      if pacer.Defined (clock 0) then
        if int64 packetBytes.toNat ≤ (tested pacer clock 0).tokens then some (tested pacer clock 0)
        else match (tested pacer clock 0).pause packetBytes with
          | .undefined => none
          | _ => waitUntilCanSend packetBytes tests (fun reading => clock (reading + 1))
            (tested pacer clock 0)
      else none := by
  simp only [waitUntilCanSend, canSend, decide_eq_true_eq, tested]
  rfl

/-- The loop returns at a sendable balance, if no refill up to it and no pause before it
is undefined. -/
theorem returns_iff_tested (pacer : PacketPacer) (packetBytes : UInt64) (clock : Nat → Nat) :
    Returns pacer packetBytes clock ↔
      ∃ k, int64 packetBytes.toNat ≤ (tested pacer clock k).tokens ∧
        (∀ j ≤ k, DefinedAt pacer clock j) ∧
        ∀ j < k, (tested pacer clock j).pause packetBytes ≠ .undefined := by
  constructor
  · rintro ⟨tests, result, returned⟩
    induction tests generalizing pacer clock with
    | zero => contradiction
    | succ tests ih =>
      rw [waitUntilCanSend_succ] at returned
      split at returned
      case isFalse => contradiction
      case isTrue refilled =>
        split at returned
        case isTrue sendable =>
          refine ⟨0, sendable, fun j early => ?_, fun j early => absurd early (Nat.not_lt_zero j)⟩
          obtain rfl := Nat.le_zero.mp early
          exact refilled
        case isFalse =>
          split at returned
          case h_1 => contradiction
          case h_2 defined =>
            obtain ⟨k, sendable, refills, earlier⟩ := ih _ _ returned
            rw [tested_shift] at sendable
            refine ⟨k + 1, sendable, ?_, ?_⟩
            · intro j early
              cases j with
              | zero => exact refilled
              | succ j =>
                exact (definedAt_shift pacer clock j).mp (refills j (Nat.le_of_succ_le_succ early))
            · intro j early
              cases j with
              | zero => exact defined
              | succ j =>
                rw [← tested_shift]
                exact earlier j (Nat.lt_of_succ_lt_succ early)
  · rintro ⟨k, sendable, refills, earlier⟩
    have refilled : pacer.Defined (clock 0) := refills 0 (Nat.zero_le k)
    induction k generalizing pacer clock with
    | zero =>
      refine ⟨1, tested pacer clock 0, ?_⟩
      rw [waitUntilCanSend_succ, if_pos refilled, if_pos sendable]
    | succ k ih =>
      by_cases now : int64 packetBytes.toNat ≤ (tested pacer clock 0).tokens
      · refine ⟨1, tested pacer clock 0, ?_⟩
        rw [waitUntilCanSend_succ, if_pos refilled, if_pos now]
      · rw [← tested_shift] at sendable
        have later (j : Nat) (early : j ≤ k) :
            DefinedAt (tested pacer clock 0) (fun reading => clock (reading + 1)) j :=
          (definedAt_shift pacer clock j).mpr (refills (j + 1) (Nat.succ_le_succ early))
        have pauses (j : Nat) (early : j < k) : (tested (tested pacer clock 0)
            (fun reading => clock (reading + 1)) j).pause packetBytes ≠ .undefined := by
          rw [tested_shift]
          exact earlier (j + 1) (Nat.succ_lt_succ early)
        obtain ⟨tests, result, returned⟩ :=
          ih _ _ sendable later pauses (later 0 (Nat.zero_le k))
        refine ⟨tests + 1, result, ?_⟩
        rw [waitUntilCanSend_succ, if_pos refilled, if_neg now]
        split
        case h_1 undefined => exact absurd undefined (earlier 0 (Nat.zero_lt_succ k))
        case h_2 => exact returned

/-- A pacer at a reading of the clock: rate and cap as at the start. -/
structure At (start : PacketPacer) (now : Nat) (pacer : PacketPacer) : Prop where
  rate : pacer.rateBps = start.rateBps
  cap : pacer.maxTokens = start.maxTokens
  time : pacer.lastUpdateUs = now
  capped : Capped pacer

theorem At.refill {start pacer : PacketPacer} (here : At start now pacer)
    (rate : 0 < start.rateBps.toNat) (later : now ≤ next)
    (defined : start.rateBps.toNat * (next - now) < 2 ^ 63) :
    At start next (pacer.refillTokens next) ∧ (pacer.refillTokens next).tokens =
      min start.maxTokens (pacer.tokens + (start.rateBps.toNat * (next - now) / 8000000 : Nat)) := by
  obtain ⟨sameRate, sameCap, rfl, capped⟩ := here
  have equation := refillTokens_eq capped (sameRate ▸ rate) later (sameRate ▸ defined)
  refine ⟨⟨?_, ?_, ?_, refillTokens_capped capped next⟩, ?_⟩
  · rw [equation]
    exact sameRate
  · rw [equation]
    exact sameCap
  · rw [equation]
  · rw [equation, sameRate, sameCap]

/-- The refill of exactly the time slept falls short of the missing tokens unless
the rate divides their bits, and what is still missing has the same defect. -/
theorem starved {rate missing : Nat} (positive : 0 < rate) (odd : ¬ rate ∣ 8000000 * missing) :
    rate * (8000000 * missing / rate) / 8000000 < missing ∧
      ¬ rate ∣ 8000000 * (missing - rate * (8000000 * missing / rate) / 8000000) := by
  have whole := Nat.div_add_mod (8000000 * missing) rate
  have less := Nat.mod_lt (8000000 * missing) positive
  have some_left : 8000000 * missing % rate ≠ 0 := fun zero => odd (Nat.dvd_of_mod_eq_zero zero)
  generalize 8000000 * missing / rate = us at whole ⊢
  generalize 8000000 * missing % rate = rest at whole less some_left
  have short : rate * us / 8000000 < missing := by omega
  refine ⟨short, ?_⟩
  rintro ⟨times, equal⟩
  have refilled := Nat.div_add_mod (rate * us) 8000000
  have below := Nat.mod_lt (rate * us) (by decide : 0 < 8000000)
  generalize added : rate * us / 8000000 = new at *
  generalize rate * us % 8000000 = surplus at *
  have left : 8000000 * (missing - new) = rest + surplus := by omega
  rcases Nat.lt_or_ge 8000000 rate with fast | slow
  · -- the remainders add up to less than two rates, so to one, a multiple of 8000000
    have once : times = 1 := by
      have bound : rate * times < rate * 2 := by omega
      have times_lt := Nat.lt_of_mul_lt_mul_left bound
      have nonzero : times ≠ 0 := by
        rintro rfl
        omega
      omega
    rw [once, Nat.mul_one] at equal
    have multiple : 8000000 ∣ rate * us := Dvd.dvd.mul_right ⟨_, equal.symm⟩ us
    have exact_refill : surplus = 0 := by omega
    omega
  · -- a single token is missing, and the rate would divide its bits
    have one : missing - new = 1 := by omega
    rw [one] at equal
    exact odd (Dvd.dvd.mul_right ⟨times, by omega⟩ missing)

def slept : Pause → Nat
  | .sleep us => us
  | _ => 0

/-- The loop against the clock that advances by the time slept and by `least`. -/
def schedule (start : PacketPacer) (packetBytes : UInt64) (now least : Nat) : Nat → PacketPacer × Nat
  | 0 => (start.refillTokens now, now)
  | k + 1 =>
    let (pacer, now) := schedule start packetBytes now least k
    let next := now + max least (slept (pacer.pause packetBytes))
    (pacer.refillTokens next, next)

def exactClock (start : PacketPacer) (packetBytes : UInt64) (now least k : Nat) : Nat :=
  (schedule start packetBytes now least k).2

theorem exactClock_succ (start : PacketPacer) (packetBytes : UInt64) (now least k : Nat) :
    exactClock start packetBytes now least (k + 1) = exactClock start packetBytes now least k +
      max least (slept ((schedule start packetBytes now least k).1.pause packetBytes)) := rfl

theorem tested_exactClock (start : PacketPacer) (packetBytes : UInt64) (now least k : Nat) :
    tested start (exactClock start packetBytes now least) k =
      (schedule start packetBytes now least k).1 := by
  induction k with
  | zero => rfl
  | succ k ih =>
    rw [tested, ih]
    rfl

/-- A pacer at a rate between the limits of the congestion controller, a datagram and a
first reading of the clock that is no earlier than the last refill. -/
structure Waiting (start : PacketPacer) (packetBytes : UInt64) (now : Nat) : Prop where
  capped : Capped start
  low : -9223372036854775808 ≤ start.tokens
  slow : 100000 ≤ start.rateBps.toNat
  fast : start.rateBps.toNat ≤ 100000000
  small : packetBytes.toNat ≤ 1500
  later : start.lastUpdateUs ≤ now

variable {start : PacketPacer} {packetBytes : UInt64} {now : Nat}

theorem Waiting.moderate (waiting : Waiting start packetBytes now) : Moderate start :=
  ⟨waiting.capped, waiting.fast.trans (by decide), waiting.low⟩

theorem Waiting.first (waiting : Waiting start packetBytes now) :
    At start now (start.refillTokens now) := by
  have slow := waiting.slow
  have later := waiting.later
  have paced : 0 < start.rateBps := UInt64.lt_iff_toNat_lt.mpr (Nat.lt_of_lt_of_le (by decide) slow)
  have capped := refillTokens_capped waiting.capped now
  simp only [refillTokens] at capped ⊢
  split
  case isTrue advanced =>
    rw [if_pos advanced] at capped
    exact ⟨rfl, rfl, rfl, capped⟩
  case isFalse still =>
    have same : start.lastUpdateUs = now := by
      by_contra different
      exact still ⟨by omega, paced⟩
    exact ⟨rfl, rfl, same, waiting.capped⟩

theorem Waiting.size (waiting : Waiting start packetBytes now) :
    int64 packetBytes.toNat = packetBytes.toNat := by
  have small := waiting.small
  exact int64_eq (by omega) (by omega)

theorem gap_of_short {tokens : Int} (short : ¬ (packetBytes.toNat : Int) ≤ tokens) :
    ∃ missing : Nat, (packetBytes.toNat : Int) - tokens = missing ∧ 0 < missing :=
  ⟨((packetBytes.toNat : Int) - tokens).toNat, by omega, by omega⟩

theorem Waiting.pause {pacer : PacketPacer} {missing : Nat}
    (waiting : Waiting start packetBytes now) (here : At start reading pacer)
    (gap : (packetBytes.toNat : Int) - pacer.tokens = missing) (positive : 0 < missing) :
    pacer.pause packetBytes =
      if 8000000 * missing < 2 ^ 63 then .sleep (8000000 * missing / start.rateBps.toNat)
      else .undefined := by
  have slow := waiting.slow
  have paced : 0 < start.rateBps := UInt64.lt_iff_toNat_lt.mpr (Nat.lt_of_lt_of_le (by decide) slow)
  have product : (missing : Int) * 8 * 1000000 = (8000000 * missing : Nat) := by omega
  have fits : ((8000000 * missing : Nat) : Int) < 2 ^ 63 ↔ 8000000 * missing < 2 ^ 63 := by omega
  simp only [PacketPacer.pause, waiting.size, gap, here.rate, paced, true_and, product,
    Int.toNat_natCast, fits]
  exact if_pos (by omega)

theorem Waiting.pause_enough {pacer : PacketPacer} (waiting : Waiting start packetBytes now)
    (enough : (packetBytes.toNat : Int) ≤ pacer.tokens) : pacer.pause packetBytes = .yield := by
  simp only [PacketPacer.pause, waiting.size]
  exact if_neg fun both => by omega

theorem slept_defined {pacer : PacketPacer} (waiting : Waiting start packetBytes now)
    (here : At start reading pacer) :
    start.rateBps.toNat * slept (pacer.pause packetBytes) < 2 ^ 63 := by
  by_cases enough : (packetBytes.toNat : Int) ≤ pacer.tokens
  · rw [waiting.pause_enough enough]
    exact Nat.two_pow_pos 63
  · obtain ⟨missing, gap, positive⟩ := gap_of_short enough
    rw [waiting.pause here gap positive]
    by_cases fits : 8000000 * missing < 2 ^ 63
    · rw [if_pos fits]
      exact (Nat.mul_div_le _ _).trans_lt fits
    · rw [if_neg fits]
      exact Nat.two_pow_pos 63

theorem advance_defined {pacer : PacketPacer} (waiting : Waiting start packetBytes now)
    (here : At start reading pacer) (least : extra ≤ 1) :
    start.rateBps.toNat * max extra (slept (pacer.pause packetBytes)) < 2 ^ 63 := by
  have fast := waiting.fast
  rcases Nat.le_total (slept (pacer.pause packetBytes)) extra with le | le
  · rw [Nat.max_eq_left le]
    exact (Nat.mul_le_mul_left _ least).trans_lt (by omega)
  · rw [Nat.max_eq_right le]
    exact slept_defined waiting here

theorem schedule_at (waiting : Waiting start packetBytes now) (least : extra ≤ 1) (k : Nat) :
    At start (exactClock start packetBytes now extra k)
      (schedule start packetBytes now extra k).1 := by
  induction k with
  | zero => exact waiting.first
  | succ k ih =>
    have slow := waiting.slow
    have defined := advance_defined waiting ih least
    refine (ih.refill (by omega) ?_ ?_).1
    · rw [exactClock_succ]
      omega
    · rw [exactClock_succ, Nat.add_sub_cancel_left]
      exact defined

theorem exactClock_admissible (waiting : Waiting start packetBytes now) (least : extra ≤ 1) :
    Admissible start packetBytes (exactClock start packetBytes now extra) where
  start := waiting.later
  forward k := by
    rw [exactClock_succ]
    omega
  sleeps k us paused := by
    rw [tested_exactClock] at paused
    rw [exactClock_succ, paused, slept]
    omega
  yields always := by
    obtain ⟨k, _, short, paused⟩ := always 0
    rw [tested_exactClock, waiting.size] at short
    rw [tested_exactClock] at paused
    obtain ⟨missing, gap, positive⟩ := gap_of_short (Int.not_le.mpr short)
    rw [waiting.pause (schedule_at waiting least k) gap positive] at paused
    by_cases fits : 8000000 * missing < 2 ^ 63
    · rw [if_pos fits] at paused
      cases paused
    · rw [if_neg fits] at paused
      cases paused
  defined k := by
    have defined := advance_defined waiting (schedule_at waiting least k) least
    rw [exactClock_succ, Nat.add_sub_cancel_left]
    exact defined

/-- A balance that sleeping exactly as long as computed never brings up to the packet. -/
def Stuck (start : PacketPacer) (packetBytes : UInt64) (pacer : PacketPacer) : Prop :=
  ∃ missing : Nat, (packetBytes.toNat : Int) - pacer.tokens = missing ∧ 0 < missing ∧
    8000000 * missing < 2 ^ 63 ∧
    (start.maxTokens < packetBytes.toNat ∨ ¬ start.rateBps.toNat ∣ 8000000 * missing)

theorem stuck_step {pacer : PacketPacer} (waiting : Waiting start packetBytes now)
    (here : At start reading pacer) (least : extra ≤ 1)
    (exact_sleep : extra = 0 ∨ start.rateBps.toNat ≤ 8000000) (stuck : Stuck start packetBytes pacer) :
    Stuck start packetBytes
      (pacer.refillTokens (reading + max extra (slept (pacer.pause packetBytes)))) := by
  obtain ⟨missing, gap, positive, fits, defect⟩ := stuck
  have slow := waiting.slow
  have paused := waiting.pause here gap positive
  rw [if_pos fits] at paused
  have advance : max extra (slept (pacer.pause packetBytes)) =
      8000000 * missing / start.rateBps.toNat := by
    rw [paused, slept]
    rcases exact_sleep with rfl | low
    · exact Nat.zero_max _
    · have sleeps : 1 ≤ 8000000 * missing / start.rateBps.toNat :=
        (Nat.one_le_div_iff (by omega)).mpr (by omega)
      omega
  have defined := advance_defined waiting here least
  obtain ⟨_, refilled⟩ := here.refill (by omega) (Nat.le_add_right reading _)
    (by rw [Nat.add_sub_cancel_left]; exact defined)
  rw [Nat.add_sub_cancel_left, advance] at refilled
  have below := here.capped.below
  rw [here.cap] at below
  rw [advance]
  by_cases large : start.maxTokens < packetBytes.toNat
  · have short : ¬ (packetBytes.toNat : Int) ≤
        (pacer.refillTokens (reading + 8000000 * missing / start.rateBps.toNat)).tokens := by omega
    obtain ⟨left, gap', positive'⟩ := gap_of_short short
    exact ⟨left, gap', positive', by omega, Or.inl large⟩
  · have odd := defect.resolve_left large
    obtain ⟨short, odd'⟩ := starved (by omega) odd
    refine ⟨_, ?_, Nat.sub_pos_of_lt short, by omega, Or.inr odd'⟩
    omega

theorem stuck_never (waiting : Waiting start packetBytes now) (least : extra ≤ 1)
    (exact_sleep : extra = 0 ∨ start.rateBps.toNat ≤ 8000000)
    (stuck : Stuck start packetBytes (start.refillTokens now)) :
    ¬ Returns start packetBytes (exactClock start packetBytes now extra) := by
  have always : ∀ k, Stuck start packetBytes (schedule start packetBytes now extra k).1 := by
    intro k
    induction k with
    | zero => exact stuck
    | succ k ih => exact stuck_step waiting (schedule_at waiting least k) least exact_sleep ih
  rw [returns_iff_tested]
  rintro ⟨k, sendable, _⟩
  rw [tested_exactClock, waiting.size] at sendable
  obtain ⟨missing, gap, positive, _⟩ := always k
  omega

/-- The multiplication at the first pause overflows. -/
theorem overflow_never {missing : Nat} (waiting : Waiting start packetBytes now)
    (gap : (packetBytes.toNat : Int) - (start.refillTokens now).tokens = missing)
    (large : ¬ 8000000 * missing < 2 ^ 63) :
    ¬ Returns start packetBytes (exactClock start packetBytes now extra) := by
  have positive : 0 < missing := by omega
  have paused := waiting.pause waiting.first gap positive
  rw [if_neg large] at paused
  rw [returns_iff_tested]
  rintro ⟨k, sendable, _, earlier⟩
  cases k with
  | zero =>
    have short : (packetBytes.toNat : Int) ≤ (start.refillTokens now).tokens := waiting.size ▸ sendable
    omega
  | succ k => exact earlier 0 (Nat.zero_lt_succ k) paused

theorem Admissible.at {clock : Nat → Nat} (waiting : Waiting start packetBytes now)
    (admissible : Admissible start packetBytes clock) (first : clock 0 = now) (k : Nat) :
    At start (clock k) (tested start clock k) := by
  induction k with
  | zero =>
    have here := waiting.first
    rw [← first] at here
    exact here
  | succ k ih =>
    have slow := waiting.slow
    exact (ih.refill (by omega) (admissible.forward k) (admissible.defined k)).1

theorem Admissible.definedAt {clock : Nat → Nat} (waiting : Waiting start packetBytes now)
    (admissible : Admissible start packetBytes clock) (first : clock 0 = now)
    (recent : start.rateBps.toNat * (now - start.lastUpdateUs) < 2 ^ 63) (k : Nat) :
    DefinedAt start clock k ∧ Moderate (tested start clock k) := by
  induction k with
  | zero =>
    rw [← first] at recent
    exact ⟨(waiting.moderate.defined_iff (clock 0)).mpr recent,
      refillTokens_moderate waiting.moderate recent⟩
  | succ k ih =>
    have here := admissible.at waiting first k
    have recent : (tested start clock k).rateBps.toNat *
        (clock (k + 1) - (tested start clock k).lastUpdateUs) < 2 ^ 63 := by
      rw [here.rate, here.time]
      exact admissible.defined k
    exact ⟨(ih.2.defined_iff (clock (k + 1))).mpr recent, refillTokens_moderate ih.2 recent⟩

theorem Admissible.tokens_succ {clock : Nat → Nat} (waiting : Waiting start packetBytes now)
    (admissible : Admissible start packetBytes clock) (first : clock 0 = now) (k : Nat) :
    (tested start clock (k + 1)).tokens = min start.maxTokens ((tested start clock k).tokens +
      (start.rateBps.toNat * (clock (k + 1) - clock k) / 8000000 : Nat)) := by
  have slow := waiting.slow
  have here := admissible.at waiting first k
  exact (here.refill (by omega) (admissible.forward k) (admissible.defined k)).2

theorem returns_of_dvd {clock : Nat → Nat} {missing : Nat} (waiting : Waiting start packetBytes now)
    (admissible : Admissible start packetBytes clock) (first : clock 0 = now)
    (recent : start.rateBps.toNat * (now - start.lastUpdateUs) < 2 ^ 63)
    (gap : (packetBytes.toNat : Int) - (start.refillTokens now).tokens = missing)
    (positive : 0 < missing) (fits : 8000000 * missing < 2 ^ 63)
    (room : (packetBytes.toNat : Int) ≤ start.maxTokens)
    (even : start.rateBps.toNat ∣ 8000000 * missing) : Returns start packetBytes clock := by
  have paused := waiting.pause waiting.first gap positive
  rw [if_pos fits, ← first] at paused
  have sleep := admissible.sleeps 0 _ paused
  have tokens : (tested start clock 1).tokens = _ := admissible.tokens_succ waiting first 0
  have enough : 8000000 * missing ≤ start.rateBps.toNat * (clock (0 + 1) - clock 0) := by
    calc 8000000 * missing
        = start.rateBps.toNat * (8000000 * missing / start.rateBps.toNat) :=
          (Nat.mul_div_cancel' even).symm
      _ ≤ start.rateBps.toNat * (clock (0 + 1) - clock 0) := Nat.mul_le_mul_left _ (by omega)
  rw [← first] at gap
  have zeroth : tested start clock 0 = start.refillTokens (clock 0) := rfl
  rw [returns_iff_tested]
  refine ⟨1, ?_, fun j _ => (admissible.definedAt waiting first recent j).1, ?_⟩
  · rw [waiting.size]
    rw [zeroth] at tokens
    omega
  · intro j early
    obtain rfl := Nat.lt_one_iff.mp early
    rw [zeroth, paused]
    intro clash
    cases clash

theorem Admissible.tokens_mono {clock : Nat → Nat} (waiting : Waiting start packetBytes now)
    (admissible : Admissible start packetBytes clock) (first : clock 0 = now) (k n : Nat) :
    (tested start clock k).tokens ≤ (tested start clock (k + n)).tokens := by
  induction n with
  | zero => exact le_rfl
  | succ n ih =>
    have here := admissible.at waiting first (k + n)
    have below := here.capped.below
    rw [here.cap] at below
    have tokens : (tested start clock (k + (n + 1))).tokens = _ :=
      admissible.tokens_succ waiting first (k + n)
    omega

/-- Above 8 Mbit/s every microsecond brings a token. -/
theorem Admissible.tokens_gain {clock : Nat → Nat} (waiting : Waiting start packetBytes now)
    (admissible : Admissible start packetBytes clock) (first : clock 0 = now)
    (fast : 8000000 ≤ start.rateBps.toNat) (k n : Nat) (advanced : clock k < clock (k + n)) :
    min start.maxTokens ((tested start clock k).tokens + 1) ≤ (tested start clock (k + n)).tokens := by
  induction n with
  | zero => exact absurd advanced (Nat.lt_irrefl _)
  | succ n ih =>
    have advanced : clock k < clock (k + n + 1) := advanced
    rcases Nat.lt_or_ge (clock k) (clock (k + n)) with earlier | still
    · exact (ih earlier).trans (admissible.tokens_mono waiting first (k + n) 1)
    · have mono := admissible.tokens_mono waiting first k n
      have tokens : (tested start clock (k + (n + 1))).tokens = _ :=
        admissible.tokens_succ waiting first (k + n)
      have gain : 8000000 * 1 ≤ start.rateBps.toNat * (clock (k + n + 1) - clock (k + n)) :=
        Nat.mul_le_mul fast (by omega)
      omega

/-- Some reading finds enough tokens, or as many more than at first as one likes. -/
theorem Admissible.tokens_progress {clock : Nat → Nat} (waiting : Waiting start packetBytes now)
    (admissible : Admissible start packetBytes clock) (first : clock 0 = now)
    (room : (packetBytes.toNat : Int) ≤ start.maxTokens) (fast : 8000000 ≤ start.rateBps.toNat)
    (advancing : ∀ bound, ∃ k, bound ≤ clock k) (n : Nat) :
    ∃ k, (packetBytes.toNat : Int) ≤ (tested start clock k).tokens ∨
      (tested start clock 0).tokens + n ≤ (tested start clock k).tokens := by
  induction n with
  | zero => exact ⟨0, Or.inr (by omega)⟩
  | succ n ih =>
    obtain ⟨k, reached | close⟩ := ih
    · exact ⟨k, Or.inl reached⟩
    · obtain ⟨later, ahead⟩ := advancing (clock k + 1)
      have monotone : Monotone clock := monotone_nat_of_le_succ admissible.forward
      have after : k ≤ later := by
        by_contra before
        have := monotone (Nat.le_of_not_le before)
        omega
      obtain ⟨steps, rfl⟩ := Nat.exists_eq_add_of_le after
      have gain := admissible.tokens_gain waiting first fast k steps (by omega)
      refine ⟨k + steps, ?_⟩
      omega

theorem returns_of_fast {clock : Nat → Nat} {missing : Nat} (waiting : Waiting start packetBytes now)
    (admissible : Admissible start packetBytes clock) (first : clock 0 = now)
    (recent : start.rateBps.toNat * (now - start.lastUpdateUs) < 2 ^ 63)
    (gap : (packetBytes.toNat : Int) - (start.refillTokens now).tokens = missing)
    (fits : 8000000 * missing < 2 ^ 63) (room : (packetBytes.toNat : Int) ≤ start.maxTokens)
    (fast : 8000000 ≤ start.rateBps.toNat) (advancing : ∀ bound, ∃ k, bound ≤ clock k) :
    Returns start packetBytes clock := by
  have zeroth : tested start clock 0 = start.refillTokens now := first ▸ rfl
  obtain ⟨k, enough⟩ := admissible.tokens_progress waiting first room fast advancing missing
  rw [zeroth] at enough
  rw [returns_iff_tested]
  refine ⟨k, ?_, fun j _ => (admissible.definedAt waiting first recent j).1, ?_⟩
  · rw [waiting.size]
    omega
  · intro j _ undefined
    have grown := admissible.tokens_mono waiting first 0 j
    rw [Nat.zero_add, zeroth] at grown
    by_cases sendable : (packetBytes.toNat : Int) ≤ (tested start clock j).tokens
    · rw [waiting.pause_enough sendable] at undefined
      cases undefined
    · obtain ⟨left, gap', positive⟩ := gap_of_short sendable
      rw [waiting.pause (admissible.at waiting first j) gap' positive, if_pos (by omega)] at undefined
      cases undefined

/-- The first refill is defined, and the balance it leaves meets the packet, or the
packet fits the cap, the computation of the sleep does not overflow and what is missing
suits the rate. -/
def Sufficient (start : PacketPacer) (packetBytes : UInt64) (now : Nat) (suits : Int → Prop) : Prop :=
  let missing : Int := packetBytes.toNat - (start.refillTokens now).tokens
  start.rateBps.toNat * (now - start.lastUpdateUs) < 2 ^ 63 ∧
    (missing ≤ 0 ∨ (packetBytes.toNat : Int) ≤ start.maxTokens ∧
      8000000 * missing < 2 ^ 63 ∧ suits missing)

theorem sufficient_or_missing (start : PacketPacer) (packetBytes : UInt64) (now : Nat)
    (suits : Int → Prop) :
    Sufficient start packetBytes now suits ∨
      ¬ start.rateBps.toNat * (now - start.lastUpdateUs) < 2 ^ 63 ∨ ∃ missing : Nat,
        (packetBytes.toNat : Int) - (start.refillTokens now).tokens = missing ∧ 0 < missing ∧
        (8000000 * missing < 2 ^ 63 → (start.maxTokens < packetBytes.toNat ∨
          (packetBytes.toNat : Int) ≤ start.maxTokens ∧ ¬ suits missing)) := by
  by_cases recent : start.rateBps.toNat * (now - start.lastUpdateUs) < 2 ^ 63
  case neg => exact Or.inr (Or.inl recent)
  by_cases enough : (packetBytes.toNat : Int) ≤ (start.refillTokens now).tokens
  · exact Or.inl ⟨recent, Or.inl (by omega)⟩
  · obtain ⟨missing, gap, positive⟩ := gap_of_short enough
    by_cases sufficient : (packetBytes.toNat : Int) ≤ start.maxTokens ∧
        8000000 * (missing : Int) < 2 ^ 63 ∧ suits missing
    · refine Or.inl ⟨recent, Or.inr ?_⟩
      rw [gap]
      exact sufficient
    · refine Or.inr (Or.inr ⟨missing, gap, positive, fun fits => ?_⟩)
      by_cases room : (packetBytes.toNat : Int) ≤ start.maxTokens
      · exact Or.inr ⟨room, fun suited => sufficient ⟨room, by omega, suited⟩⟩
      · exact Or.inl (by omega)

theorem Sufficient.enough_or_suited {suits : Int → Prop}
    (sufficient : Sufficient start packetBytes now suits) :
    (packetBytes.toNat : Int) - (start.refillTokens now).tokens ≤ 0 ∨ ∃ missing : Nat,
      (packetBytes.toNat : Int) - (start.refillTokens now).tokens = missing ∧ 0 < missing ∧
      (packetBytes.toNat : Int) ≤ start.maxTokens ∧ 8000000 * missing < 2 ^ 63 ∧ suits missing := by
  rcases sufficient.2 with enough | ⟨room, fits, suited⟩
  · exact Or.inl enough
  · by_cases enough : (packetBytes.toNat : Int) ≤ (start.refillTokens now).tokens
    · exact Or.inl (by omega)
    · obtain ⟨missing, gap, positive⟩ := gap_of_short enough
      rw [gap] at fits suited
      exact Or.inr ⟨missing, gap, positive, room, by omega, suited⟩

theorem returns_of_enough {clock : Nat → Nat} (waiting : Waiting start packetBytes now)
    (admissible : Admissible start packetBytes clock) (first : clock 0 = now)
    (recent : start.rateBps.toNat * (now - start.lastUpdateUs) < 2 ^ 63)
    (enough : (packetBytes.toNat : Int) - (start.refillTokens now).tokens ≤ 0) :
    Returns start packetBytes clock := by
  have zeroth : tested start clock 0 = start.refillTokens now := first ▸ rfl
  rw [returns_iff_tested]
  refine ⟨0, ?_, fun j _ => (admissible.definedAt waiting first recent j).1,
    fun j early => absurd early (Nat.not_lt_zero j)⟩
  rw [zeroth, waiting.size]
  omega

/-- A first refill that overflows ends the loop, whatever the clock does. -/
theorem undefined_never {clock : Nat → Nat} (waiting : Waiting start packetBytes now)
    (first : clock 0 = now)
    (overflows : ¬ start.rateBps.toNat * (now - start.lastUpdateUs) < 2 ^ 63) :
    ¬ Returns start packetBytes clock := by
  rw [returns_iff_tested]
  rintro ⟨k, _, refills, _⟩
  have refilled : start.Defined (clock 0) := refills 0 (Nat.zero_le k)
  rw [first] at refilled
  exact overflows ((waiting.moderate.defined_iff now).mp refilled)

theorem insufficient_never {missing : Nat} (waiting : Waiting start packetBytes now)
    (least : extra ≤ 1)
    (gap : (packetBytes.toNat : Int) - (start.refillTokens now).tokens = missing)
    (positive : 0 < missing)
    (defect : 8000000 * missing < 2 ^ 63 →
      (start.maxTokens < packetBytes.toNat ∨ ¬ start.rateBps.toNat ∣ 8000000 * missing) ∧
      (extra = 0 ∨ start.rateBps.toNat ≤ 8000000)) :
    ¬ Returns start packetBytes (exactClock start packetBytes now extra) := by
  by_cases fits : 8000000 * missing < 2 ^ 63
  · obtain ⟨defect, exact_sleep⟩ := defect fits
    exact stuck_never waiting least exact_sleep ⟨missing, gap, positive, fits, defect⟩
  · exact overflow_never waiting gap fits

/-- Against every clock that advances by at least the time slept. -/
theorem returns_iff_dvd (waiting : Waiting start packetBytes now) :
    (∀ clock, Admissible start packetBytes clock → clock 0 = now → Returns start packetBytes clock) ↔
      Sufficient start packetBytes now fun missing =>
        (start.rateBps.toNat : Int) ∣ 8000000 * missing := by
  constructor
  · intro returns
    have clock := exactClock_admissible waiting (Nat.zero_le 1)
    refine (sufficient_or_missing start packetBytes now _).resolve_right ?_
    rintro (overflows | ⟨missing, gap, positive, defect⟩)
    · exact undefined_never waiting rfl overflows (returns _ clock rfl)
    refine insufficient_never waiting (Nat.zero_le 1) gap positive ?_ (returns _ clock rfl)
    intro fits
    refine ⟨(defect fits).imp_right fun both even => both.2 ?_, Or.inl rfl⟩
    exact_mod_cast even
  · intro sufficient clock admissible first
    rcases sufficient.enough_or_suited with enough | ⟨missing, gap, positive, room, fits, even⟩
    · exact returns_of_enough waiting admissible first sufficient.1 enough
    · have divides : start.rateBps.toNat ∣ 8000000 * missing := by exact_mod_cast even
      exact returns_of_dvd waiting admissible first sufficient.1 gap positive fits room divides

/-- Against clocks that also advance while the loop sleeps for no time at all. -/
theorem returns_iff_fast_or_dvd (waiting : Waiting start packetBytes now) :
    (∀ clock, Admissible start packetBytes clock → clock 0 = now → (∀ bound, ∃ k, bound ≤ clock k) →
      Returns start packetBytes clock) ↔
      Sufficient start packetBytes now fun missing =>
        8000000 < start.rateBps.toNat ∨ (start.rateBps.toNat : Int) ∣ 8000000 * missing := by
  constructor
  · intro returns
    have clock := exactClock_admissible waiting (Nat.le_refl 1)
    have advancing : ∀ bound, ∃ k, bound ≤ exactClock start packetBytes now 1 k := by
      intro bound
      refine ⟨bound, ?_⟩
      induction bound with
      | zero => exact Nat.zero_le _
      | succ bound ih =>
        rw [exactClock_succ]
        omega
    refine (sufficient_or_missing start packetBytes now _).resolve_right ?_
    rintro (overflows | ⟨missing, gap, positive, defect⟩)
    · exact undefined_never waiting rfl overflows (returns _ clock rfl advancing)
    refine insufficient_never waiting (Nat.le_refl 1) gap positive ?_ (returns _ clock rfl advancing)
    intro fits
    have small := waiting.small
    have cap := waiting.capped.cap
    rcases defect fits with large | ⟨_, unsuited⟩
    · exact ⟨Or.inl large, Or.inr (by omega)⟩
    · have slow : ¬ 8000000 < start.rateBps.toNat := fun fast => unsuited (Or.inl fast)
      refine ⟨Or.inr fun even => unsuited (Or.inr ?_), Or.inr (by omega)⟩
      exact_mod_cast even
  · intro sufficient clock admissible first advancing
    rcases sufficient.enough_or_suited with enough | ⟨missing, gap, positive, room, fits, suited⟩
    · exact returns_of_enough waiting admissible first sufficient.1 enough
    · rcases suited with fast | even
      · exact returns_of_fast waiting admissible first sufficient.1 gap fits room fast.le advancing
      · have divides : start.rateBps.toNat ∣ 8000000 * missing := by exact_mod_cast even
        exact returns_of_dvd waiting admissible first sufficient.1 gap positive fits room divides

end UltraDisplay.PacketPacer
