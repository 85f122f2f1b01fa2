import UltraDisplay.Library.Smoothing
import UltraDisplay.Library.Transition
import UltraDisplay.Shared.Clock

/-! The round trip time over a run of updates. The first sample is taken as it is, and
later ones move the average by an eighth, which stays between the samples. -/
namespace UltraDisplay.ClockSync
open Transition

structure Exchange where
  (t0 t1 t2 t3 : Timestamp)

def Exchange.sample (exchange : Exchange) : Int :=
  (rttSample exchange.t0 exchange.t1 exchange.t2 exchange.t3).toInt

/-- A clock with the samples it has been updated with. -/
structure Log where
  sync : ClockSync := {}
  samples : List Int := []

def hear (log : Log) (exchange : Exchange) : Option Log :=
  some
    { sync := log.sync.update exchange.t0 exchange.t1 exchange.t2 exchange.t3
      samples := log.samples ++ [exchange.sample] }

/-- The update computes the round trip time without an overflow, and it lies between
two of the samples so far. -/
def Bounded (log : Log) (exchange : Exchange) (next : Log) : Prop :=
  (log.sync.initialized = true → InInt64 (log.sync.smoothedRtt.toInt * 7) ∧
    InInt64 (log.sync.smoothedRtt.toInt * 7 + exchange.sample)) ∧
  (∃ lo ∈ next.samples, lo ≤ next.sync.rtt.toInt) ∧ ∃ hi ∈ next.samples, next.sync.rtt.toInt ≤ hi

/-- The round trip time is no further from the value, and closer if it was more than 7
away. -/
def Closer (value : Int) (log : Log) (_ : Exchange) (next : Log) : Prop :=
  (next.sync.rtt.toInt - value).natAbs ≤ (log.sync.rtt.toInt - value).natAbs ∧
  (7 < (log.sync.rtt.toInt - value).natAbs →
    (next.sync.rtt.toInt - value).natAbs < (log.sync.rtt.toInt - value).natAbs)

/-- Samples below 2^59, and a round trip time between two of them from the first on. -/
structure Averaged (log : Log) : Prop where
  small : ∀ sample ∈ log.samples, sample.natAbs < 576460752303423488
  between : log.sync.initialized = true → (∃ lo ∈ log.samples, lo ≤ log.sync.rtt.toInt) ∧
    ∃ hi ∈ log.samples, log.sync.rtt.toInt ≤ hi

theorem Averaged.rtt_small {log : Log} (averaged : Averaged log)
    (initialized : log.sync.initialized = true) :
    log.sync.rtt.toInt.natAbs < 576460752303423488 := by
  obtain ⟨⟨lo, member, least⟩, hi, member', most⟩ := averaged.between initialized
  have low := averaged.small lo member
  have high := averaged.small hi member'
  omega

/-- Below 2^59 the filter in machine words is the filter on integers. -/
theorem smooth_toInt {smoothed sample : Duration}
    (small : smoothed.toInt.natAbs < 576460752303423488)
    (small' : sample.toInt.natAbs < 576460752303423488) :
    (smooth smoothed sample).toInt = Smoothing.smooth 8 smoothed.toInt sample.toInt := by
  have seven : (7 : Int64).toInt = 7 := by decide
  have eight : (8 : Int64).toInt = 8 := by decide
  have least : -576460752303423488 * 8 ≤ smoothed.toInt * 7 + sample.toInt := by omega
  have most : smoothed.toInt * 7 + sample.toInt ≤ 576460752303423488 * 8 := by omega
  obtain ⟨low, high⟩ := Smoothing.tdiv_between (by decide) least most
  have product : InInt64 (smoothed.toInt * 7) := by constructor <;> omega
  have sum : InInt64 (smoothed.toInt * 7 + sample.toInt) := by constructor <;> omega
  have quotient : InInt64 ((smoothed.toInt * 7 + sample.toInt).tdiv 8) := by constructor <;> omega
  rw [smooth, Int64.toInt_div, Int64.toInt_add, Int64.toInt_mul, seven, eight, product.bmod_eq,
    sum.bmod_eq, quotient.bmod_eq]
  rfl

theorem update_rtt {log : Log} (averaged : Averaged log) (exchange : Exchange)
    (small : exchange.sample.natAbs < 576460752303423488) :
    (log.sync.update exchange.t0 exchange.t1 exchange.t2 exchange.t3).rtt.toInt =
      if log.sync.initialized = true then
        Smoothing.smooth 8 log.sync.rtt.toInt exchange.sample
      else exchange.sample := by
  unfold update
  split
  case isTrue initialized => exact smooth_toInt (averaged.rtt_small initialized) small
  case isFalse => rfl

theorem hear_averaged {log next : Log} {exchange : Exchange} (averaged : Averaged log)
    (small : exchange.sample.natAbs < 576460752303423488) (heard : hear log exchange = some next) :
    Averaged next ∧ Bounded log exchange next := by
  cases Option.some.inj heard
  have rtt := update_rtt averaged exchange small
  have newest : exchange.sample ∈ log.samples ++ [exchange.sample] := by simp
  have between : (∃ lo ∈ log.samples ++ [exchange.sample],
        lo ≤ (log.sync.update exchange.t0 exchange.t1 exchange.t2 exchange.t3).rtt.toInt) ∧
      ∃ hi ∈ log.samples ++ [exchange.sample],
        (log.sync.update exchange.t0 exchange.t1 exchange.t2 exchange.t3).rtt.toInt ≤ hi := by
    rw [rtt]
    split
    case isFalse => exact ⟨⟨_, newest, le_rfl⟩, _, newest, le_rfl⟩
    case isTrue initialized =>
      obtain ⟨⟨lo, member, least⟩, hi, member', most⟩ := averaged.between initialized
      have earlier : ∀ sample ∈ log.samples, sample ∈ log.samples ++ [exchange.sample] :=
        fun sample listed => List.mem_append_left _ listed
      have eight : (0 : Int) < 8 := by decide
      rcases Int.le_total log.sync.rtt.toInt exchange.sample with below | above
      · have moved := Smoothing.smooth_between eight ⟨le_rfl, below⟩ ⟨below, le_rfl⟩
        exact ⟨⟨lo, earlier lo member, least.trans moved.1⟩, _, newest, moved.2⟩
      · have moved := Smoothing.smooth_between eight ⟨above, le_rfl⟩ ⟨le_rfl, above⟩
        exact ⟨⟨_, newest, moved.1⟩, hi, earlier hi member', moved.2.trans most⟩
  refine ⟨⟨?_, fun _ => between⟩, ?_, between⟩
  · intro sample member
    rcases List.mem_append.mp member with member | member
    · exact averaged.small sample member
    · rw [List.mem_singleton.mp member]
      exact small
  · intro initialized
    have before := averaged.rtt_small initialized
    change log.sync.smoothedRtt.toInt.natAbs < _ at before
    constructor
    · constructor <;> omega
    · constructor <;> omega

theorem hear_closer {log next : Log} {exchange : Exchange} (averaged : Averaged log)
    (small : exchange.sample.natAbs < 576460752303423488) (heard : hear log exchange = some next) :
    Closer exchange.sample log exchange next := by
  cases Option.some.inj heard
  unfold Closer
  rw [update_rtt averaged exchange small]
  split
  case isTrue =>
    have eight : (0 : Int) < 8 := by decide
    refine ⟨Smoothing.distance_le eight, fun far => ?_⟩
    apply Smoothing.distance_lt eight
    omega
  case isFalse =>
    rw [Int.sub_self]
    exact ⟨Nat.zero_le _, fun far => by omega⟩

/-- On every run of updates with samples below 2^59, the round trip time stays between
the samples, and it converges to within 7 of samples that stay the same. -/
theorem rtt_bounded_and_converges (exchanges : List Exchange)
    (small : ∀ exchange ∈ exchanges, exchange.sample.natAbs < 576460752303423488) :
    EveryStep hear Bounded {} exchanges ∧
    ∀ before during log value, exchanges = before ++ during → run hear {} before = some log →
      (∀ exchange ∈ during, exchange.sample = value) →
      EveryStep hear (Closer value) log during := by
  have preserved : ∀ log exchange next, Averaged log →
      exchange.sample.natAbs < 576460752303423488 → hear log exchange = some next →
      Averaged next :=
    fun _ _ _ averaged small heard => (hear_averaged averaged small heard).1
  have start : Averaged {} := ⟨by simp, by simp⟩
  have guarded : Guarded hear (fun _ exchange => exchange.sample.natAbs < 576460752303423488)
      {} exchanges := Guarded.of_forall small
  constructor
  · refine everyStep_guarded preserved ?_ guarded start
    intro log exchange next averaged small heard
    exact (hear_averaged averaged small heard).2
  · rintro before during log value rfl reached same
    have averaged : Averaged log :=
      run_guarded preserved (guarded.of_prefix (List.prefix_append _ _)) start reached
    have later : Guarded hear (fun _ exchange =>
        exchange.sample.natAbs < 576460752303423488 ∧ exchange.sample = value) log during := by
      apply Guarded.of_forall
      intro exchange member
      exact ⟨small exchange (List.mem_append_right _ member), same exchange member⟩
    refine everyStep_guarded (fun _ _ _ averaged small => preserved _ _ _ averaged small.1) ?_ later
      averaged
    rintro log exchange next averaged ⟨small, rfl⟩ heard
    exact hear_closer averaged small heard

/-- A first sample of 100, then a peer whose answer takes longer than the round trip. -/
theorem rtt_bounded_and_converges_negative :
    let exchanges : List Exchange := [⟨0, 0, 0, 100⟩, ⟨0, 0, 60, 10⟩, ⟨0, 0, 60, 10⟩]
    EveryStep hear Bounded {} exchanges ∧
    ∀ before during log value, exchanges = before ++ during → run hear {} before = some log →
      (∀ exchange ∈ during, exchange.sample = value) →
      EveryStep hear (Closer value) log during :=
  rtt_bounded_and_converges _ (by decide)

end UltraDisplay.ClockSync
