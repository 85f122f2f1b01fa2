import Mathlib.Data.List.Chain
import UltraDisplay.Library.Transition
import UltraDisplay.Shared.Clock
import UltraDisplay.Shared.Pacer

/-! What refills bring over several calls. Each one multiplies the rate and the time
since the last one as int64_t, and drops what this leaves below a whole byte. -/
namespace UltraDisplay.PacketPacer
open Transition

/-- The product of `refill_tokens`, exactly. -/
def product (rateBps : UInt64) (elapsed : Int) : Int := int64 rateBps.toNat * elapsed

/-- No result of the refill is outside of int64_t. -/
def Defined (pacer : PacketPacer) (now : Nat) : Prop :=
  let elapsed : Int := now - pacer.lastUpdateUs
  0 < elapsed ∧ 0 < pacer.rateBps → InInt64 (product pacer.rateBps elapsed) ∧
    InInt64 (pacer.tokens + (product pacer.rateBps elapsed).tdiv 8000000)

instance (pacer : PacketPacer) (now : Nat) : Decidable (pacer.Defined now) := by
  unfold Defined
  infer_instance

/-- A defined refill, which may take tokens away at a rate from 2^63 on. -/
theorem refillTokens_defined {pacer : PacketPacer} {now : Nat} (rate : 0 < pacer.rateBps)
    (later : pacer.lastUpdateUs < now) (defined : pacer.Defined now) :
    pacer.refillTokens now =
      { pacer with
        tokens := min pacer.maxTokens
          (pacer.tokens + (product pacer.rateBps (now - pacer.lastUpdateUs)).tdiv 8000000)
        lastUpdateUs := now } := by
  have elapsed : (0 : Int) < now - pacer.lastUpdateUs := by omega
  have converted : int64 (pacer.rateBps.toNat * (now - pacer.lastUpdateUs)) =
      product pacer.rateBps (now - pacer.lastUpdateUs) := by
    rw [← (defined ⟨elapsed, rate⟩).1.bmod_eq]
    exact Int.bmod_mul_bmod.symm
  simp only [refillTokens, elapsed, rate, and_self, if_true, converted]
  rfl

/-! ### Schedules of polls -/

def poll (pacer : PacketPacer) (now : Nat) : Option PacketPacer :=
  if pacer.Defined now then some (pacer.refillTokens now) else none

/-- The remainders of a schedule's products below a whole byte. -/
def dropped (rateBps : UInt64) : Nat → List Nat → Int
  | _, [] => 0
  | last, now :: times =>
    (product rateBps (now - last)).tmod 8000000 + dropped rateBps now times

/-- No product of a schedule is outside of int64_t, and no sum of the balance and the
credits so far. -/
def Fits (rateBps : UInt64) : Int → Nat → List Nat → Prop
  | _, _, [] => True
  | tokens, last, now :: times =>
    let credited := tokens + (product rateBps (now - last)).tdiv 8000000
    (last < now → InInt64 (product rateBps (now - last)) ∧ InInt64 credited) ∧
      Fits rateBps credited now times

instance Fits.decide (rateBps : UInt64) :
    (tokens : Int) → (last : Nat) → (times : List Nat) → Decidable (Fits rateBps tokens last times)
  | _, _, [] => isTrue trivial
  | tokens, last, now :: times =>
    have : Decidable (Fits rateBps (tokens + (product rateBps (now - last)).tdiv 8000000) now times) :=
      Fits.decide rateBps _ now times
    inferInstanceAs (Decidable (_ ∧ _))

/-- A schedule from the last refill on, no refill of which reaches the maximum. -/
structure Schedule (pacer : PacketPacer) (times : List Nat) : Prop where
  increasing : (pacer.lastUpdateUs :: times).IsChain (· ≤ ·)
  below : EveryStep poll (fun _ _ next => next.tokens < next.maxTokens) pacer times

/-- Both schedules are defined and end with the same balance up to one byte. -/
def WithinOneByte (pacer : PacketPacer) (xs ys : List Nat) : Prop :=
  ∃ first second, run poll pacer xs = some first ∧ run poll pacer ys = some second ∧
    (first.tokens - second.tokens).natAbs ≤ 1

theorem defined_iff {pacer : PacketPacer} {now : Nat} (rate : 0 < pacer.rateBps) :
    pacer.Defined now ↔ (pacer.lastUpdateUs < now →
      InInt64 (product pacer.rateBps (now - pacer.lastUpdateUs)) ∧
      InInt64 (pacer.tokens +
        (product pacer.rateBps (now - pacer.lastUpdateUs)).tdiv 8000000)) := by
  have elapsed : (0 : Int) < now - pacer.lastUpdateUs ↔ pacer.lastUpdateUs < now := by omega
  simp only [Defined, rate, and_true, elapsed]

theorem poll_below {pacer next : PacketPacer} {now : Nat} (rate : 0 < pacer.rateBps)
    (later : pacer.lastUpdateUs ≤ now) (below : next.tokens < next.maxTokens)
    (polled : poll pacer now = some next) :
    next =
      { pacer with
        tokens := pacer.tokens + (product pacer.rateBps (now - pacer.lastUpdateUs)).tdiv 8000000
        lastUpdateUs := now } := by
  unfold poll at polled
  split at polled
  case isFalse => cases polled
  case isTrue defined =>
    cases Option.some.inj polled
    rcases Nat.lt_or_eq_of_le later with later | same
    · rw [refillTokens_defined rate later defined] at below ⊢
      simp only [PacketPacer.mk.injEq, true_and, and_true]
      simp only at below
      omega
    · have still : ¬ (0 : Int) < now - pacer.lastUpdateUs := by omega
      have unchanged : pacer.refillTokens now = pacer := if_neg fun both => still both.1
      rw [unchanged]
      simp [product, ← same]

theorem Schedule.first {pacer next : PacketPacer} {now : Nat} (schedule : Schedule pacer (now :: times))
    (rate : 0 < pacer.rateBps) (polled : poll pacer now = some next) :
    next =
        { pacer with
          tokens := pacer.tokens + (product pacer.rateBps (now - pacer.lastUpdateUs)).tdiv 8000000
          lastUpdateUs := now } ∧
      Schedule next times := by
  obtain ⟨increasing, below⟩ := schedule
  obtain ⟨later, chain⟩ := List.isChain_cons_cons.mp increasing
  obtain ⟨below, rest⟩ := EveryStep.cons_iff.mp below next polled
  have same := poll_below rate later below polled
  refine ⟨same, ?_, rest⟩
  rw [same]
  exact chain

theorem Schedule.runs {pacer : PacketPacer} (schedule : Schedule pacer times)
    (rate : 0 < pacer.rateBps)
    (fits : Fits pacer.rateBps pacer.tokens pacer.lastUpdateUs times) :
    ∃ final, run poll pacer times = some final := by
  induction times generalizing pacer with
  | nil => exact ⟨pacer, rfl⟩
  | cons now times ih =>
    obtain ⟨here, fits⟩ := fits
    have polled : poll pacer now = some (pacer.refillTokens now) :=
      if_pos ((defined_iff rate).mpr here)
    obtain ⟨same, rest⟩ := schedule.first rate polled
    rw [run_cons, polled, Option.bind_some]
    rw [same] at rest ⊢
    exact ih rest rate fits

/-- A schedule that runs to its end fits, and what the rate brings over the whole time
is credited or dropped. -/
theorem Schedule.balance {pacer final : PacketPacer} (schedule : Schedule pacer times)
    (rate : 0 < pacer.rateBps) (reached : run poll pacer times = some final) :
    Fits pacer.rateBps pacer.tokens pacer.lastUpdateUs times ∧
      8000000 * final.tokens + dropped pacer.rateBps pacer.lastUpdateUs times =
        8000000 * pacer.tokens +
          product pacer.rateBps (times.getLastD pacer.lastUpdateUs - pacer.lastUpdateUs) := by
  induction times generalizing pacer with
  | nil =>
    cases Option.some.inj reached
    exact ⟨trivial, by simp [dropped, product]⟩
  | cons now times ih =>
    obtain ⟨next, polled, reached⟩ := run_cons_iff.mp reached
    obtain ⟨rfl, rest⟩ := schedule.first rate polled
    obtain ⟨fits, balance⟩ := ih rest rate reached
    have defined : pacer.Defined now := by
      by_contra undefined
      rw [poll, if_neg undefined] at polled
      cases polled
    refine ⟨⟨(defined_iff rate).mp defined, fits⟩, ?_⟩
    have whole := Int.mul_tdiv_add_tmod (product pacer.rateBps (now - pacer.lastUpdateUs)) 8000000
    have parts : product pacer.rateBps (times.getLastD now - pacer.lastUpdateUs) =
        product pacer.rateBps (now - pacer.lastUpdateUs) +
          product pacer.rateBps (times.getLastD now - now) := by
      simp only [product]
      ring
    rw [List.getLastD_cons, parts]
    simp only [dropped] at balance ⊢
    omega

/-- How often a pacer is polled makes a difference of one byte at most precisely when
the remainders that the two schedules drop differ by one byte's worth at most. -/
theorem withinOneByte_iff (pacer : PacketPacer) (xs ys : List Nat) (rate : 0 < pacer.rateBps)
    (first : Schedule pacer xs) (second : Schedule pacer ys)
    (same : xs.getLastD pacer.lastUpdateUs = ys.getLastD pacer.lastUpdateUs) :
    WithinOneByte pacer xs ys ↔
      (Fits pacer.rateBps pacer.tokens pacer.lastUpdateUs xs ∧
        Fits pacer.rateBps pacer.tokens pacer.lastUpdateUs ys) ∧
      (dropped pacer.rateBps pacer.lastUpdateUs xs -
        dropped pacer.rateBps pacer.lastUpdateUs ys).natAbs ≤ 8000000 := by
  constructor
  · rintro ⟨final₁, final₂, reached₁, reached₂, near⟩
    obtain ⟨fits₁, balance₁⟩ := first.balance rate reached₁
    obtain ⟨fits₂, balance₂⟩ := second.balance rate reached₂
    rw [same] at balance₁
    exact ⟨⟨fits₁, fits₂⟩, by omega⟩
  · rintro ⟨⟨fits₁, fits₂⟩, near⟩
    obtain ⟨final₁, reached₁⟩ := first.runs rate fits₁
    obtain ⟨final₂, reached₂⟩ := second.runs rate fits₂
    have balance₁ := (first.balance rate reached₁).2
    have balance₂ := (second.balance rate reached₂).2
    rw [same] at balance₁
    exact ⟨final₁, final₂, reached₁, reached₂, by omega⟩

theorem Schedule.nil (pacer : PacketPacer) : Schedule pacer [] :=
  ⟨List.isChain_singleton _, EveryStep.nil⟩

theorem Schedule.cons {pacer : PacketPacer} {now : Nat} (later : pacer.lastUpdateUs ≤ now)
    (time : (pacer.refillTokens now).lastUpdateUs = now)
    (below : (pacer.refillTokens now).tokens < (pacer.refillTokens now).maxTokens)
    (rest : Schedule (pacer.refillTokens now) times) : Schedule pacer (now :: times) := by
  have increasing := rest.increasing
  rw [time] at increasing
  refine ⟨List.isChain_cons_cons.mpr ⟨later, increasing⟩, EveryStep.cons_iff.mpr ?_⟩
  intro next polled
  unfold poll at polled
  split at polled
  · cases Option.some.inj polled
    exact ⟨below, rest.below⟩
  · cases polled

/-- At a whole byte a microsecond nothing is dropped. -/
theorem withinOneByte_iff_whole :
    let pacer : PacketPacer := { rateBps := 8000000, maxTokens := 10000, lastUpdateUs := 0 }
    WithinOneByte pacer [1, 2] [2] ↔
      (Fits pacer.rateBps pacer.tokens pacer.lastUpdateUs [1, 2] ∧
        Fits pacer.rateBps pacer.tokens pacer.lastUpdateUs [2]) ∧
      (dropped pacer.rateBps pacer.lastUpdateUs [1, 2] -
        dropped pacer.rateBps pacer.lastUpdateUs [2]).natAbs ≤ 8000000 := by
  apply withinOneByte_iff
  case rate => decide
  case first =>
    apply Schedule.cons (by decide) rfl (by decide)
    apply Schedule.cons (by decide) rfl (by decide)
    exact Schedule.nil _
  case second =>
    apply Schedule.cons (by decide) rfl (by decide)
    exact Schedule.nil _
  case same => rfl

/-- Three polls a microsecond apart at 7.9 Mbit/s bring nothing, one poll two bytes. -/
theorem polling_starves : ¬ ∀ (pacer : PacketPacer) (xs ys : List Nat), 0 < pacer.rateBps →
    Schedule pacer xs → Schedule pacer ys →
    xs.getLastD pacer.lastUpdateUs = ys.getLastD pacer.lastUpdateUs →
    WithinOneByte pacer xs ys := by
  intro claim
  let pacer : PacketPacer := { rateBps := 7900000, maxTokens := 9875, lastUpdateUs := 0 }
  have often : Schedule pacer [1, 2, 3] := by
    apply Schedule.cons (by decide) rfl (by decide)
    apply Schedule.cons (by decide) rfl (by decide)
    apply Schedule.cons (by decide) rfl (by decide)
    exact Schedule.nil _
  have once : Schedule pacer [3] := by
    apply Schedule.cons (by decide) rfl (by decide)
    exact Schedule.nil _
  obtain ⟨first, second, reached₁, reached₂, near⟩ := claim pacer _ _ (by decide) often once rfl
  have tokens₁ : (run poll pacer [1, 2, 3]).map tokens = some 0 := by decide
  have tokens₂ : (run poll pacer [3]).map tokens = some 2 := by decide
  rw [reached₁, Option.map_some, Option.some_inj] at tokens₁
  rw [reached₂, Option.map_some, Option.some_inj] at tokens₂
  omega

/-! ### Long pauses -/

inductive Call where
  | setRate (bps : UInt64)
  | canSend (packetBytes : UInt64) (now : Nat)
  | recordSend (packetBytes : UInt64)

/-- Calls at up to 1000 Mbit/s and up to 30 days after the last refill, with packets of
up to 1500 bytes. A record that takes the balance out of int64_t is refused. -/
def call (pacer : PacketPacer) : Call → Option PacketPacer
  | .setRate bps => if bps ≤ 1000000000 then some (pacer.setRate bps) else none
  | .canSend packetBytes now =>
    if now ≤ pacer.lastUpdateUs + 2592000000000 then some (pacer.canSend packetBytes now).2
    else none
  | .recordSend packetBytes =>
    if packetBytes ≤ 1500 ∧ -9223372036854775808 ≤ pacer.tokens - packetBytes.toNat then
      some (pacer.recordSend packetBytes)
    else none

/-- The refill of a test is defined and takes nothing away. -/
def Grows (pacer : PacketPacer) (event : Call) (next : PacketPacer) : Prop :=
  ∀ packetBytes now, event = .canSend packetBytes now →
    pacer.Defined now ∧ pacer.tokens ≤ next.tokens

/-- The bits since the last refill, times a million, are fewer than 2^63. -/
def Recent (pacer : PacketPacer) : Call → Prop
  | .canSend _ now =>
    pacer.rateBps.toNat * (now - pacer.lastUpdateUs) < 9223372036854775808
  | _ => True

instance (pacer : PacketPacer) (event : Call) : Decidable (pacer.Recent event) := by
  cases event <;> (unfold Recent; infer_instance)

structure Moderate (pacer : PacketPacer) : Prop where
  capped : Capped pacer
  rate : pacer.rateBps.toNat ≤ 1000000000
  balance : -9223372036854775808 ≤ pacer.tokens

/-- Below 2^63 the conversion of the rate changes nothing, and the sum is in range
whenever the product is. -/
theorem Moderate.defined_iff {pacer : PacketPacer} (moderate : Moderate pacer) (now : Nat) :
    pacer.Defined now ↔
      pacer.rateBps.toNat * (now - pacer.lastUpdateUs) < 9223372036854775808 := by
  obtain ⟨⟨cap, below⟩, bounded, balance⟩ := moderate
  have converted : int64 pacer.rateBps.toNat = pacer.rateBps.toNat :=
    int64_eq (by omega) (by omega)
  by_cases later : pacer.lastUpdateUs < now ∧ 0 < pacer.rateBps
  · obtain ⟨later, rate⟩ := later
    have elapsed : (now : Int) - pacer.lastUpdateUs = (now - pacer.lastUpdateUs : Nat) := by omega
    rw [PacketPacer.defined_iff rate, elapsed, product, converted, ← Nat.cast_mul]
    simp only [later, true_implies, InInt64, Int.natCast_tdiv_eq_ediv]
    omega
  · have idle : pacer.rateBps.toNat * (now - pacer.lastUpdateUs) = 0 := by
      rw [Nat.mul_eq_zero, Nat.sub_eq_zero_iff_le]
      rw [UInt64.lt_iff_toNat_lt, UInt64.toNat_zero] at later
      omega
    rw [idle]
    refine iff_of_true ?_ (by decide)
    rintro ⟨elapsed, rate⟩
    exact absurd ⟨by omega, rate⟩ later

theorem refillTokens_grows {pacer : PacketPacer} {now : Nat} (moderate : Moderate pacer)
    (recent : pacer.rateBps.toNat * (now - pacer.lastUpdateUs) < 9223372036854775808) :
    pacer.tokens ≤ (pacer.refillTokens now).tokens := by
  have below := moderate.capped.below
  by_cases later : 0 < pacer.rateBps.toNat ∧ pacer.lastUpdateUs ≤ now
  · rw [refillTokens_eq moderate.capped later.1 later.2 recent]
    apply le_min below
    omega
  · have still : pacer.refillTokens now = pacer := by
      refine if_neg fun ⟨elapsed, rate⟩ => later ⟨?_, by omega⟩
      exact UInt64.lt_iff_toNat_lt.mp rate
    rw [still]

theorem setRate_moderate {pacer : PacketPacer} {bps : UInt64} (moderate : Moderate pacer)
    (slow : bps ≤ 1000000000) : Moderate (pacer.setRate bps) := by
  have slow := UInt64.le_iff_toNat_le.mp slow
  refine ⟨setRate_capped pacer bps, slow, ?_⟩
  have balance := moderate.balance
  simp only [setRate]
  split <;> omega

theorem refillTokens_moderate {pacer : PacketPacer} {now : Nat} (moderate : Moderate pacer)
    (recent : pacer.rateBps.toNat * (now - pacer.lastUpdateUs) < 9223372036854775808) :
    Moderate (pacer.refillTokens now) := by
  have rate : (pacer.refillTokens now).rateBps = pacer.rateBps := by
    unfold refillTokens
    dsimp only
    split <;> rfl
  refine ⟨refillTokens_capped moderate.capped now, ?_, ?_⟩
  · exact rate ▸ moderate.rate
  · exact moderate.balance.trans (refillTokens_grows moderate recent)

theorem recordSend_moderate {pacer : PacketPacer} {packetBytes : UInt64}
    (moderate : Moderate pacer) (small : packetBytes ≤ 1500)
    (balance : -9223372036854775808 ≤ pacer.tokens - packetBytes.toNat) :
    Moderate (pacer.recordSend packetBytes) := by
  have small := UInt64.le_iff_toNat_le.mp small
  change packetBytes.toNat ≤ 1500 at small
  have value : int64 packetBytes.toNat = packetBytes.toNat := int64_eq (by omega) (by omega)
  have below := moderate.capped.below
  refine ⟨⟨moderate.capped.cap, ?_⟩, moderate.rate, ?_⟩
  · simp only [recordSend, value]
    omega
  · simp only [recordSend, value]
    exact balance

theorem call_moderate {pacer next : PacketPacer} (moderate : Moderate pacer)
    (recent : pacer.Recent event) (called : pacer.call event = some next) : Moderate next := by
  cases event with
  | setRate bps =>
    simp only [call] at called
    split at called
    case isFalse => cases called
    case isTrue slow =>
      cases Option.some.inj called
      exact setRate_moderate moderate slow
  | canSend packetBytes now =>
    simp only [call] at called
    split at called
    case isFalse => cases called
    case isTrue =>
      cases Option.some.inj called
      exact refillTokens_moderate moderate recent
  | recordSend packetBytes =>
    simp only [call] at called
    split at called
    case isFalse => cases called
    case isTrue allowed =>
      cases Option.some.inj called
      exact recordSend_moderate moderate allowed.1 allowed.2

theorem grows_iff {pacer next : PacketPacer} (moderate : Moderate pacer)
    (called : pacer.call event = some next) : Grows pacer event next ↔ pacer.Recent event := by
  cases event with
  | canSend packetBytes now =>
    constructor
    · intro grows
      exact (moderate.defined_iff now).mp (grows packetBytes now rfl).1
    · rintro recent _ _ same
      cases same
      refine ⟨(moderate.defined_iff now).mpr recent, ?_⟩
      simp only [call] at called
      split at called
      case isFalse => cases called
      case isTrue =>
        cases Option.some.inj called
        exact refillTokens_grows moderate recent
  | setRate | recordSend => exact iff_of_true (fun _ _ other => nomatch other) trivial

/-- The refills of a run are defined and take nothing away precisely when none comes
so long after the last one that the product leaves int64_t. -/
theorem grows_iff_recent (origin : Nat) (calls : List Call) :
    EveryStep call Grows (construct origin) calls ↔
      Guarded call Recent (construct origin) calls := by
  have start : Moderate (construct origin) := by
    refine ⟨construct_capped origin, ?_, ?_⟩
    · exact Nat.zero_le _
    · exact (by decide : (-9223372036854775808 : Int) ≤ 0)
  refine EveryStep.congr_of_kept (I := Moderate) ?_ ?_ start
  · intro pacer event next
    exact call_moderate
  · intro pacer event next
    exact grows_iff

/-- A test 30 days after the last one at 1000 Mbit/s takes away a terabyte. -/
theorem long_pause_shrinks : ¬ EveryStep call Grows (construct 0)
    [.setRate 1000000000, .canSend 1200 2592000000000] := by
  intro every
  let paced := (construct 0).setRate 1000000000
  have set : run call (construct 0) [.setRate 1000000000] = some paced := rfl
  have tested : paced.call (.canSend 1200 2592000000000) =
      some (paced.canSend 1200 2592000000000).2 := by
    rw [call, if_pos (Nat.le_add_left _ _)]
  have grows := (every _ _ _ _ (List.prefix_refl _) set tested 1200 2592000000000 rfl).2
  revert grows
  decide

end UltraDisplay.PacketPacer
