import Mathlib.Tactic.Linarith

/-! An integer average that moves one part in `weight` towards each sample, with the
division truncating towards zero. It stays between what it was and the sample, and
comes closer to it as long as it is at least the weight away. -/
namespace Smoothing
variable {weight average sample lo hi : Int}

def smooth (weight average sample : Int) : Int :=
  (average * (weight - 1) + sample).tdiv weight

theorem tdiv_between {n : Int} (positive : 0 < weight) (low : lo * weight ≤ n)
    (high : n ≤ hi * weight) : lo ≤ n.tdiv weight ∧ n.tdiv weight ≤ hi := by
  have above := Int.tdiv_le_tdiv positive low
  have below := Int.tdiv_le_tdiv positive high
  rw [Int.mul_tdiv_cancel _ positive.ne'] at above below
  exact ⟨above, below⟩

theorem smooth_between (positive : 0 < weight) (average_in : lo ≤ average ∧ average ≤ hi)
    (sample_in : lo ≤ sample ∧ sample ≤ hi) :
    lo ≤ smooth weight average sample ∧ smooth weight average sample ≤ hi := by
  have others : 0 ≤ weight - 1 := by omega
  have least := mul_le_mul_of_nonneg_right average_in.1 others
  have most := mul_le_mul_of_nonneg_right average_in.2 others
  apply tdiv_between positive
  · linarith
  · linarith

theorem distance_le (positive : 0 < weight) :
    (smooth weight average sample - sample).natAbs ≤ (average - sample).natAbs := by
  rcases Int.le_total average sample with below | above
  · have between := smooth_between positive ⟨le_rfl, below⟩ ⟨below, le_rfl⟩
    omega
  · have between := smooth_between positive ⟨above, le_rfl⟩ ⟨le_rfl, above⟩
    omega

/-- From the weight on, the part that the average moves is not cut off. -/
theorem distance_lt (positive : 0 < weight) (far : weight ≤ (average - sample).natAbs) :
    (smooth weight average sample - sample).natAbs < (average - sample).natAbs := by
  rcases Int.le_total average sample with below | above
  · have moved : (average + 1) * weight ≤ average * (weight - 1) + sample := by
      have away : weight ≤ sample - average := by omega
      linarith
    have short : average * (weight - 1) + sample ≤ sample * weight := by
      have others := mul_le_mul_of_nonneg_right below (by omega : 0 ≤ weight - 1)
      linarith
    have between := tdiv_between positive moved short
    unfold smooth
    omega
  · have moved : average * (weight - 1) + sample ≤ (average - 1) * weight := by
      have away : weight ≤ average - sample := by omega
      linarith
    have short : sample * weight ≤ average * (weight - 1) + sample := by
      have others := mul_le_mul_of_nonneg_right above (by omega : 0 ≤ weight - 1)
      linarith
    have between := tdiv_between positive short moved
    unfold smooth
    omega

end Smoothing
