import Mathlib

/-! Bit vectors as polynomials over the field of two elements, the bit `i` being
the coefficient of the power `i`: exclusive or adds them, a shift multiplies them
by the variable, and those as long as a modulus represent the quotient by it. -/
namespace BinaryField
open Polynomial
variable {w : Nat} {R : Type*} [CommRing R]

/-- The polynomial of the bits, evaluated. -/
def value (x : R) (b : BitVec w) : R := ∑ i ∈ Finset.range w, if b.getLsbD i then x ^ i else 0

theorem value_zero (x : R) : value x (0#w) = 0 := by simp [value]

theorem value_xor [Module (ZMod 2) R] (x : R) (a b : BitVec w) :
    value x (a ^^^ b) = value x a + value x b := by
  rw [value, value, value, ← Finset.sum_add_distrib]
  refine Finset.sum_congr rfl fun i _ => ?_
  rw [BitVec.getLsbD_xor]
  cases a.getLsbD i with
  | false => simp
  | true =>
    cases b.getLsbD i with
    | false => simp
    | true => simp [ZModModule.add_self]

/-- What is shifted out is the coefficient of the first power that does not fit. -/
theorem value_shiftLeft (x : R) (b : BitVec (w + 1)) :
    value x (b <<< 1) + (if b.getLsbD w then x ^ (w + 1) else 0) = x * value x b := by
  have shifted : value x (b <<< 1) = ∑ i ∈ Finset.range w, if b.getLsbD i then x ^ (i + 1) else 0 := by
    rw [value, Finset.sum_range_succ']
    have lowest : (b <<< 1).getLsbD 0 = false := by simp
    simp only [lowest, Bool.false_eq_true, if_false, add_zero]
    refine Finset.sum_congr rfl fun i inside => ?_
    have small : i + 1 < w + 1 := by
      have := Finset.mem_range.mp inside
      omega
    rw [BitVec.getLsbD_shiftLeft]
    simp only [small, decide_true, Bool.true_and, Nat.add_sub_cancel, Nat.lt_one_iff,
      Nat.add_one_ne_zero, decide_false, Bool.not_false]
  have whole : ∑ i ∈ Finset.range (w + 1), (if b.getLsbD i then x ^ (i + 1) else 0) =
      x * value x b := by
    rw [value, Finset.mul_sum]
    refine Finset.sum_congr rfl fun i _ => ?_
    split
    · rw [pow_succ']
    · rw [mul_zero]
  rw [shifted, ← whole, Finset.sum_range_succ]

theorem value_shiftRight (x : R) (b : BitVec w) :
    value x b = (if b.getLsbD 0 then (1 : R) else 0) + x * value x (b >>> 1) := by
  cases w with
  | zero => simp [value]
  | succ w =>
    have shifted : value x (b >>> 1) = ∑ i ∈ Finset.range w, if b.getLsbD (i + 1) then x ^ i else 0 := by
      rw [value, Finset.sum_range_succ]
      have highest : (b >>> 1).getLsbD w = false := by
        rw [BitVec.getLsbD_ushiftRight, BitVec.getLsbD_of_ge _ _ (by omega)]
      simp only [highest, Bool.false_eq_true, if_false, add_zero]
      refine Finset.sum_congr rfl fun i _ => ?_
      rw [BitVec.getLsbD_ushiftRight, add_comm 1 i]
    rw [shifted, value, Finset.sum_range_succ', Finset.mul_sum, add_comm]
    congr 1
    · simp
    · refine Finset.sum_congr rfl fun i _ => ?_
      split
      · rw [pow_succ']
      · rw [mul_zero]

/-! ### The quotient by a monic modulus -/

theorem coeff_value (b : BitVec w) (i : Nat) :
    (value (X : (ZMod 2)[X]) b).coeff i = if b.getLsbD i then 1 else 0 := by
  rw [value, finsetSum_coeff]
  by_cases inside : i < w
  · rw [Finset.sum_eq_single_of_mem i (Finset.mem_range.mpr inside)]
    · split
      · rw [coeff_X_pow, if_pos rfl]
      · rw [coeff_zero]
    · intro j _ other
      split
      · rw [coeff_X_pow, if_neg other.symm]
      · rw [coeff_zero]
  · rw [BitVec.getLsbD_of_ge b i (Nat.not_lt.mp inside), if_neg Bool.false_ne_true]
    refine Finset.sum_eq_zero fun j member => ?_
    have other : i ≠ j := by
      have := Finset.mem_range.mp member
      omega
    split
    · rw [coeff_X_pow, if_neg other]
    · rw [coeff_zero]

theorem degree_value_lt (b : BitVec w) : (value (X : (ZMod 2)[X]) b).degree < w := by
  refine (degree_lt_iff_coeff_zero _ _).mpr fun i beyond => ?_
  rw [coeff_value, BitVec.getLsbD_of_ge b i beyond, if_neg Bool.false_ne_true]

variable {modulus : (ZMod 2)[X]}

theorem value_root (b : BitVec w) :
    value (AdjoinRoot.root modulus) b = AdjoinRoot.mk modulus (value X b) := by
  rw [value, value, map_sum]
  refine Finset.sum_congr rfl fun i _ => ?_
  split
  · rw [map_pow, AdjoinRoot.mk_X]
  · rw [map_zero]

/-- Each class modulo a monic polynomial of degree `w` is one bit vector. -/
theorem value_bijective (monic : modulus.Monic) (long : modulus.natDegree = w) :
    Function.Bijective (value (AdjoinRoot.root modulus) : BitVec w → AdjoinRoot modulus) := by
  have size : modulus.degree = w := by rw [degree_eq_natDegree monic.ne_zero, long]
  constructor
  · intro a b same
    rw [value_root, value_root, AdjoinRoot.mk_eq_mk] at same
    have small : degree (value X a - value X b : (ZMod 2)[X]) < modulus.degree := by
      rw [size]
      exact (degree_sub_le _ _).trans_lt (max_lt (degree_value_lt a) (degree_value_lt b))
    have equal : (value X a : (ZMod 2)[X]) = value X b := by
      by_contra different
      exact monic.not_dvd_of_degree_lt (sub_ne_zero.mpr different) small same
    apply BitVec.eq_of_getLsbD_eq
    intro i _
    have bits := congrArg (coeff · i) equal
    simp only [coeff_value] at bits
    cases first : a.getLsbD i with
    | false =>
      cases second : b.getLsbD i with
      | false => rfl
      | true => simp [first, second] at bits
    | true =>
      cases second : b.getLsbD i with
      | false => simp [first, second] at bits
      | true => rfl
  · intro element
    obtain ⟨p, rfl⟩ := AdjoinRoot.mk_surjective element
    let bits := (List.range w).map fun i => decide ((p %ₘ modulus).coeff i ≠ 0)
    have length : bits.length = w := by simp [bits]
    let b : BitVec w := (BitVec.ofBoolListLE bits).cast length
    have remainder : value X b = p %ₘ modulus := by
      ext i
      rw [coeff_value, BitVec.getLsbD_cast, BitVec.getLsbD_ofBoolListLE]
      rw [List.getD_eq_getElem?_getD, List.getElem?_map]
      by_cases inside : i < w
      · have binary : ∀ c : ZMod 2, (if c = 0 then 0 else 1) = c := by decide
        simp [List.getElem?_range inside, binary]
      · have beyond : (List.range w)[i]? = none := List.getElem?_eq_none (by simpa using inside)
        have small := degree_modByMonic_lt p monic
        rw [size] at small
        have vanishes := (degree_lt_iff_coeff_zero _ _).mp small i (Nat.not_lt.mp inside)
        simp [beyond, vanishes]
    refine ⟨b, ?_⟩
    rw [value_root, remainder, AdjoinRoot.mk_eq_mk]
    exact dvd_modByMonic_sub p modulus

end BinaryField
