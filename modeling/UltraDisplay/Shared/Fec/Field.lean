import UltraDisplay.Library.BinaryField
import UltraDisplay.Shared.Fec
import Mathlib

/-! `gf_add` and `gf_mul` are the operations of the field of 256 elements: a byte
is a polynomial over the field of two elements, modulo the one that `0x11B` is. -/
namespace UltraDisplay.Fec
open BinaryField Polynomial

noncomputable def modulus : (ZMod 2)[X] := X ^ 8 + (X ^ 4 + X ^ 3 + X + 1)

/-- The class that a byte stands for. -/
noncomputable def element (a : UInt8) : AdjoinRoot modulus :=
  value (AdjoinRoot.root modulus) a.toBitVec

theorem modulus_natDegree : modulus.natDegree = 8 := by
  unfold modulus
  compute_degree!

theorem modulus_monic : modulus.Monic := by
  unfold modulus
  monicity!

/-- The eighth power is what the loop adds for the bit that it shifts out. -/
theorem root_pow_eight : AdjoinRoot.root modulus ^ 8 = value (AdjoinRoot.root modulus) (0x1B#8) := by
  have reduced : value (X : (ZMod 2)[X]) (0x1B#8) = X ^ 4 + X ^ 3 + X + 1 := by
    simp [value, Finset.sum_range_succ]
    ring
  have vanishes : AdjoinRoot.mk modulus (X ^ 8 + (X ^ 4 + X ^ 3 + X + 1)) = 0 := AdjoinRoot.mk_self
  rw [← reduced, map_add, map_pow, AdjoinRoot.mk_X, ← value_root] at vanishes
  rw [eq_neg_of_add_eq_zero_left vanishes, ZModModule.neg_eq_self]

@[simp] theorem element_xor (a b : UInt8) : element (a ^^^ b) = element a + element b :=
  value_xor _ a.toBitVec b.toBitVec

theorem element_zero : element 0 = 0 := value_zero _

theorem and_ne_zero_iff (a mask : UInt8) {i : Nat} (inside : i < 8)
    (single : mask.toBitVec = BitVec.twoPow 8 i) :
    a &&& mask ≠ 0 ↔ a.toBitVec.getLsbD i = true := by
  rw [ne_eq, ← UInt8.toBitVec_inj, UInt8.toBitVec_and, single, BitVec.and_twoPow]
  cases a.toBitVec.getLsbD i with
  | false => simp
  | true =>
    have set : BitVec.twoPow 8 i ≠ 0#8 := by
      intro zero
      simpa [inside] using congrArg (BitVec.getLsbD · i) zero
    simpa using set

/-- The lines of the loop that double `a`. -/
def double (a : UInt8) : UInt8 :=
  if a &&& 0x80 ≠ 0 then a <<< 1 ^^^ UInt8.ofNat 0x11B else a <<< 1

theorem element_double (a : UInt8) : element (double a) = AdjoinRoot.root modulus * element a := by
  have shifted := value_shiftLeft (AdjoinRoot.root modulus) a.toBitVec
  have highest := and_ne_zero_iff a 0x80 (i := 7) (by decide) rfl
  rw [root_pow_eight] at shifted
  unfold double
  split
  case isTrue set =>
    rw [if_pos (highest.mp set)] at shifted
    rw [element_xor]
    exact shifted
  case isFalse unset =>
    rw [if_neg (fun set => unset (highest.mpr set)), add_zero] at shifted
    exact shifted

/-- One round takes the lowest coefficient of `b` from the product. -/
theorem element_halve (b : UInt8) :
    element b = (if b &&& 1 ≠ 0 then (1 : AdjoinRoot modulus) else 0) +
      AdjoinRoot.root modulus * element (b >>> 1) := by
  have lowest := and_ne_zero_iff b 1 (i := 0) (by decide) rfl
  have halved := value_shiftRight (AdjoinRoot.root modulus) b.toBitVec
  rw [if_congr lowest rfl rfl]
  exact halved

/-- What the loop has yet to add is the product of the `a` and `b` it is left with,
and enough rounds leave nothing. -/
theorem element_gfMulLoop {rounds : Nat} (p a b : UInt8) (fits : b.toNat < 2 ^ rounds) :
    element (gfMulLoop rounds p a b) = element p + element a * element b := by
  induction rounds generalizing p a b with
  | zero =>
    obtain rfl : b = 0 := UInt8.toNat_inj.mp (by simpa using fits)
    rw [gfMulLoop, element_zero, mul_zero, add_zero]
  | succ rounds ih =>
    have less : (b >>> 1).toNat < 2 ^ rounds := by
      rw [UInt8.toNat_shiftRight]
      rw [pow_succ] at fits
      simp [Nat.shiftRight_eq_div_pow]
      omega
    have rest := ih (if b &&& 1 ≠ 0 then p ^^^ a else p) (double a) (b >>> 1) less
    have added : element (if b &&& 1 ≠ 0 then p ^^^ a else p) =
        element p + element a * (if b &&& 1 ≠ 0 then (1 : AdjoinRoot modulus) else 0) := by
      split
      · rw [element_xor, mul_one]
      · rw [mul_zero, add_zero]
    have unfolded : gfMulLoop (rounds + 1) p a b =
        gfMulLoop rounds (if b &&& 1 ≠ 0 then p ^^^ a else p) (double a) (b >>> 1) := rfl
    rw [unfolded, rest, added, element_double, element_halve b]
    ring

theorem element_gfMul (a b : UInt8) : element (gfMul a b) = element a * element b := by
  rw [gfMul, element_gfMulLoop 0 a b b.toNat_lt, element_zero, zero_add]

theorem element_bijective : Function.Bijective element := by
  have words := value_bijective modulus_monic modulus_natDegree
  have bytes : Function.Bijective UInt8.toBitVec :=
    ⟨fun _ _ => UInt8.toBitVec_inj.mp, fun word => ⟨.ofBitVec word, rfl⟩⟩
  exact words.comp bytes

def gfPow (a : UInt8) : Nat → UInt8
  | 0 => 1
  | n + 1 => gfMul (gfPow a n) a

theorem element_one : element 1 = 1 := by
  simp [element, value]

theorem element_gfPow (a : UInt8) (n : Nat) : element (gfPow a n) = element a ^ n := by
  induction n with
  | zero => rw [gfPow, element_one, pow_zero]
  | succ n ih => rw [gfPow, element_gfMul, ih, pow_succ]

theorem orderOf_three : orderOf (element 3) = 255 := by
  have power (i j : Nat) : element (gfPow (gfPow 3 i) j) = element 3 ^ (i * j) := by
    rw [element_gfPow, element_gfPow, pow_mul]
  have proper (i j : Nat) (different : gfPow (gfPow 3 i) j ≠ 1) : element 3 ^ (i * j) ≠ 1 := by
    intro same
    apply different
    apply element_bijective.injective
    rw [power, same, element_one]
  apply orderOf_eq_of_pow_and_pow_div_prime (by decide)
  · have cycle : gfPow (gfPow (gfPow 3 3) 5) 17 = 1 := by decide +kernel
    have whole := element_gfPow (gfPow (gfPow 3 3) 5) 17
    rw [cycle, element_one, power, ← pow_mul] at whole
    exact whole.symm
  · intro p prime divides
    have factors : p ∣ 3 * 5 * 17 := divides
    rw [prime.dvd_mul, prime.dvd_mul] at factors
    rcases factors with (three | five) | seventeen
    · obtain rfl := (Nat.prime_dvd_prime_iff_eq prime (by norm_num)).mp three
      exact proper 5 17 (by decide +kernel)
    · obtain rfl := (Nat.prime_dvd_prime_iff_eq prime (by norm_num)).mp five
      exact proper 3 17 (by decide +kernel)
    · obtain rfl := (Nat.prime_dvd_prime_iff_eq prime (by norm_num)).mp seventeen
      exact proper 3 5 (by decide +kernel)

instance : Nontrivial (AdjoinRoot modulus) :=
  ⟨element 0, element 1, fun same => absurd (element_bijective.injective same) (by decide)⟩

theorem pow_three_cycle : element 3 ^ 255 = 1 := orderOf_three ▸ pow_orderOf_eq_one _

/-- There are as many powers of 3 as nonzero bytes. -/
theorem exists_pow_three (x : AdjoinRoot modulus) (nonzero : x ≠ 0) : ∃ n, element 3 ^ n = x := by
  classical
  have unit_three : IsUnit (element 3) := IsUnit.of_pow_eq_one pow_three_cycle (by decide)
  have numbered : Function.Bijective fun n : Fin 256 => element (.ofFin n) :=
    element_bijective.comp ⟨fun _ _ same => congrArg UInt8.toFin same, fun a => ⟨a.toFin, rfl⟩⟩
  have : Fintype (AdjoinRoot modulus) := Fintype.ofBijective _ numbered
  have size : Fintype.card (AdjoinRoot modulus) = 256 := by
    rw [← Fintype.card_of_bijective numbered, Fintype.card_fin]
  have distinct : Set.InjOn (element 3 ^ ·) (Finset.range 255) := by
    intro i inside j also same
    refine pow_injOn_Iio_orderOf ?_ ?_ same
    · simpa [orderOf_three] using inside
    · simpa [orderOf_three] using also
  have inside : (Finset.range 255).image (element 3 ^ ·) ⊆ Finset.univ.erase 0 := by
    intro y member
    obtain ⟨n, _, rfl⟩ := Finset.mem_image.mp member
    exact Finset.mem_erase.mpr ⟨(unit_three.pow n).ne_zero, Finset.mem_univ _⟩
  have all : (Finset.range 255).image (element 3 ^ ·) = Finset.univ.erase 0 := by
    apply Finset.eq_of_subset_of_card_le inside
    rw [Finset.card_image_of_injOn distinct, Finset.card_erase_of_mem (Finset.mem_univ _),
      Finset.card_univ, size, Finset.card_range]
  have member : x ∈ (Finset.range 255).image (element 3 ^ ·) := by
    rw [all]
    exact Finset.mem_erase.mpr ⟨nonzero, Finset.mem_univ _⟩
  obtain ⟨n, _, same⟩ := Finset.mem_image.mp member
  exact ⟨n, same⟩

/-- `gf_add` and `gf_mul` are the addition and the multiplication of the field of
256 elements that the polynomial in the comment defines, and 3 generates all of them
but zero. -/
theorem bytes_are_field : Function.Bijective element ∧
    (∀ a b, element (gfAdd a b) = element a + element b) ∧
    (∀ a b, element (gfMul a b) = element a * element b) ∧ IsField (AdjoinRoot modulus) ∧
    (∀ x, x ≠ 0 ↔ ∃ n, element 3 ^ n = x) := by
  have inverse (n : Nat) : element 3 ^ n * (element 3 ^ 254) ^ n = 1 := by
    rw [← mul_pow, ← pow_succ', pow_three_cycle, one_pow]
  refine ⟨element_bijective, element_xor, element_gfMul, ?_, ?_⟩
  · constructor
    · exact exists_pair_ne _
    · exact mul_comm
    · intro x nonzero
      obtain ⟨n, rfl⟩ := exists_pow_three x nonzero
      exact ⟨(element 3 ^ 254) ^ n, inverse n⟩
  · intro x
    constructor
    · exact exists_pow_three x
    · rintro ⟨n, rfl⟩
      exact left_ne_zero_of_mul_eq_one (inverse n)

end UltraDisplay.Fec
