import Mathlib.Data.Nat.Basic
import Mathlib.Tactic.Ring

/-! Little-endian encodings of fixed width: the bytes of a number, the number of
some bytes, and what a reader finds in a window of an encoding. -/
namespace LittleEndian

def bytes : (width value : Nat) → List UInt8
  | 0, _ => []
  | width + 1, value => UInt8.ofNat value :: bytes width (value / 256)

def value (encoded : List UInt8) : Nat :=
  encoded.foldr (fun byte rest => byte.toNat + 256 * rest) 0

@[simp] theorem bytes_length (width value : Nat) : (bytes width value).length = width := by
  induction width generalizing value with
  | zero => rfl
  | succ width ih => rw [bytes, List.length_cons, ih]

theorem value_cons (byte : UInt8) (rest : List UInt8) :
    value (byte :: rest) = byte.toNat + 256 * value rest := rfl

/-- The encoding keeps the number modulo what the width can hold. -/
theorem value_bytes (width n : Nat) : value (bytes width n) = n % 256 ^ width := by
  induction width generalizing n with
  | zero => simp [bytes, value, Nat.mod_one]
  | succ width ih =>
    rw [bytes, value_cons, ih, Nat.pow_succ', Nat.mod_mul]
    rfl

/-- A window that starts `k` bytes in sees the number without its low bytes. -/
theorem bytes_drop (width n k : Nat) :
    (bytes width n).drop k = bytes (width - k) (n / 256 ^ k) := by
  induction k generalizing width n with
  | zero => simp
  | succ k ih =>
    cases width with
    | zero => simp [bytes]
    | succ width =>
      rw [bytes, List.drop_succ_cons, ih, Nat.div_div_eq_div_mul, ← Nat.pow_succ',
        Nat.add_sub_add_right]

theorem bytes_take (width n k : Nat) (short : k ≤ width) :
    (bytes width n).take k = bytes k n := by
  induction k generalizing width n with
  | zero => simp [bytes]
  | succ k ih =>
    obtain ⟨width, rfl⟩ : ∃ w, width = w + 1 := ⟨width - 1, by omega⟩
    rw [bytes, List.take_succ_cons, ih _ _ (by omega), bytes]

end LittleEndian
