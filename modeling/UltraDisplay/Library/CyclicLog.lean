import Mathlib.Data.List.Basic
import Mathlib.Logic.Function.Basic
import Mathlib.Tactic.Ring

/-! A growing log kept in a buffer of `n` slots: entry `j` lives in slot
`j % n` until entry `j + n` takes the slot over. Positions of the log are
unbounded, so wrap-around is reduced to congruence of positions. -/
namespace CyclicLog
variable {α : Type*}

theorem residue_inj {a b n : Nat} (same : a % n = b % n) (ordered : a ≤ b) (near : b < a + n) :
    a = b := by
  have divides : n ∣ b - a := Nat.dvd_of_mod_eq_zero (Nat.sub_mod_eq_zero_of_mod_eq same.symm)
  have small : b - a < n := by omega
  have := Nat.eq_zero_of_dvd_of_lt divides small
  omega

/-- Two positions less than a turn apart are as far apart as their slots, once
around the buffer if the later slot is the lower one. -/
theorem residue_distance {a b n : Nat} (ordered : a ≤ b) (near : b < a + n) :
    (if b % n ≥ a % n then b % n - a % n else n - a % n + b % n) = b - a := by
  have positive : 0 < n := by omega
  have slot := Nat.mod_lt a positive
  have later : b % n = (a % n + (b - a)) % n := by
    rw [Nat.mod_add_mod, Nat.add_sub_cancel' ordered]
  by_cases turn : a % n + (b - a) < n
  · rw [Nat.mod_eq_of_lt turn] at later
    rw [if_pos (by omega)]
    omega
  · have past : n ≤ a % n + (b - a) := by omega
    have short : a % n + (b - a) - n < n := by omega
    rw [Nat.mod_eq_sub_mod past, Nat.mod_eq_of_lt short] at later
    rw [if_neg (by omega)]
    omega

theorem newest_alias {v m n : Nat} (below : v < m) (positive : 0 < n) :
    ∃ j, v ≤ j ∧ j < m ∧ m ≤ j + n ∧ j % n = v % n := by
  refine ⟨v + n * ((m - 1 - v) / n), by omega, ?_, ?_, by simp⟩
  · have := Nat.mul_div_le (m - 1 - v) n
    omega
  · have := Nat.lt_mul_div_succ (m - 1 - v) positive
    rw [Nat.mul_add] at this
    omega

/-- Every live position among the last `n` of the log is still in its slot. -/
def Holds (n : Nat) (slots : Nat → α) (log : List α) (live : Nat → Prop) : Prop :=
  ∀ j x, live j → log.length ≤ j + n → log[j]? = some x → slots (j % n) = x

namespace Holds
variable {n : Nat} {slots : Nat → α} {log : List α} {live less : Nat → Prop}

theorem mono (holds : Holds n slots log live) (fewer : ∀ j, less j → live j) :
    Holds n slots log less :=
  fun j x here => holds j x (fewer j here)

/-- Writing the next entry disturbs only the position `n` before it, which has
left the window. -/
theorem append (holds : Holds n slots log live) (x : α) :
    Holds n (Function.update slots (log.length % n) x) (log ++ [x]) live := by
  intro j y here window found
  rw [List.length_append, List.length_singleton] at window
  by_cases last : j = log.length
  · subst last
    simpa using found
  · have older : j < log.length := by
      have := (List.getElem?_eq_some_iff.mp found).1
      rw [List.length_append, List.length_singleton] at this
      omega
    have other : j % n ≠ log.length % n := by
      intro same
      have := residue_inj same (by omega) (by omega)
      omega
    rw [Function.update_of_ne other]
    rw [List.getElem?_append_left older] at found
    exact holds j y here (by omega) found

/-- A reader that stopped at `v` finds in its slot the newest entry that was
written there, never one older than `v`. -/
theorem read {v : Nat} (holds : Holds n slots log live) (positive : 0 < n)
    (below : v < log.length) (lively : ∀ j, v ≤ j → live j) :
    ∃ j x, v ≤ j ∧ j % n = v % n ∧ log.length ≤ j + n ∧ log[j]? = some x ∧
      slots (v % n) = x := by
  obtain ⟨j, later, inside, window, same⟩ := newest_alias below positive
  have found : log[j]? = some log[j] := List.getElem?_eq_getElem inside
  refine ⟨j, log[j], later, same, window, found, ?_⟩
  rw [← same]
  exact holds j log[j] (lively j later) window found

/-- Overwriting the slot of a window position costs that position only. -/
theorem clobber {k : Nat} (holds : Holds n slots log live) (window : log.length ≤ k + n)
    (inside : k < log.length) (y : α) :
    Holds n (Function.update slots (k % n) y) log fun j => live j ∧ j ≠ k := by
  rintro j x ⟨here, different⟩ near found
  have within := (List.getElem?_eq_some_iff.mp found).1
  have other : j % n ≠ k % n := by
    intro same
    rcases Nat.le_total j k with ordered | ordered
    · exact different (residue_inj same ordered (by omega))
    · exact different (residue_inj same.symm ordered (by omega)).symm
  rw [Function.update_of_ne other]
  exact holds j x here near found

end Holds
end CyclicLog
