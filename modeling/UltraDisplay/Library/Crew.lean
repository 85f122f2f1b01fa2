import Mathlib.Algebra.Order.BigOperators.Group.List
import Mathlib.Algebra.Order.Ring.Nat

/-! Threads, each at a place of its program, and what they amount to together when every
place has a weight. -/
namespace Crew
variable {P : Type*}

def total (weight : P → Nat) (crew : List P) : Nat := (crew.map weight).sum

variable {weight : P → Nat} {crew : List P} {here next : P} {i : Nat}

theorem total_set (weight : P → Nat) (stands : crew[i]? = some here) (next : P) :
    total weight (crew.set i next) + weight here = total weight crew + weight next := by
  induction crew generalizing i with
  | nil => simp at stands
  | cons first rest ih =>
    cases i with
    | zero =>
      cases Option.some.inj stands
      simp only [total, List.set_cons_zero, List.map_cons, List.sum_cons]
      omega
    | succ i =>
      have later := ih stands
      simp only [total, List.set_cons_succ, List.map_cons, List.sum_cons] at later ⊢
      omega

theorem total_set_lt (stands : crew[i]? = some here) (lower : weight next < weight here) :
    total weight (crew.set i next) < total weight crew := by
  have moved := total_set weight stands next
  omega

theorem total_pos_iff : 0 < total weight crew ↔
    ∃ (i : Nat) (here : P), crew[i]? = some here ∧ 0 < weight here := by
  induction crew with
  | nil => simp [total]
  | cons first rest ih =>
    simp only [total, List.map_cons, List.sum_cons] at ih ⊢
    constructor
    · intro positive
      by_cases zero : weight first = 0
      · obtain ⟨i, here, stands, weighs⟩ := ih.mp (by omega)
        exact ⟨i + 1, here, stands, weighs⟩
      · exact ⟨0, first, rfl, by omega⟩
    · rintro ⟨i, here, stands, weighs⟩
      cases i with
      | zero =>
        cases Option.some.inj stands
        omega
      | succ i =>
        have later := ih.mpr ⟨i, here, stands, weighs⟩
        omega

theorem weight_le_total (weight : P → Nat) (stands : crew[i]? = some here) :
    weight here ≤ total weight crew :=
  List.le_sum_of_mem (List.mem_map_of_mem (List.mem_of_getElem? stands))

theorem total_le_mul (bounded : ∀ place, weight place ≤ most) (crew : List P) :
    total weight crew ≤ most * crew.length := by
  induction crew with
  | nil => simp [total]
  | cons first rest ih =>
    have here := bounded first
    simp only [total, List.map_cons, List.sum_cons, List.length_cons, Nat.mul_succ] at ih ⊢
    omega

end Crew
