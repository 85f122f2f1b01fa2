import Mathlib.Data.List.Basic
import Mathlib.Order.Lattice

/-! The first minimum of a list, and the loop that finds it: it keeps the best value so
far and starts from one that no value exceeds. -/
namespace FirstMinimum
variable {α β : Type*} [LinearOrder α] {values seen : List α} {top value best : α}
  {i j idx : Nat}

/-- No value is less than the one at the index, and those before it are greater. -/
def FirstMin (values : List α) (i : Nat) : Prop :=
  ∃ least, values[i]? = some least ∧
    ∀ j value, values[j]? = some value → least ≤ value ∧ (j < i → least < value)

def scan : List α → (i : Nat) → (best : α) → (idx : Nat) → Nat
  | [], _, _, idx => idx
  | value :: values, i, best, idx =>
    if value < best then scan values (i + 1) value i else scan values (i + 1) best idx

theorem FirstMin.unique (first : FirstMin values i) (second : FirstMin values j) : i = j := by
  obtain ⟨v, here, least⟩ := first
  obtain ⟨w, there, least'⟩ := second
  rcases Nat.lt_trichotomy i j with before | same | after
  · exact absurd (least j w there).1 (not_le.mpr ((least' i v here).2 before))
  · exact same
  · exact absurd (least' i v here).1 (not_le.mpr ((least j w there).2 after))

/-- A first minimum of what a function makes of the values. -/
theorem firstMin_map_iff {f : β → α} {values : List β} : FirstMin (values.map f) i ↔
    ∃ least, values[i]? = some least ∧
      ∀ j value, values[j]? = some value → f least ≤ f value ∧ (j < i → f least < f value) := by
  constructor
  · rintro ⟨_, here, lowest⟩
    rw [List.getElem?_map, Option.map_eq_some_iff] at here
    obtain ⟨least, here, rfl⟩ := here
    refine ⟨least, here, ?_⟩
    intro j value found
    apply lowest j
    rw [List.getElem?_map, found, Option.map_some]
  · rintro ⟨least, here, lowest⟩
    refine ⟨f least, by rw [List.getElem?_map, here, Option.map_some], ?_⟩
    intro j _ found
    rw [List.getElem?_map, Option.map_eq_some_iff] at found
    obtain ⟨value, found, rfl⟩ := found
    exact lowest j value found

/-- The best of the values seen so far, or the start if none was less. -/
structure Leads (top : α) (seen : List α) (best : α) (idx : Nat) : Prop where
  least : ∀ j value, seen[j]? = some value → best ≤ value ∧ (j < idx → best < value)
  place : seen[idx]? = some best ∨ best = top ∧ idx = 0

theorem Leads.start (top : α) : Leads top [] top 0 :=
  ⟨by simp, Or.inr ⟨rfl, rfl⟩⟩

theorem Leads.idx_le (leads : Leads top seen best idx) : idx ≤ seen.length := by
  rcases leads.place with here | ⟨_, zero⟩
  · exact Nat.le_of_lt (List.getElem?_eq_some_iff.mp here).1
  · omega

theorem Leads.better (leads : Leads top seen best idx) (less : value < best) :
    Leads top (seen ++ [value]) value seen.length := by
  constructor
  · intro j other found
    rcases Nat.lt_trichotomy j seen.length with inside | last | outside
    · rw [List.getElem?_append_left inside] at found
      have greater := less.trans_le (leads.least j other found).1
      exact ⟨greater.le, fun _ => greater⟩
    · rw [last, List.getElem?_concat_length] at found
      cases Option.some.inj found
      exact ⟨le_rfl, fun before => by omega⟩
    · rw [List.getElem?_eq_none (by simp; omega)] at found
      cases found
  · exact Or.inl List.getElem?_concat_length

theorem Leads.keep (leads : Leads top seen best idx) (kept : ¬ value < best) :
    Leads top (seen ++ [value]) best idx := by
  have bound := leads.idx_le
  constructor
  · intro j other found
    rcases Nat.lt_trichotomy j seen.length with inside | last | outside
    · rw [List.getElem?_append_left inside] at found
      exact leads.least j other found
    · rw [last, List.getElem?_concat_length] at found
      cases Option.some.inj found
      exact ⟨not_lt.mp kept, fun before => by omega⟩
    · rw [List.getElem?_eq_none (by simp; omega)] at found
      cases found
  · rcases leads.place with here | start
    · have inside := (List.getElem?_eq_some_iff.mp here).1
      rw [List.getElem?_append_left inside]
      exact Or.inl here
    · exact Or.inr start

theorem Leads.scan (leads : Leads top seen best idx) (values : List α) :
    ∃ best', Leads top (seen ++ values) best' (scan values seen.length best idx) := by
  induction values generalizing seen best idx with
  | nil =>
    rw [List.append_nil]
    exact ⟨best, leads⟩
  | cons value values ih =>
    have length : seen.length + 1 = (seen ++ [value]).length := by simp
    rw [FirstMinimum.scan, ← List.singleton_append, ← List.append_assoc, length]
    split
    case isTrue less => exact ih (leads.better less)
    case isFalse kept => exact ih (leads.keep kept)

/-- The loop finds the first minimum, also where nothing is less than the start. -/
theorem scan_firstMin (filled : values ≠ []) (below : ∀ value ∈ values, value ≤ top) :
    FirstMin values (scan values 0 top 0) := by
  obtain ⟨best, leads⟩ := (Leads.start top).scan values
  rw [List.nil_append, List.length_nil] at leads
  refine ⟨best, ?_, leads.least⟩
  rcases leads.place with here | ⟨same, zero⟩
  · exact here
  · obtain ⟨first, rest, rfl⟩ := List.exists_cons_of_ne_nil filled
    have least := (leads.least 0 first rfl).1
    have most := below first (by simp)
    rw [zero, same]
    exact congrArg some (le_antisymm most (same ▸ least))

end FirstMinimum
