import Mathlib.Data.Finset.Card
import Mathlib.Data.Finset.Lattice.Fold

/-! Items that take up finite regions. The regions of items that stay apart can be
counted one by one: their sizes add up to the size of their union, and so to no more
than that of whatever contains them all. -/
namespace Packing
variable {α β : Type*} [DecidableEq β] {region : α → Finset β} {items others : List α}

def union (region : α → Finset β) : List α → Finset β
  | [] => ∅
  | item :: items => region item ∪ union region items

def total (region : α → Finset β) : List α → Nat
  | [] => 0
  | item :: items => (region item).card + total region items

theorem mem_union : x ∈ union region items ↔ ∃ item ∈ items, x ∈ region item := by
  induction items with
  | nil => simp [union]
  | cons item items ih => simp [union, ih]

theorem union_subset_of_covered
    (covered : ∀ item ∈ items, ∃ other ∈ others, region item ⊆ region other) :
    union region items ⊆ union region others := by
  intro x member
  obtain ⟨item, listed, inside⟩ := mem_union.mp member
  obtain ⟨other, listed', larger⟩ := covered item listed
  exact mem_union.mpr ⟨other, listed', larger inside⟩

theorem card_union_le_total : (union region items).card ≤ total region items := by
  induction items with
  | nil => simp [union]
  | cons item items ih =>
    have both := Finset.card_union_le (region item) (union region items)
    exact both.trans (Nat.add_le_add_left ih _)

theorem total_of_apart (apart : items.Pairwise fun a b => Disjoint (region a) (region b)) :
    total region items = (union region items).card := by
  induction items with
  | nil => simp [union, total]
  | cons item items ih =>
    obtain ⟨first, rest⟩ := List.pairwise_cons.mp apart
    have outside : Disjoint (region item) (union region items) := by
      rw [Finset.disjoint_left]
      intro x here member
      obtain ⟨other, listed, inside⟩ := mem_union.mp member
      exact Finset.disjoint_left.mp (first other listed) here inside
    rw [union, total, Finset.card_union_of_disjoint outside, ih rest]

/-- Items that stay apart have no more in total than items that cover them. -/
theorem total_le_of_covered (apart : items.Pairwise fun a b => Disjoint (region a) (region b))
    (covered : ∀ item ∈ items, ∃ other ∈ others, region item ⊆ region other) :
    total region items ≤ total region others := by
  rw [total_of_apart apart]
  exact (Finset.card_le_card (union_subset_of_covered covered)).trans card_union_le_total

end Packing
