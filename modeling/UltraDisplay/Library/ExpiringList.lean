import Mathlib.Data.List.Basic

/-! Entries under distinct keys that are stamped when they are refreshed and dropped
once the stamp is older than a timeout. The keys that are left after dropping are
those refreshed within the timeout. -/
namespace ExpiringList
variable {α κ : Type}

/-- The entry of the key is stamped, or one is added behind the others. -/
structure Refreshed [DecidableEq κ] (key : α → κ) (stamp : α → Nat) (entries : List α) (k : κ)
    (now : Nat) (entries' : List α) : Prop where
  keys : entries'.map key =
    if k ∈ entries.map key then entries.map key else entries.map key ++ [k]
  stamps : ∀ entry ∈ entries',
    (key entry = k ∧ stamp entry = now) ∨ (key entry ≠ k ∧ entry ∈ entries)

def live (stamp : α → Nat) (timeout now : Nat) (entries : List α) : List α :=
  entries.filter fun entry => now - stamp entry ≤ timeout

/-- An entry has the time of its key's last refresh; a refreshed key without an
entry has timed out. -/
structure Tracks (key : α → κ) (stamp : α → Nat) (timeout : Nat) (refreshes : List (κ × Nat))
    (now : Nat) (entries : List α) : Prop where
  distinct : (entries.map key).Nodup
  past : ∀ k seen, (k, seen) ∈ refreshes → seen ≤ now
  latest : ∀ entry ∈ entries, (key entry, stamp entry) ∈ refreshes ∧
    ∀ seen, (key entry, seen) ∈ refreshes → seen ≤ stamp entry
  listed : ∀ k seen, (k, seen) ∈ refreshes → k ∈ entries.map key ∨ timeout < now - seen

namespace Tracks
variable {key : α → κ} {stamp : α → Nat} {timeout now now' : Nat} {refreshes : List (κ × Nat)}
  {entries entries' : List α}

theorem empty : Tracks key stamp timeout [] now [] := by
  constructor <;> simp

theorem wait (tracks : Tracks key stamp timeout refreshes now entries) (later : now ≤ now') :
    Tracks key stamp timeout refreshes now' entries where
  distinct := tracks.distinct
  past := fun k seen mem => Nat.le_trans (tracks.past k seen mem) later
  latest := tracks.latest
  listed := fun k seen mem => (tracks.listed k seen mem).imp_right fun gone => by omega

theorem past_refresh {k k' : κ} (tracks : Tracks key stamp timeout refreshes now entries)
    (later : now ≤ now') (mem : (k', seen) ∈ refreshes ++ [(k, now')]) : seen ≤ now' := by
  rcases List.mem_append.mp mem with earlier | new
  · exact Nat.le_trans (tracks.past k' seen earlier) later
  · cases List.mem_singleton.mp new
    exact Nat.le_refl _

theorem refresh [DecidableEq κ] (tracks : Tracks key stamp timeout refreshes now entries)
    (later : now ≤ now') (refreshed : Refreshed key stamp entries k now' entries') :
    Tracks key stamp timeout (refreshes ++ [(k, now')]) now' entries' where
  distinct := by
    rw [refreshed.keys]
    split
    case isTrue => exact tracks.distinct
    case isFalse fresh =>
      refine List.nodup_append.mpr ⟨tracks.distinct, by simp, ?_⟩
      intro other mem k' same
      rw [List.mem_singleton.mp same]
      exact fun equal => fresh (equal ▸ mem)
  past := fun _ _ mem => tracks.past_refresh later mem
  latest := by
    intro entry mem
    rcases refreshed.stamps entry mem with ⟨own, stamped⟩ | ⟨other, old⟩
    · rw [own, stamped]
      exact ⟨by simp, fun _ refresh => tracks.past_refresh later refresh⟩
    · obtain ⟨stamped, last⟩ := tracks.latest entry old
      refine ⟨List.mem_append_left _ stamped, fun seen refresh => ?_⟩
      rcases List.mem_append.mp refresh with earlier | new
      · exact last seen earlier
      · exact absurd (congrArg Prod.fst (List.mem_singleton.mp new)) other
  listed := by
    have kept : ∀ k' ∈ entries.map key ++ [k], k' ∈ entries'.map key := by
      intro k' mem
      rw [refreshed.keys]
      split
      case isFalse => exact mem
      case isTrue known =>
        rcases List.mem_append.mp mem with old | new
        · exact old
        · rwa [List.mem_singleton.mp new]
    intro k' seen mem
    rcases List.mem_append.mp mem with earlier | new
    · rcases tracks.listed k' seen earlier with here | gone
      · exact .inl (kept k' (List.mem_append_left _ here))
      · exact .inr (by omega)
    · cases List.mem_singleton.mp new
      exact .inl (kept k (by simp))

theorem expire_iff (tracks : Tracks key stamp timeout refreshes now entries) (later : now ≤ now')
    (k : κ) :
    k ∈ (live stamp timeout now' entries).map key ↔
      ∃ seen, (k, seen) ∈ refreshes ∧ now' - seen ≤ timeout := by
  simp only [live, List.mem_map, List.mem_filter, decide_eq_true_eq]
  constructor
  · rintro ⟨entry, ⟨mem, recent⟩, rfl⟩
    exact ⟨stamp entry, (tracks.latest entry mem).1, recent⟩
  · rintro ⟨seen, refreshed, recent⟩
    rcases tracks.listed k seen refreshed with here | gone
    · obtain ⟨entry, mem, rfl⟩ := List.mem_map.mp here
      have last := (tracks.latest entry mem).2 seen refreshed
      exact ⟨entry, ⟨mem, by omega⟩, rfl⟩
    · omega

theorem expire (tracks : Tracks key stamp timeout refreshes now entries) (later : now ≤ now') :
    Tracks key stamp timeout refreshes now' (live stamp timeout now' entries) where
  distinct := tracks.distinct.sublist (List.filter_sublist.map key)
  past := fun k seen mem => Nat.le_trans (tracks.past k seen mem) later
  latest := fun entry mem => tracks.latest entry (List.mem_of_mem_filter mem)
  listed := by
    intro k seen refreshed
    by_cases recent : now' - seen ≤ timeout
    · exact .inl ((tracks.expire_iff later k).mpr ⟨seen, refreshed, recent⟩)
    · exact .inr (Nat.lt_of_not_le recent)

end Tracks

/-- Dropping shows in the number of entries. -/
theorem live_eq_iff_length {stamp : α → Nat} {timeout now : Nat} {entries : List α} :
    live stamp timeout now entries = entries ↔
      (live stamp timeout now entries).length = entries.length := by
  simp only [live, List.filter_eq_self, List.length_filter_eq_length_iff]

end ExpiringList
