import UltraDisplay.Library.Coalescing
import UltraDisplay.Server.SceneAnalyzer
import Mathlib.Order.Lattice
import Mathlib.Data.List.Count

/-! Rectangles are ordered by containment, so that `merge` is their join, and both
passes of `merge_rects` are sequences of joins of rectangles that intersect. Only
the last round, which changes nothing, shows that none are left. -/
namespace UltraDisplay
open Coalescing

/-- Containment: the right rectangle contains the left one. -/
instance Rect.order : PartialOrder Rect where
  le inner outer := outer.left ≤ inner.left ∧ outer.top ≤ inner.top ∧
    inner.right ≤ outer.right ∧ inner.bottom ≤ outer.bottom
  le_refl rect := ⟨le_rfl, le_rfl, le_rfl, le_rfl⟩
  le_trans a b c inner outer := by omega
  le_antisymm a b inner outer := by
    obtain ⟨left, top, right, bottom⟩ := a
    simp only at inner outer
    congr 1 <;> omega

theorem Rect.le_iff (inner outer : Rect) : inner ≤ outer ↔
    outer.left ≤ inner.left ∧ outer.top ≤ inner.top ∧
    inner.right ≤ outer.right ∧ inner.bottom ≤ outer.bottom := Iff.rfl

instance (inner outer : Rect) : Decidable (inner ≤ outer) :=
  decidable_of_iff _ (Rect.le_iff inner outer).symm

instance Rect.lattice : SemilatticeSup Rect where
  sup := SceneAnalyzer.merge
  le_sup_left a b := by
    simp only [Rect.le_iff, SceneAnalyzer.merge]
    omega
  le_sup_right a b := by
    simp only [Rect.le_iff, SceneAnalyzer.merge]
    omega
  sup_le a b c left right := by
    simp only [Rect.le_iff, SceneAnalyzer.merge] at left right ⊢
    omega

namespace SceneAnalyzer

abbrev Meets (a b : Rect) : Prop := rectsIntersect a b = true

theorem meets_iff (a b : Rect) : Meets a b ↔
    b.left < a.right ∧ a.left < b.right ∧ b.top < a.bottom ∧ a.top < b.bottom := by
  simp only [Meets, rectsIntersect, Bool.not_eq_true', Bool.or_eq_false_iff, decide_eq_false_iff_not,
    not_le, ge_iff_le, and_assoc]

theorem meets_persistent : Persistent Meets where
  symm a b meet := by
    rw [meets_iff] at meet ⊢
    omega
  grow a b c meet larger := by
    rw [meets_iff] at meet ⊢
    rw [Rect.le_iff] at larger
    omega

theorem absorb_joins (rect : Rect) (merged : List Rect) :
    Joins Meets (rect ::ₘ ↑merged) ↑(absorb rect merged) := by
  induction merged with
  | nil => exact .refl
  | cons m rest ih =>
    rw [← Multiset.cons_coe, Multiset.cons_swap]
    simp only [absorb]
    split
    case isTrue meet => exact .single (.join m rect rest meet)
    case isFalse apart => exact Joins.cons m ih

theorem firstPass_joins (input : List Rect) : Joins Meets ↑input ↑(firstPass input) := by
  have passes : ∀ merged : List Rect, Joins Meets (↑input + ↑merged)
      ↑(input.foldl (fun merged rect => absorb rect merged) merged) := by
    induction input with
    | nil =>
      intro merged
      rw [Multiset.coe_nil, Multiset.zero_add]
      exact .refl
    | cons rect rest ih =>
      intro merged
      have first := Joins.add (↑rest) (absorb_joins rect merged)
      rw [Multiset.add_cons, ← Multiset.cons_add, Multiset.cons_coe] at first
      exact first.trans (ih (absorb rect merged))
  have all := passes []
  rwa [Multiset.coe_nil, Multiset.add_zero] at all

theorem scan_cons (box rect : Rect) (rest : List Rect) :
    scan box (rect :: rest) =
      if rectsIntersect box rect then
        ((scan (merge box rect) rest).1, (scan (merge box rect) rest).2.1, true)
      else ((scan box rest).1, rect :: (scan box rest).2.1, (scan box rest).2.2) := rfl

theorem round_cons (turns : Nat) (box : Rect) (rest : List Rect) :
    round (turns + 1) (box :: rest) =
      ((scan box rest).1 :: (round turns (scan box rest).2.1).1,
        (scan box rest).2.2 || (round turns (scan box rest).2.1).2) := rfl

theorem scan_joins (box : Rect) (rest : List Rect) :
    Joins Meets (box ::ₘ ↑rest) ((scan box rest).1 ::ₘ ↑(scan box rest).2.1) := by
  induction rest generalizing box with
  | nil => exact .refl
  | cons rect rest ih =>
    rw [scan_cons]
    split
    case isTrue meet =>
      rw [← Multiset.cons_coe]
      exact .head (.join box rect rest meet) (ih (merge box rect))
    case isFalse apart =>
      rw [← Multiset.cons_coe, ← Multiset.cons_coe, Multiset.cons_swap, Multiset.cons_swap _ rect]
      exact Joins.cons rect (ih box)

theorem scan_length (box : Rect) (rest : List Rect) :
    (scan box rest).2.1.length ≤ rest.length ∧
    ((scan box rest).2.2 = true → (scan box rest).2.1.length < rest.length) := by
  induction rest generalizing box with
  | nil => exact ⟨le_rfl, fun changed => by contradiction⟩
  | cons rect rest ih =>
    rw [scan_cons]
    split
    case isTrue =>
      have shorter := (ih (merge box rect)).1
      simp only [List.length_cons]
      omega
    case isFalse =>
      obtain ⟨short, shorter⟩ := ih box
      simp only [List.length_cons]
      exact ⟨by omega, fun changed => by have := shorter changed; omega⟩

/-- A scan that changes nothing has compared the box with all that follows it. -/
theorem scan_unchanged {box : Rect} {rest : List Rect} (unchanged : (scan box rest).2.2 = false) :
    scan box rest = (box, rest, false) ∧ ∀ rect ∈ rest, ¬ Meets box rect := by
  induction rest with
  | nil => exact ⟨rfl, by simp⟩
  | cons rect rest ih =>
    rw [scan_cons] at unchanged ⊢
    split at unchanged
    case isTrue => contradiction
    case isFalse apart =>
      obtain ⟨same, others⟩ := ih unchanged
      rw [if_neg apart, same]
      refine ⟨rfl, ?_⟩
      intro other member
      rcases List.mem_cons.mp member with rfl | member
      · exact apart
      · exact others other member

theorem round_joins (turns : Nat) (rects : List Rect) :
    Joins Meets ↑rects ↑(round turns rects).1 := by
  induction turns generalizing rects with
  | zero => exact .refl
  | succ turns ih =>
    cases rects with
    | nil => exact .refl
    | cons box rest =>
      have scanned := scan_joins box rest
      have later := Joins.cons (scan box rest).1 (ih (scan box rest).2.1)
      rw [round_cons]
      rw [← Multiset.cons_coe, ← Multiset.cons_coe]
      exact scanned.trans later

theorem round_length (turns : Nat) (rects : List Rect) :
    (round turns rects).1.length ≤ rects.length ∧
    ((round turns rects).2 = true → (round turns rects).1.length < rects.length) := by
  induction turns generalizing rects with
  | zero => exact ⟨le_rfl, fun changed => by contradiction⟩
  | succ turns ih =>
    cases rects with
    | nil => exact ⟨le_rfl, fun changed => by contradiction⟩
    | cons box rest =>
      obtain ⟨short, shorter⟩ := scan_length box rest
      obtain ⟨short', shorter'⟩ := ih (scan box rest).2.1
      simp only [round_cons, List.length_cons, Bool.or_eq_true]
      refine ⟨by omega, ?_⟩
      rintro (changed | changed)
      · have := shorter changed
        omega
      · have := shorter' changed
        omega

theorem round_unchanged {turns : Nat} {rects : List Rect} (enough : rects.length ≤ turns)
    (unchanged : (round turns rects).2 = false) :
    (round turns rects).1 = rects ∧ rects.Pairwise fun a b => ¬ Meets a b := by
  induction turns generalizing rects with
  | zero =>
    cases List.length_eq_zero_iff.mp (Nat.le_zero.mp enough)
    exact ⟨rfl, .nil⟩
  | succ turns ih =>
    cases rects with
    | nil => exact ⟨rfl, .nil⟩
    | cons box rest =>
      simp only [round_cons, Bool.or_eq_false_iff] at unchanged ⊢
      obtain ⟨same, apart⟩ := scan_unchanged unchanged.1
      rw [same] at unchanged ⊢
      obtain ⟨rest_same, rest_apart⟩ := ih (Nat.le_of_succ_le_succ enough) unchanged.2
      exact ⟨congrArg _ rest_same, List.pairwise_cons.mpr ⟨apart, rest_apart⟩⟩

theorem round_pos (turns : Nat) {rects : List Rect} (nonempty : 0 < rects.length) :
    0 < (round turns rects).1.length := by
  cases turns with
  | zero => exact nonempty
  | succ turns =>
    cases rects with
    | nil => contradiction
    | cons box rest => exact Nat.zero_lt_succ _

/-- Every round but the last takes a rectangle away, so there are no more rounds
than rectangles. -/
theorem secondPass_settles {rounds : Nat} {rects : List Rect} (some_round : 0 < rounds)
    (enough : rects.length ≤ rounds) : ∃ merged, secondPass rounds rects = some merged ∧
      Joins Meets ↑rects ↑merged ∧ merged.Pairwise fun a b => ¬ Meets a b := by
  induction rounds generalizing rects with
  | zero => contradiction
  | succ rounds ih =>
    have joins := round_joins rects.length rects
    simp only [secondPass]
    split
    case isTrue changed =>
      have shorter := (round_length rects.length rects).2 changed
      have left := round_pos rects.length (Nat.zero_lt_of_lt shorter)
      have later : 0 < rounds := by omega
      have enough' : (round rects.length rects).1.length ≤ rounds := by omega
      obtain ⟨merged, result, joins', apart⟩ := ih later enough'
      exact ⟨merged, result, joins.trans joins', apart⟩
    case isFalse unchanged =>
      obtain ⟨same, apart⟩ := round_unchanged le_rfl (Bool.not_eq_true _ ▸ unchanged)
      refine ⟨_, rfl, joins, ?_⟩
      rw [same]
      exact apart

/-- `merge_rects` returns the end of a complete sequence of joins. -/
theorem mergeRects_settles (input : List Rect) : ∃ merged, mergeRects input = some merged ∧
    Joins Meets ↑input ↑merged ∧ merged.Pairwise fun a b => ¬ Meets a b := by
  cases input with
  | nil => exact ⟨[], rfl, .refl, .nil⟩
  | cons rect rest =>
    have joins := firstPass_joins (rect :: rest)
    have nonempty : 0 < (firstPass (rect :: rest)).length := by
      obtain ⟨m, member, _⟩ := (gathers_of_joins joins).covers rect (by simp)
      exact List.length_pos_of_mem (Multiset.mem_coe.mp member)
    obtain ⟨merged, result, joins', apart⟩ := secondPass_settles nonempty le_rfl
    exact ⟨merged, result, joins.trans joins', apart⟩

/-- The smallest rectangle around a non-empty list. -/
def boundingBox : List Rect → Option Rect
  | [] => none
  | first :: rest => some (rest.foldl merge first)

theorem boundingBox_of_isLUB {rects : List Rect} {box : Rect}
    (least : IsLUB {rect | rect ∈ rects} box) (nonempty : ∃ rect, rect ∈ rects) :
    boundingBox rects = some box := by
  cases rects with
  | nil => simp at nonempty
  | cons first rest => exact congrArg some ((isLUB_foldl first rest).unique least)

/-- A rectangle with an interior lies in no two boxes that stay apart. -/
theorem countP_contains {rect : Rect} {boxes : List Rect} (interior : Meets rect rect)
    (apart : boxes.Pairwise fun a b => ¬ Meets a b) (covered : ∃ box ∈ boxes, rect ≤ box) :
    boxes.countP (rect ≤ ·) = 1 := by
  induction boxes with
  | nil => simp at covered
  | cons box rest ih =>
    obtain ⟨far, apart⟩ := List.pairwise_cons.mp apart
    by_cases inside : rect ≤ box
    · have others : ∀ other ∈ rest, ¬ rect ≤ other := by
        intro other member inside'
        have meet := meets_persistent.grow rect box rect interior inside
        have meet' := meets_persistent.grow rect other box (meets_persistent.symm _ _ meet) inside'
        exact far other member (meets_persistent.symm _ _ meet')
      have none_left : rest.countP (rect ≤ ·) = 0 := by
        simpa [List.countP_eq_zero] using others
      rw [List.countP_cons_of_pos (by simpa using inside), none_left]
    · rw [List.countP_cons_of_neg (by simpa using inside)]
      apply ih apart
      obtain ⟨other, member, inside'⟩ := covered
      rcases List.mem_cons.mp member with rfl | member
      · exact absurd inside' inside
      · exact ⟨other, member, inside'⟩

/-- Merging ends with boxes that stay apart, each the bounding box of what it
contains, and every dirty rectangle lies in one of them. -/
theorem mergeRects_partitions (rects : List Rect)
    (wellFormed : ∀ rect ∈ rects, rect.left < rect.right ∧ rect.top < rect.bottom) :
    ∃ merged, mergeRects rects = some merged ∧
      (∀ (i j : Nat) (hi : i < merged.length) (hj : j < merged.length), i ≠ j →
        rectsIntersect merged[i] merged[j] = false) ∧
      (∀ rect ∈ rects, merged.countP (rect ≤ ·) = 1) ∧
      (∀ box ∈ merged, boundingBox (rects.filter (· ≤ box)) = some box) := by
  obtain ⟨merged, result, joins, apart⟩ := mergeRects_settles rects
  have gathers := gathers_of_joins joins
  refine ⟨merged, result, ?_, ?_, ?_⟩
  · intro i j hi hj different
    have before := List.pairwise_iff_getElem.mp apart
    rcases Nat.lt_or_gt_of_ne different with less | more
    · exact Bool.not_eq_true _ ▸ before i j hi hj less
    · have missed := before j i hj hi more
      exact Bool.not_eq_true _ ▸ fun meet => missed (meets_persistent.symm _ _ meet)
  · intro rect member
    have interior : Meets rect rect := by
      have := wellFormed rect member
      rw [meets_iff]
      omega
    exact countP_contains interior apart (gathers.covers rect member)
  · intro box member
    have least := gathers.tight box member
    apply boundingBox_of_isLUB
    · simpa using least
    · simpa using gathers.nonempty box member

/-- Two overlapping rectangles and one that only their union overlaps end as one box. -/
theorem mergeRects_partitions_staircase : ∃ merged,
    mergeRects [⟨0, 0, 4, 4⟩, ⟨6, 1, 8, 3⟩, ⟨3, 3, 7, 7⟩] = some merged ∧
      (∀ (i j : Nat) (hi : i < merged.length) (hj : j < merged.length), i ≠ j →
        rectsIntersect merged[i] merged[j] = false) ∧
      (∀ rect ∈ [⟨0, 0, 4, 4⟩, ⟨6, 1, 8, 3⟩, ⟨3, 3, 7, 7⟩], merged.countP (rect ≤ ·) = 1) ∧
      (∀ box ∈ merged, boundingBox ([⟨0, 0, 4, 4⟩, ⟨6, 1, 8, 3⟩, ⟨3, 3, 7, 7⟩].filter (· ≤ box)) =
        some box) :=
  mergeRects_partitions [⟨0, 0, 4, 4⟩, ⟨6, 1, 8, 3⟩, ⟨3, 3, 7, 7⟩] (by decide)

theorem calculateArea_perm (same : rects.Perm rects') :
    calculateArea rects = calculateArea rects' := by
  refine same.foldl_eq' ?_ 0
  intro a _ b _ area
  rw [UInt64.add_assoc, UInt64.add_assoc, UInt64.add_comm (_ * _)]

theorem mergeRects_perm {rects rects' : List Rect} (same : rects.Perm rects') :
    ∃ merged merged', mergeRects rects = some merged ∧ mergeRects rects' = some merged' ∧
      merged.Perm merged' := by
  obtain ⟨merged, result, joins, apart⟩ := mergeRects_settles rects
  obtain ⟨merged', result', joins', apart'⟩ := mergeRects_settles rects'
  rw [← Multiset.coe_eq_coe.mpr same] at joins'
  refine ⟨merged, merged', result, result', Multiset.coe_eq_coe.mp ?_⟩
  exact settled_unique meets_persistent joins joins' (settled_of_pairwise meets_persistent apart)
    (settled_of_pairwise meets_persistent apart')

/-- The order in which the dirty rectangles arrive changes neither the merged boxes
nor anything that is computed from them. -/
theorem analyze_order_independent (rects rects' : List Rect) (same : rects.Perm rects') :
    (∃ merged merged', mergeRects rects = some merged ∧ mergeRects rects' = some merged' ∧
      merged.Perm merged' ∧ calculateArea merged = calculateArea merged') ∧
    ∀ (analyzer : SceneAnalyzer) (frameWidth frameHeight : UInt32),
      (analyzer.analyze frameWidth frameHeight rects).map
          (fun a => (a.dirtyPercent, a.isIdle, a.triggerKeyframe)) =
        (analyzer.analyze frameWidth frameHeight rects').map
          (fun a => (a.dirtyPercent, a.isIdle, a.triggerKeyframe)) := by
  obtain ⟨merged, merged', result, result', perm⟩ := mergeRects_perm same
  have areas := calculateArea_perm perm
  refine ⟨⟨merged, merged', result, result', perm, areas⟩, ?_⟩
  intro analyzer frameWidth frameHeight
  simp only [analyze, result, result', areas, same.isEmpty_eq, Option.bind_eq_bind,
    Option.bind_some]
  split
  · rfl
  · split <;> rfl

theorem analyze_order_independent_swapped :
    let rects : List Rect := [⟨0, 0, 4, 4⟩, ⟨6, 1, 8, 3⟩]
    let rects' : List Rect := [⟨6, 1, 8, 3⟩, ⟨0, 0, 4, 4⟩]
    (∃ merged merged', mergeRects rects = some merged ∧ mergeRects rects' = some merged' ∧
      merged.Perm merged' ∧ calculateArea merged = calculateArea merged') ∧
    ∀ (analyzer : SceneAnalyzer) (frameWidth frameHeight : UInt32),
      (analyzer.analyze frameWidth frameHeight rects).map
          (fun a => (a.dirtyPercent, a.isIdle, a.triggerKeyframe)) =
        (analyzer.analyze frameWidth frameHeight rects').map
          (fun a => (a.dirtyPercent, a.isIdle, a.triggerKeyframe)) :=
  analyze_order_independent _ _ (List.Perm.swap _ _ _)

end SceneAnalyzer
end UltraDisplay
