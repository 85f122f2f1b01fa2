import Mathlib.Data.Finset.Prod
import Mathlib.Data.Finset.Range
import Mathlib.Tactic.Linarith
import UltraDisplay.Library.Packing
import UltraDisplay.Server.SceneAnalyzer.Merging

/-! The dirty area of a frame. The merged boxes stay apart and inside of the frame, so
their areas add up to what they cover, and more damage is covered by larger boxes. -/
namespace UltraDisplay.SceneAnalyzer
open Coalescing Packing

/-- A well-formed rectangle inside of the frame. -/
structure Inside (frameWidth frameHeight : UInt32) (rect : Rect) : Prop where
  columns : 0 ≤ rect.left ∧ rect.left < rect.right ∧ rect.right ≤ frameWidth.toNat
  rows : 0 ≤ rect.top ∧ rect.top < rect.bottom ∧ rect.bottom ≤ frameHeight.toNat

theorem Inside.le_frame {frameWidth frameHeight : UInt32} {rect : Rect}
    (inside : Inside frameWidth frameHeight rect) :
    rect ≤ ⟨0, 0, frameWidth.toNat, frameHeight.toNat⟩ := by
  rw [Rect.le_iff]
  exact ⟨inside.columns.1, inside.rows.1, inside.columns.2.2, inside.rows.2.2⟩

def pixelAt (rect : Rect) : Nat × Nat ↪ Int × Int where
  toFun offset := (rect.left + offset.1, rect.top + offset.2)
  inj' := by
    rintro ⟨i, j⟩ ⟨i', j'⟩ same
    simp only [Prod.mk.injEq] at same ⊢
    omega

theorem pixelAt_apply (rect : Rect) (offset : Nat × Nat) :
    pixelAt rect offset = (rect.left + offset.1, rect.top + offset.2) := rfl

def pixels (rect : Rect) : Finset (Int × Int) :=
  (Finset.range (rect.right - rect.left).toNat ×ˢ
    Finset.range (rect.bottom - rect.top).toNat).map (pixelAt rect)

def exactArea (rects : List Rect) : Nat :=
  (rects.map fun rect => (rect.right - rect.left).toNat * (rect.bottom - rect.top).toNat).sum

theorem mem_pixels (rect : Rect) (pixel : Int × Int) : pixel ∈ pixels rect ↔
    (rect.left ≤ pixel.1 ∧ pixel.1 < rect.right) ∧ rect.top ≤ pixel.2 ∧ pixel.2 < rect.bottom := by
  simp only [pixels, Finset.mem_map, Finset.mem_product, Finset.mem_range]
  constructor
  · rintro ⟨offset, inside, rfl⟩
    simp only [pixelAt_apply]
    omega
  · intro inside
    refine ⟨((pixel.1 - rect.left).toNat, (pixel.2 - rect.top).toNat), by omega, ?_⟩
    rw [pixelAt_apply]
    ext
    · simp only
      omega
    · simp only
      omega

theorem pixels_subset {inner outer : Rect} (inside : inner ≤ outer) :
    pixels inner ⊆ pixels outer := by
  intro pixel member
  rw [Rect.le_iff] at inside
  rw [mem_pixels] at member ⊢
  omega

theorem pixels_disjoint {a b : Rect} (apart : ¬ Meets a b) : Disjoint (pixels a) (pixels b) := by
  rw [Finset.disjoint_left]
  intro pixel inA inB
  apply apart
  rw [meets_iff]
  rw [mem_pixels] at inA inB
  omega

theorem exactArea_eq_total (rects : List Rect) : exactArea rects = total pixels rects := by
  induction rects with
  | nil => rfl
  | cons rect rects ih =>
    rw [total, ← ih]
    simp [exactArea, pixels]

/-- Modulo 2^64, the sum of the code is the exact one. -/
theorem calculateArea_toNat (rects : List Rect)
    (ordered : ∀ rect ∈ rects, rect.left < rect.right ∧ rect.top < rect.bottom) :
    (calculateArea rects).toNat = exactArea rects % 2 ^ 64 := by
  have sums : ∀ area : UInt64, (rects.foldl (fun area r =>
      area + UInt64.ofInt (r.right - r.left) * UInt64.ofInt (r.bottom - r.top)) area).toNat =
      (area.toNat + exactArea rects) % 2 ^ 64 := by
    induction rects with
    | nil =>
      intro area
      exact (Nat.mod_eq_of_lt area.toNat_lt).symm
    | cons rect rects ih =>
      intro area
      have side : ∀ x : Int, 0 < x → (UInt64.ofInt x).toNat = x.toNat % 2 ^ 64 := by
        intro x positive
        rw [UInt64.ofInt, UInt64.toNat_ofNat']
        omega
      obtain ⟨wide, high⟩ := ordered rect (by simp)
      rw [List.foldl_cons, ih fun other member => ordered other (by simp [member])]
      rw [UInt64.toNat_add, UInt64.toNat_mul, side _ (by omega), side _ (by omega), ← Nat.mul_mod]
      simp only [exactArea, List.map_cons, List.sum_cons]
      omega
  exact (sums 0).trans (by rw [UInt64.toNat_zero, Nat.zero_add])

/-- What the merged boxes are to the frame and to the rectangles they come from. -/
structure Covers (frameWidth frameHeight : UInt32) (rects merged : List Rect) : Prop where
  joins : Joins Meets ↑rects ↑merged
  apart : merged.Pairwise fun a b => ¬ Meets a b
  inside : ∀ box ∈ merged, Inside frameWidth frameHeight box

theorem mergeRects_covers {frameWidth frameHeight : UInt32} {rects : List Rect}
    (inside : ∀ rect ∈ rects, Inside frameWidth frameHeight rect) :
    ∃ merged, mergeRects rects = some merged ∧ Covers frameWidth frameHeight rects merged := by
  obtain ⟨merged, result, joins, apart⟩ := mergeRects_settles rects
  refine ⟨merged, result, joins, apart, ?_⟩
  intro box member
  let frame : Rect := ⟨0, 0, frameWidth.toNat, frameHeight.toNat⟩
  have framed : ∀ rect ∈ (rects : Multiset Rect), ∃ m ∈ [frame], rect ≤ m := by
    intro rect listed
    exact ⟨frame, by simp, (inside rect listed).le_frame⟩
  obtain ⟨m, only, within⟩ :=
    joins.below meets_persistent (List.pairwise_singleton _ _) framed box member
  obtain ⟨rect, listed, contained⟩ := (gathers_of_joins joins).nonempty box member
  obtain ⟨columns, rows⟩ := inside rect listed
  rw [List.mem_singleton] at only
  rw [only, Rect.le_iff] at within
  rw [Rect.le_iff] at contained
  simp only [frame] at within
  constructor
  · omega
  · omega

variable {frameWidth frameHeight : UInt32} {rects rects' merged merged' : List Rect}

theorem Covers.disjoint (covers : Covers frameWidth frameHeight rects merged) :
    merged.Pairwise fun a b => Disjoint (pixels a) (pixels b) :=
  covers.apart.imp pixels_disjoint

theorem Covers.exactArea_le (covers : Covers frameWidth frameHeight rects merged) :
    exactArea merged ≤ frameWidth.toNat * frameHeight.toNat := by
  let frame : Rect := ⟨0, 0, frameWidth.toNat, frameHeight.toNat⟩
  have framed : ∀ box ∈ merged, ∃ m ∈ [frame], pixels box ⊆ pixels m := by
    intro box member
    exact ⟨frame, by simp, pixels_subset (covers.inside box member).le_frame⟩
  have most := total_le_of_covered covers.disjoint framed
  rw [← exactArea_eq_total, ← exactArea_eq_total] at most
  simpa [exactArea, frame] using most

theorem frame_lt (frameWidth frameHeight : UInt32) :
    frameWidth.toNat * frameHeight.toNat < 2 ^ 64 := by
  have sides : frameWidth.toNat * frameHeight.toNat < 2 ^ 32 * 2 ^ 32 :=
    Nat.mul_lt_mul'' frameWidth.toNat_lt frameHeight.toNat_lt
  exact sides

theorem Covers.calculateArea_eq (covers : Covers frameWidth frameHeight rects merged) :
    (calculateArea merged).toNat = exactArea merged := by
  rw [calculateArea_toNat merged fun box member =>
    ⟨(covers.inside box member).columns.2.1, (covers.inside box member).rows.2.1⟩]
  exact Nat.mod_eq_of_lt (covers.exactArea_le.trans_lt (frame_lt frameWidth frameHeight))

theorem Covers.union_le (covers : Covers frameWidth frameHeight rects merged) :
    (union pixels rects).card ≤ exactArea merged := by
  rw [exactArea_eq_total, total_of_apart covers.disjoint]
  apply Finset.card_le_card
  apply union_subset_of_covered
  intro rect member
  obtain ⟨box, listed, inside⟩ := (gathers_of_joins covers.joins).covers rect member
  exact ⟨box, listed, pixels_subset inside⟩

/-- Boxes of some of the rectangles lie in boxes of all of them. -/
theorem Covers.exactArea_mono (covers : Covers frameWidth frameHeight rects merged)
    (covers' : Covers frameWidth frameHeight rects' merged')
    (more : rects ⊆ rects') : exactArea merged ≤ exactArea merged' := by
  have below := covers.joins.below meets_persistent covers'.apart fun rect member =>
    (gathers_of_joins covers'.joins).covers rect (more member)
  rw [exactArea_eq_total, exactArea_eq_total]
  apply total_le_of_covered covers.disjoint
  intro box member
  obtain ⟨box', listed, inside⟩ := below box member
  exact ⟨box', listed, pixels_subset inside⟩

/-- The dirty percentage of a frame that is not clean. -/
theorem Covers.analyze_eq (covers : Covers frameWidth frameHeight rects merged)
    (result : mergeRects rects = some merged) (dirty : rects ≠ [])
    (inside : ∀ rect ∈ rects, Inside frameWidth frameHeight rect) (analyzer : SceneAnalyzer) :
    let dirtyPercent : ℚ :=
      (exactArea merged : ℚ) / (frameWidth.toNat * frameHeight.toNat : Nat) * 100
    0 < frameWidth.toNat * frameHeight.toNat ∧
    analyzer.analyze frameWidth frameHeight rects =
      some
        { dirtyPercent
          isIdle := dirtyPercent < 1 / 100
          triggerKeyframe := analyzer.keyframeThreshold ≤ dirtyPercent
          mergedRects := merged } := by
  have product : (frameWidth.toUInt64 * frameHeight.toUInt64).toNat =
      frameWidth.toNat * frameHeight.toNat := by
    rw [UInt64.toNat_mul, UInt32.toNat_toUInt64, UInt32.toNat_toUInt64]
    exact Nat.mod_eq_of_lt (frame_lt frameWidth frameHeight)
  obtain ⟨rect, member⟩ := List.exists_mem_of_ne_nil rects dirty
  obtain ⟨columns, rows⟩ := inside rect member
  have wide : 0 < frameWidth.toNat := by omega
  have high : 0 < frameHeight.toNat := by omega
  have positive := Nat.mul_pos wide high
  have some_area : ¬ frameWidth.toUInt64 * frameHeight.toUInt64 = 0 := by
    intro none
    rw [none, UInt64.toNat_zero] at product
    omega
  refine ⟨positive, ?_⟩
  simp only [analyze, List.isEmpty_iff, dirty, if_false, result, some_area,
    Option.bind_eq_bind, Option.bind_some, product, covers.calculateArea_eq]

/-- The dirty area does not wrap, is no more than the frame and no less than what the
dirty rectangles cover. -/
theorem dirty_area_sound (frameWidth frameHeight : UInt32) (rects : List Rect)
    (inside : ∀ rect ∈ rects, Inside frameWidth frameHeight rect) :
    ∃ merged, mergeRects rects = some merged ∧
      (calculateArea merged).toNat = exactArea merged ∧
      exactArea merged ≤ frameWidth.toNat * frameHeight.toNat ∧
      (union pixels rects).card ≤ exactArea merged ∧
      ∀ analyzer : SceneAnalyzer, ∃ analysis,
        analyzer.analyze frameWidth frameHeight rects = some analysis ∧
          analysis.dirtyPercent ≤ 100 := by
  obtain ⟨merged, result, covers⟩ := mergeRects_covers inside
  have most := covers.exactArea_le
  refine ⟨merged, result, covers.calculateArea_eq, most, covers.union_le, ?_⟩
  intro analyzer
  by_cases clean : rects = []
  · subst clean
    exact ⟨_, rfl, by norm_num⟩
  · obtain ⟨positive, analysis⟩ := covers.analyze_eq result clean inside analyzer
    refine ⟨_, analysis, ?_⟩
    have pixels : (0 : ℚ) < (frameWidth.toNat * frameHeight.toNat : Nat) := by
      exact_mod_cast positive
    have part : (exactArea merged : ℚ) / (frameWidth.toNat * frameHeight.toNat : Nat) ≤ 1 := by
      rw [div_le_one₀ pixels]
      exact_mod_cast most
    dsimp only
    linarith

/-- Two rectangles that share a pixel. -/
theorem dirty_area_sound_corners :
    let rects : List Rect := [⟨0, 0, 10, 10⟩, ⟨9, 9, 20, 20⟩]
    ∃ merged, mergeRects rects = some merged ∧
      (calculateArea merged).toNat = exactArea merged ∧
      exactArea merged ≤ (1920 : UInt32).toNat * (1080 : UInt32).toNat ∧
      (union pixels rects).card ≤ exactArea merged ∧
      ∀ analyzer : SceneAnalyzer, ∃ analysis,
        analyzer.analyze 1920 1080 rects = some analysis ∧ analysis.dirtyPercent ≤ 100 := by
  apply dirty_area_sound
  intro rect member
  simp only [List.mem_cons, List.not_mem_nil, or_false] at member
  rcases member with rfl | rfl
  · exact ⟨by decide, by decide⟩
  · exact ⟨by decide, by decide⟩

/-- A further dirty rectangle, wherever it comes in the list, never makes the dirty area
smaller, nor ends a scene change, nor lets the frame look idle. -/
theorem more_damage_monotone (frameWidth frameHeight : UInt32) (before after : List Rect)
    (rect : Rect) (inside : ∀ r ∈ before ++ rect :: after, Inside frameWidth frameHeight r) :
    (∃ merged merged', mergeRects (before ++ after) = some merged ∧
      mergeRects (before ++ rect :: after) = some merged' ∧
      calculateArea merged ≤ calculateArea merged') ∧
    ∀ analyzer : SceneAnalyzer, ∃ less more,
      analyzer.analyze frameWidth frameHeight (before ++ after) = some less ∧
      analyzer.analyze frameWidth frameHeight (before ++ rect :: after) = some more ∧
      (less.triggerKeyframe = true → more.triggerKeyframe = true) ∧
      (more.isIdle = true → less.isIdle = true) := by
  have subset : before ++ after ⊆ before ++ rect :: after :=
    ((List.sublist_cons_self rect after).append_left before).subset
  have inside' : ∀ r ∈ before ++ after, Inside frameWidth frameHeight r :=
    fun r member => inside r (subset member)
  obtain ⟨merged, result, covers⟩ := mergeRects_covers inside'
  obtain ⟨merged', result', covers'⟩ := mergeRects_covers inside
  have grown := covers.exactArea_mono covers' subset
  constructor
  · refine ⟨merged, merged', result, result', ?_⟩
    rw [UInt64.le_iff_toNat_le, covers.calculateArea_eq, covers'.calculateArea_eq]
    exact grown
  · intro analyzer
    have dirty : before ++ rect :: after ≠ [] := by simp
    obtain ⟨positive, more⟩ := covers'.analyze_eq result' dirty inside analyzer
    by_cases clean : before ++ after = []
    · rw [clean]
      refine ⟨_, _, rfl, more, ?_, fun _ => rfl⟩
      intro triggered
      cases triggered
    · obtain ⟨_, less⟩ := covers.analyze_eq result clean inside' analyzer
      have percent : (exactArea merged : ℚ) / (frameWidth.toNat * frameHeight.toNat : Nat) * 100 ≤
          (exactArea merged' : ℚ) / (frameWidth.toNat * frameHeight.toNat : Nat) * 100 := by
        have areas : (exactArea merged : ℚ) ≤ exactArea merged' := by exact_mod_cast grown
        gcongr
      refine ⟨_, _, less, more, ?_, ?_⟩
      · simp only [decide_eq_true_eq]
        exact fun reached => reached.trans percent
      · simp only [decide_eq_true_eq]
        exact fun small => percent.trans_lt small

/-- A rectangle that joins the other two into one box. -/
theorem more_damage_monotone_bridge :
    let before : List Rect := [⟨0, 0, 4, 4⟩]
    let after : List Rect := [⟨6, 0, 10, 4⟩]
    (∃ merged merged', mergeRects (before ++ after) = some merged ∧
      mergeRects (before ++ ⟨3, 0, 7, 4⟩ :: after) = some merged' ∧
      calculateArea merged ≤ calculateArea merged') ∧
    ∀ analyzer : SceneAnalyzer, ∃ less more,
      analyzer.analyze 1920 1080 (before ++ after) = some less ∧
      analyzer.analyze 1920 1080 (before ++ ⟨3, 0, 7, 4⟩ :: after) = some more ∧
      (less.triggerKeyframe = true → more.triggerKeyframe = true) ∧
      (more.isIdle = true → less.isIdle = true) := by
  apply more_damage_monotone
  intro rect member
  simp only [List.mem_append, List.mem_cons, List.not_mem_nil, or_false] at member
  rcases member with rfl | rfl | rfl
  · exact ⟨by decide, by decide⟩
  · exact ⟨by decide, by decide⟩
  · exact ⟨by decide, by decide⟩

end UltraDisplay.SceneAnalyzer
