import UltraDisplay.Server.AdaptiveController
import UltraDisplay.Server.SceneAnalyzer.Area

/-! When a frame that has changed is taken for an idle one. The header has it idle at
0.0 percent, the code below a hundredth of a percent, so that it depends on the size
of the frame whether a change is noticed. -/
namespace UltraDisplay.SceneAnalyzer
open AdaptiveController

def Noticed (analysis : SceneAnalysis) : Prop :=
  analysis.isIdle = false ∧
    ∀ controller : AdaptiveController, (controller.evaluateFrame analysis).1.roiQpDelta ≠ 51

/-- The boxes left when rectangles that intersect are joined until none do cover a
ten-thousandth of the frame at least. -/
def Visible (frameWidth frameHeight : UInt32) (rects : List Rect) : Prop :=
  ∀ boxes, Covers frameWidth frameHeight rects boxes →
    frameWidth.toNat * frameHeight.toNat ≤ 10000 * exactArea boxes

theorem noticed_iff (analysis : SceneAnalysis) : Noticed analysis ↔ analysis.isIdle = false := by
  constructor
  · exact fun noticed => noticed.1
  · intro busy
    refine ⟨busy, fun controller => ?_⟩
    simp only [evaluateFrame, busy, Bool.false_eq_true, if_false]
    decide

/-- The joined boxes have the same area whatever was joined first. -/
theorem visible_iff {frameWidth frameHeight : UInt32} {rects merged : List Rect}
    (covers : Covers frameWidth frameHeight rects merged) :
    Visible frameWidth frameHeight rects ↔
      frameWidth.toNat * frameHeight.toNat ≤ 10000 * exactArea merged := by
  constructor
  · exact fun visible => visible merged covers
  · intro large boxes covers'
    have same := covers.exactArea_mono covers' (List.Subset.refl rects)
    omega

theorem percent_lt_iff {dirty total : Nat} (positive : 0 < total) :
    (dirty : ℚ) / total * 100 < 1 / 100 ↔ 10000 * dirty < total := by
  have some_pixels : (0 : ℚ) < total := by exact_mod_cast positive
  have scaled : (dirty : ℚ) / total * 100 < 1 / 100 ↔ 10000 * (dirty : ℚ) < total := by
    rw [div_mul_eq_mul_div, div_lt_div_iff₀ some_pixels (by norm_num)]
    constructor
    · intro less
      linarith
    · intro less
      linarith
  rw [scaled]
  exact_mod_cast Iff.rfl

/-- A changed frame is noticed precisely when the boxes around the changes cover a
ten-thousandth of it. -/
theorem noticed_iff_visible (frameWidth frameHeight : UInt32) (analyzer : SceneAnalyzer)
    (rects : List Rect) (dirty : rects ≠ [])
    (inside : ∀ rect ∈ rects, Inside frameWidth frameHeight rect) :
    ∃ analysis, analyzer.analyze frameWidth frameHeight rects = some analysis ∧
      (Noticed analysis ↔ Visible frameWidth frameHeight rects) := by
  obtain ⟨merged, result, covers⟩ := mergeRects_covers inside
  obtain ⟨positive, analysis⟩ := covers.analyze_eq result dirty inside analyzer
  refine ⟨_, analysis, ?_⟩
  rw [noticed_iff, visible_iff covers, decide_eq_false_iff_not, percent_lt_iff positive]
  exact Nat.not_lt

/-- A window of 192 by 108 pixels. -/
theorem noticed_iff_visible_window : ∃ analysis,
    ({} : SceneAnalyzer).analyze 1920 1080 [⟨0, 0, 192, 108⟩] = some analysis ∧
      (Noticed analysis ↔ Visible 1920 1080 [⟨0, 0, 192, 108⟩]) := by
  apply noticed_iff_visible
  · exact List.cons_ne_nil _ _
  · intro rect member
    rw [List.mem_singleton.mp member]
    exact ⟨by decide, by decide⟩

/-- A text caret of 2 by 20 pixels blinks unnoticed on a screen of 1920 by 1080. -/
theorem caret_unnoticed : ¬ ∀ (frameWidth frameHeight : UInt32) (analyzer : SceneAnalyzer)
    (rects : List Rect) (analysis : SceneAnalysis), rects ≠ [] →
    (∀ rect ∈ rects, Inside frameWidth frameHeight rect) →
    analyzer.analyze frameWidth frameHeight rects = some analysis → Noticed analysis := by
  intro claim
  have small : (40 : ℚ) / 2073600 * 100 < 1 / 100 := by norm_num
  have analysis : ({} : SceneAnalyzer).analyze 1920 1080 [⟨100, 100, 102, 120⟩] =
      some ⟨40 / 2073600 * 100, decide ((80 : ℚ) ≤ 40 / 2073600 * 100),
        decide ((40 : ℚ) / 2073600 * 100 < 1 / 100), [⟨100, 100, 102, 120⟩]⟩ := by
    rfl
  have noticed := claim 1920 1080 {} _ _ (List.cons_ne_nil _ _) (by
    intro rect member
    rw [List.mem_singleton.mp member]
    exact ⟨by decide, by decide⟩) analysis
  exact absurd small (of_decide_eq_false noticed.1)

end UltraDisplay.SceneAnalyzer
