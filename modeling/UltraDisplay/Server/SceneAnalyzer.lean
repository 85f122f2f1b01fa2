import Mathlib.Data.Rat.Defs

/-! The scene analysis of server/capture/scene_analyzer.cpp: dirty rectangles are
merged until none of them intersect, and their total area is set against the
frame. Coordinates are integers and percentages exact rationals. -/
namespace UltraDisplay

structure Rect where
  (left top right bottom : Int)
  deriving DecidableEq

structure SceneAnalysis where
  dirtyPercent : ℚ
  triggerKeyframe : Bool
  isIdle : Bool
  mergedRects : List Rect
  deriving DecidableEq

structure SceneAnalyzer where
  keyframeThreshold : ℚ := 80

namespace SceneAnalyzer

def setKeyframeThreshold (analyzer : SceneAnalyzer) (percent : ℚ) : SceneAnalyzer :=
  { analyzer with keyframeThreshold := percent }

def rectsIntersect (a b : Rect) : Bool :=
  !(a.right ≤ b.left || a.left ≥ b.right || a.bottom ≤ b.top || a.top ≥ b.bottom)

def merge (a b : Rect) : Rect :=
  { left := min a.left b.left
    top := min a.top b.top
    right := max a.right b.right
    bottom := max a.bottom b.bottom }

/-- The first box that intersects the rectangle takes it in. -/
def absorb (rect : Rect) : List Rect → List Rect
  | [] => [rect]
  | m :: rest =>
    if rectsIntersect m rect then merge m rect :: rest else m :: absorb rect rest

def firstPass (input : List Rect) : List Rect :=
  input.foldl (fun merged rect => absorb rect merged) []

/-- The loop over `j`: `box` is `merged[i]` and the list what follows it. The flag
is `changed`. -/
def scan (box : Rect) : List Rect → Rect × List Rect × Bool
  | [] => (box, [], false)
  | rect :: rest =>
    if rectsIntersect box rect then
      let (box, kept, _) := scan (merge box rect) rest
      (box, kept, true)
    else
      let (box, kept, changed) := scan box rest
      (box, rect :: kept, changed)

/-- The loop over `i`, one turn for each rectangle left at most. -/
def round : Nat → List Rect → List Rect × Bool
  | turns + 1, box :: rest =>
    let (box, kept, changed) := scan box rest
    let (others, later) := round turns kept
    (box :: others, changed || later)
  | _, rects => (rects, false)

/-- The outer loop: rounds until one changes nothing, within the given number. -/
def secondPass : Nat → List Rect → Option (List Rect)
  | 0, _ => none
  | rounds + 1, rects =>
    let (next, changed) := round rects.length rects
    if changed then secondPass rounds next else some next

def mergeRects (input : List Rect) : Option (List Rect) :=
  if input.isEmpty then some []
  else
    let merged := firstPass input
    secondPass merged.length merged

/-- Unsigned arithmetic modulo 2^64; a negative side is converted. -/
def calculateArea (rects : List Rect) : UInt64 :=
  rects.foldl
    (fun area r => area + UInt64.ofInt (r.right - r.left) * UInt64.ofInt (r.bottom - r.top)) 0

/-- A frame without area has no percentage. -/
def analyze (analyzer : SceneAnalyzer) (frameWidth frameHeight : UInt32) (dirtyRects : List Rect) :
    Option SceneAnalysis :=
  if dirtyRects.isEmpty then
    some { dirtyPercent := 0, isIdle := true, triggerKeyframe := false, mergedRects := [] }
  else do
    let mergedRects ← mergeRects dirtyRects
    let totalArea := frameWidth.toUInt64 * frameHeight.toUInt64
    let dirtyArea := calculateArea mergedRects
    if totalArea = 0 then none
    else
      let dirtyPercent : ℚ := dirtyArea.toNat / totalArea.toNat * 100
      some
        { dirtyPercent
          isIdle := dirtyPercent < 1 / 100
          triggerKeyframe := analyzer.keyframeThreshold ≤ dirtyPercent
          mergedRects }

end SceneAnalyzer
end UltraDisplay
