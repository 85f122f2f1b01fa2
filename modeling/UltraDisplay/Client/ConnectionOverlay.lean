import Mathlib.Data.List.GetD
import UltraDisplay.Library.SlidingWindow
import UltraDisplay.Shared.Protocol

/-! The latency graph of client/tui/screens/connection_screen.cpp: the history that
`update_stats` shifts along, and what a graph of any width shows of it. -/
namespace UltraDisplay

structure ConnectionOverlay where
  stats : TransportStats := {}
  fps : UInt32 := 0
  codecInfo : String := "Unknown"
  /-- Milliseconds, the newest at the end. -/
  latencyHistory : List Int32
  size : latencyHistory.length = 60

namespace ConnectionOverlay

def construct : ConnectionOverlay where
  latencyHistory := List.replicate 60 0
  size := List.length_replicate

/-- The latency in milliseconds, as it is put into the history. -/
def latency (stats : TransportStats) : Int32 := (stats.rttUs / 1000).toInt32

def updateStats (overlay : ConnectionOverlay) (stats : TransportStats) (currentFps : UInt32)
    (codecInfo : String) : ConnectionOverlay where
  stats := stats
  fps := currentFps
  codecInfo := codecInfo
  latencyHistory := SlidingWindow.push overlay.latencyHistory (latency stats)
  size := (SlidingWindow.length_push ..).trans overlay.size

/-- The callback of the graph in `build_ui`, which divides by its width. -/
def graph (overlay : ConnectionOverlay) (width : Nat) : Option (List Int32) :=
  if width = 0 then none
  else
    let step := max 1 (overlay.latencyHistory.length / width)
    (List.range width).mapM fun i =>
      overlay.latencyHistory[i * step % overlay.latencyHistory.length]?

structure Update where
  stats : TransportStats
  currentFps : UInt32
  codecInfo : String

def run (updates : List Update) : ConnectionOverlay :=
  updates.foldl (fun overlay u => overlay.updateStats u.stats u.currentFps u.codecInfo) construct

/-- How many updates ago the latency in a column was the newest, zero for the newest. -/
def age (width i : Nat) : Nat := 59 - i * max 1 (60 / width) % 60

/-- All that has been in the history, the zeros at the start included. -/
def samples (updates : List Update) : List Int32 :=
  List.replicate 60 0 ++ updates.map fun u => latency u.stats

theorem run_history (updates : List Update) :
    (run updates).latencyHistory = (samples updates).drop updates.length := by
  have pushes (overlay : ConnectionOverlay) :
      (updates.foldl (fun overlay u => overlay.updateStats u.stats u.currentFps u.codecInfo)
          overlay).latencyHistory =
        (updates.map fun u => latency u.stats).foldl SlidingWindow.push overlay.latencyHistory := by
    induction updates generalizing overlay with
    | nil => rfl
    | cons u updates ih => exact ih (overlay.updateStats u.stats u.currentFps u.codecInfo)
  have window := SlidingWindow.foldl_push (updates.map fun u => latency u.stats)
    (List.replicate 60 (0 : Int32)) (by simp)
  rw [List.length_map] at window
  exact (pushes construct).trans window

theorem graph_run (updates : List Update) {width : Nat} (positive : 0 < width) :
    (run updates).graph width =
      some ((List.range width).map fun i =>
        (samples updates).getD (59 + updates.length - age width i) 0) := by
  have column (i : Nat) : (run updates).latencyHistory[i * max 1 (60 / width) % 60]? =
      some ((samples updates).getD (59 + updates.length - age width i) 0) := by
    have inside : i * max 1 (60 / width) % 60 < 60 := Nat.mod_lt _ (by decide)
    have place : updates.length + i * max 1 (60 / width) % 60 =
        59 + updates.length - age width i := by
      unfold age
      omega
    have bound : updates.length + i * max 1 (60 / width) % 60 < (samples updates).length := by
      simp only [samples, List.length_append, List.length_replicate, List.length_map]
      omega
    rw [run_history, List.getElem?_drop, ← place, List.getElem?_eq_getElem bound,
      List.getD_eq_getElem _ _ bound]
  unfold graph
  rw [if_neg (Nat.pos_iff_ne_zero.mp positive)]
  simp only [(run updates).size, column]
  exact List.mapM_pure ..

theorem age_last_iff {width : Nat} (positive : 0 < width) :
    age width (width - 1) = 0 ↔ 60 ∣ width := by
  by_cases wide : 60 ≤ width
  · have step : max 1 (60 / width) = 1 := by
      have few : 60 / width ≤ 1 := (Nat.div_le_div_left wide (by decide)).trans (by decide)
      omega
    unfold age
    rw [step]
    omega
  · have narrow : ∀ w < 60, 0 < w → age w (w - 1) ≠ 0 := by decide
    refine iff_of_false (narrow width (by omega) positive) ?_
    omega

/-- The columns go on in time as long as the history is not gone through twice. -/
theorem age_lt_iff (width : Nat) :
    (∀ i j, i < j → j < width → age width j < age width i) ↔ width ≤ 60 := by
  constructor
  · intro ordered
    by_contra wide
    have step : max 1 (60 / width) = 1 := by
      rw [Nat.div_eq_of_lt (by omega)]
      rfl
    have last := ordered 59 60 (by decide) (by omega)
    unfold age at last
    rw [step] at last
    omega
  · intro narrow i j earlier inside
    have positive : 0 < width := by omega
    have step : max 1 (60 / width) = 60 / width :=
      max_eq_right ((Nat.le_div_iff_mul_le positive).mpr (by omega))
    have across : (j + 1) * (60 / width) ≤ 60 :=
      (Nat.mul_le_mul_right _ inside).trans (Nat.mul_div_le 60 width)
    have forward : (i + 1) * (60 / width) ≤ j * (60 / width) := Nat.mul_le_mul_right _ earlier
    have some_step : 0 < 60 / width := Nat.div_pos narrow positive
    rw [Nat.add_mul, Nat.one_mul] at across forward
    unfold age
    rw [step, Nat.mod_eq_of_lt (by omega), Nat.mod_eq_of_lt (by omega)]
    omega

/-- A graph of any width shows latencies that were updated in, or the zeros before them:
from left to right in the order of time exactly up to 60 columns, and with the newest one
last, whatever the updates were, exactly in a multiple of 60. -/
theorem graph_shows (width : Nat) (positive : 0 < width) :
    (∀ updates, (run updates).graph width =
        some ((List.range width).map fun i =>
          (samples updates).getD (59 + updates.length - age width i) 0)) ∧
      ((∀ i j, i < j → j < width → age width j < age width i) ↔ width ≤ 60) ∧
      ((∀ updates, ((run updates).graph width).bind List.getLast? = (samples updates).getLast?) ↔
        60 ∣ width) := by
  refine ⟨fun updates => graph_run updates positive, age_lt_iff width, ?_⟩
  have last (updates : List Update) : ((run updates).graph width).bind List.getLast? =
      some ((samples updates).getD (59 + updates.length - age width (width - 1)) 0) := by
    obtain ⟨before, rfl⟩ : ∃ before, width = before + 1 := ⟨width - 1, by omega⟩
    rw [graph_run updates positive, Option.bind_some, List.range_succ, List.map_append]
    simp
  simp only [last]
  rw [← age_last_iff positive]
  constructor
  · intro newest
    by_contra late
    have one := newest [⟨{ rttUs := 1000 }, 0, ""⟩]
    have early : 59 + 1 - age width (width - 1) < 60 := by omega
    rw [samples, List.length_singleton,
      List.getD_append _ _ _ _ (early.trans_eq List.length_replicate.symm),
      List.getD_replicate _ early, List.map_singleton, List.getLast?_concat] at one
    exact absurd one (by decide)
  · intro zero updates
    have length : (samples updates).length = 60 + updates.length := by
      rw [samples, List.length_append, List.length_replicate, List.length_map]
    have index : 59 + updates.length - 0 = (samples updates).length - 1 := by omega
    have inside : (samples updates).length - 1 < (samples updates).length := by omega
    rw [zero, index, List.getLast?_eq_getElem?, List.getD_eq_getElem _ _ inside,
      List.getElem?_eq_getElem inside]

/-- No graph of 86 columns ends with the newest latency after every update. -/
theorem graph_shows_at_86 : ¬ ∀ updates,
    ((run updates).graph 86).bind List.getLast? = (samples updates).getLast? := by
  intro newest
  have multiple := (graph_shows 86 (by decide)).2.2.mp newest
  omega

end ConnectionOverlay
end UltraDisplay
