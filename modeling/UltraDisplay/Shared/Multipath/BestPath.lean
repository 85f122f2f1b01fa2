import Mathlib.Data.Rat.Floor
import Mathlib.Tactic.Linarith
import UltraDisplay.Library.FirstMinimum
import UltraDisplay.Shared.Multipath

/-! Which path is active after an evaluation: the first with the least score. Losses are
read as exact rationals, and the score is the cost of the path modulo 2^32. -/
namespace UltraDisplay.Multipath
open FirstMinimum Transition
variable {F μ : Type}

/-- `static_cast<uint32_t>(stats.loss_percent * 10000.0f)`. -/
def lossPenalty (lossPercent : ℚ) : UInt32 := UInt32.ofNat ⌊lossPercent * 10000⌋.toNat

/-- The score without a limit. -/
def cost (stats : TransportStats ℚ) (isWifi : Bool) : Nat :=
  stats.rttUs.toNat + ⌊stats.packetLossPercent * 10000⌋.toNat + if isWifi then 2000 else 0

def MultipathManager.costs (manager : MultipathManager ℚ μ) (stats : Nat → TransportStats ℚ) :
    List Nat :=
  manager.paths.mapIdx fun i path => cost (stats i) path.stats.isWifi

/-- Either every cost reaches 2^32, or each that does is still more than a lesser one
when 2^32 is taken off it, or the same and later. -/
def Comparable (costs : List Nat) : Prop :=
  (∀ (i c : Nat), costs[i]? = some c → 4294967296 ≤ c) ∨
  ∀ (i c : Nat), costs[i]? = some c → 4294967296 ≤ c →
    ∃ (j d : Nat), costs[j]? = some d ∧ d < 4294967296 ∧
      (d + 4294967296 < c ∨ d + 4294967296 = c ∧ j < i)

/-- Every path is added active and stays so. -/
def AllActive (manager : MultipathManager F μ) : Prop :=
  ∀ path ∈ manager.paths, path.stats.isActive = true

theorem best_eq_scan (paths : List (PathInfo F μ)) (i : Nat) (bestScore : UInt32) (bestIdx : Nat) :
    best paths i bestScore bestIdx =
      scan (paths.map fun path => path.score.toNat) i bestScore.toNat bestIdx := by
  induction paths generalizing i bestScore bestIdx with
  | nil => rfl
  | cons path paths ih =>
    simp only [best, List.map_cons, scan, UInt32.lt_iff_toNat_lt, ih]

/-- The active path is the first with the least score, whatever the scores. -/
theorem evaluatePaths_firstMin (penalty : F → UInt32) (stats : Nat → TransportStats F)
    (manager : MultipathManager F μ) (some_path : manager.paths ≠ []) :
    FirstMin ((manager.evaluatePaths penalty stats).paths.map fun path => path.score.toNat)
      (manager.evaluatePaths penalty stats).activePathIdx := by
  simp only [MultipathManager.evaluatePaths, List.isEmpty_iff, some_path, if_false, best_eq_scan]
  apply scan_firstMin
  · simpa using some_path
  · intro score member
    obtain ⟨path, _, rfl⟩ := List.mem_map.mp member
    exact Nat.le_of_lt_succ path.score.toNat_lt

theorem lossPenalty_toNat {lossPercent : ℚ} (most : lossPercent ≤ 100) :
    ⌊lossPercent * 10000⌋.toNat ≤ 1000000 ∧
      (lossPenalty lossPercent).toNat = ⌊lossPercent * 10000⌋.toNat := by
  have below : ⌊lossPercent * 10000⌋ < 1000001 := by
    rw [Int.floor_lt]
    push_cast
    linarith
  refine ⟨by omega, ?_⟩
  rw [lossPenalty, UInt32.toNat_ofNat']
  exact Nat.mod_eq_of_lt (by omega)

theorem refresh_score {path : PathInfo ℚ μ} {stats : TransportStats ℚ}
    (active : path.stats.isActive = true) (most : stats.packetLossPercent ≤ 100) :
    (path.refresh lossPenalty stats).score.toNat =
      cost stats path.stats.isWifi % 4294967296 := by
  obtain ⟨_, penalty⟩ := lossPenalty_toNat most
  simp only [PathInfo.refresh, calculateScore, active, if_true, cost]
  cases path.stats.isWifi with
  | false =>
    rw [if_neg (by decide), if_neg (by decide), UInt32.toNat_add, penalty]
    rfl
  | true =>
    rw [if_pos rfl, if_pos rfl, UInt32.toNat_add, UInt32.toNat_add, penalty, Nat.mod_add_mod]
    rfl

variable {manager : MultipathManager ℚ μ} {stats : Nat → TransportStats ℚ}

theorem scores_eq (active : AllActive manager) (some_path : manager.paths ≠ [])
    (losses : ∀ i < manager.paths.length, (stats i).packetLossPercent ≤ 100) :
    ((manager.evaluatePaths lossPenalty stats).paths.map fun path => path.score.toNat) =
      (manager.costs stats).map (· % 4294967296) := by
  apply List.ext_getElem
  · simp [MultipathManager.evaluatePaths, MultipathManager.costs, some_path]
  · intro i inside _
    have within : i < manager.paths.length := by
      simpa [MultipathManager.evaluatePaths, some_path] using inside
    have score := refresh_score (active _ (List.getElem_mem within)) (losses i within)
    simpa [MultipathManager.evaluatePaths, MultipathManager.costs, some_path] using score

theorem costs_lt {i c : Nat} (losses : ∀ i < manager.paths.length, (stats i).packetLossPercent ≤ 100)
    (found : (manager.costs stats)[i]? = some c) : c < 8589934592 := by
  obtain ⟨inside, rfl⟩ := List.getElem?_eq_some_iff.mp found
  have within : i < manager.paths.length := by simpa [MultipathManager.costs] using inside
  have penalty := (lossPenalty_toNat (losses i within)).1
  have rtt := (stats i).rttUs.toNat_lt
  simp only [MultipathManager.costs, List.getElem_mapIdx, cost]
  split <;> omega

/-- The cost at the index has the least residue, and the earlier residues are greater. -/
def LeastResidue (costs : List Nat) (i c : Nat) : Prop :=
  ∀ j d : Nat, costs[j]? = some d → c % 4294967296 ≤ d % 4294967296 ∧
    (j < i → c % 4294967296 < d % 4294967296)

section Residues
variable {costs : List Nat} {i c : Nat}

/-- Below twice the modulus the order of the residues is that of the costs if the one
chosen fits the modulus, or if none does. -/
theorem firstMin_of_leastResidue (small : ∀ j d : Nat, costs[j]? = some d → d < 8589934592)
    (here : costs[i]? = some c) (least : LeastResidue costs i c)
    (order : c < 4294967296 ∨ ∀ j d : Nat, costs[j]? = some d → 4294967296 ≤ d) :
    FirstMin costs i := by
  refine ⟨c, here, fun j d found => ?_⟩
  have limit := small i c here
  have limit' := small j d found
  have score := least j d found
  rcases order with fits | all
  · refine ⟨by omega, fun before => ?_⟩
    have strict := score.2 before
    omega
  · have wraps := all i c here
    have wraps' := all j d found
    refine ⟨by omega, fun before => ?_⟩
    have strict := score.2 before
    omega

theorem comparable_of_firstMin (small : ∀ j d : Nat, costs[j]? = some d → d < 8589934592)
    (here : costs[i]? = some c) (least : LeastResidue costs i c) (first : FirstMin costs i) :
    Comparable costs := by
  obtain ⟨_, same, lowest⟩ := first
  cases Option.some.inj (here.symm.trans same)
  by_cases large : 4294967296 ≤ c
  · refine Or.inl fun j d found => ?_
    have above := (lowest j d found).1
    omega
  · refine Or.inr fun j d found wraps => ?_
    have score := least j d found
    have limit := small j d found
    refine ⟨i, c, here, by omega, ?_⟩
    rcases Nat.lt_trichotomy j i with before | same | after
    · have strict := score.2 before
      omega
    · subst same
      cases Option.some.inj (here.symm.trans found)
      omega
    · omega

theorem fits_of_comparable (comparable : Comparable costs) (here : costs[i]? = some c)
    (least : LeastResidue costs i c) (bound : c < 8589934592) :
    c < 4294967296 ∨ ∀ j d : Nat, costs[j]? = some d → 4294967296 ≤ d := by
  rcases comparable with all | some_less
  · exact Or.inr all
  · refine Or.inl ?_
    by_contra wraps
    obtain ⟨j, d, found, less, order⟩ := some_less i c here (by omega)
    have score := least j d found
    rcases order with lower | ⟨same, before⟩
    · omega
    · have strict := score.2 before
      omega

end Residues

/-- With costs below twice the modulus, a first minimum of the residues is one of the
costs precisely when these are comparable. -/
theorem firstMin_iff_comparable {costs : List Nat} {i : Nat}
    (small : ∀ j c : Nat, costs[j]? = some c → c < 8589934592)
    (first : FirstMin (costs.map (· % 4294967296)) i) : FirstMin costs i ↔ Comparable costs := by
  obtain ⟨c, here, least⟩ := firstMin_map_iff.mp first
  constructor
  · exact comparable_of_firstMin small here least
  · intro comparable
    exact firstMin_of_leastResidue small here least
      (fits_of_comparable comparable here least (small i c here))

theorem evaluatePaths_allActive (penalty : F → UInt32) (stats : Nat → TransportStats F)
    {manager : MultipathManager F μ} (active : AllActive manager) :
    AllActive (manager.evaluatePaths penalty stats) := by
  unfold MultipathManager.evaluatePaths
  split
  · exact active
  · intro path member
    obtain ⟨i, inside, rfl⟩ := List.mem_mapIdx.mp member
    exact active manager.paths[i] (List.getElem_mem inside)

theorem addPath_allActive [Zero F] (penalty : F → UInt32) (stats : Nat → TransportStats F)
    (transport : Transport μ) (isWifi : Bool) {manager : MultipathManager F μ}
    (active : AllActive manager) : AllActive (manager.addPath penalty stats transport isWifi) := by
  apply evaluatePaths_allActive
  intro path member
  rcases List.mem_append.mp member with member | member
  · exact active path member
  · rw [List.mem_singleton.mp member]

theorem set_allActive {manager : MultipathManager F μ} {path : PathInfo F μ} {i : Nat}
    (active : AllActive manager) (found : manager.paths[i]? = some path)
    (transport : Transport μ) :
    AllActive { manager with paths := manager.paths.set i { path with transport } } := by
  intro other member
  rcases List.mem_or_eq_of_mem_set member with member | rfl
  · exact active other member
  · exact active path (List.mem_of_getElem? found)

theorem deliver_allActive {s t : State F μ} {i : Nat} (active : AllActive s.manager)
    (delivered : s.deliver i = some t) : AllActive t.manager := by
  obtain ⟨path, found, delivered⟩ := Option.bind_eq_some_iff.mp delivered
  obtain ⟨⟨message, after⟩, _, outcome⟩ := Option.map_eq_some_iff.mp delivered
  rw [← outcome]
  exact set_allActive active found after

theorem resume_manager (s : State F μ) (error : Error) (i : Nat) (refused : List Nat) :
    (s.resume error i refused).manager = s.manager := by
  have same (i : Nat) : (if i < s.manager.paths.length then
      { s with place := .fallback error i refused } else s.giveUp error refused).manager =
        s.manager := by
    split <;> rfl
  exact same _

theorem poll_allActive {s t : State F μ} (active : AllActive s.manager)
    (polled : s.poll refusal = some t) : AllActive t.manager := by
  unfold State.poll at polled
  split at polled
  · cases polled
  · exact deliver_allActive active polled
  · cases Option.some.inj polled
    rw [resume_manager]
    exact active
  · exact deliver_allActive active polled
  · cases Option.some.inj polled
    rw [resume_manager]
    exact active

theorem step_allActive [Zero F] {penalty : F → UInt32} {s t : State F μ}
    (active : AllActive s.manager) (stepped : s.step penalty e = some t) : AllActive t.manager := by
  cases e with
  | addPath queued isWifi stats =>
    simp only [State.step] at stepped
    split at stepped
    · cases Option.some.inj stepped
      exact addPath_allActive penalty stats _ isWifi active
    · cases stepped
  | evaluatePaths stats =>
    simp only [State.step] at stepped
    split at stepped
    · cases Option.some.inj stepped
      exact evaluatePaths_allActive penalty stats active
    · cases stepped
  | arrive i message =>
    obtain ⟨path, found, rfl⟩ := Option.map_eq_some_iff.mp stepped
    exact set_allActive active found _
  | receive =>
    simp only [State.step] at stepped
    split at stepped
    · split at stepped
      · cases Option.some.inj stepped
        exact active
      · cases Option.some.inj stepped
        exact active
    · cases stepped
  | poll refusal => exact poll_allActive active stepped

/-- An evaluation after any run makes the first path with the least cost the active one
precisely when the costs are comparable modulo 2^32. -/
theorem best_path_iff_comparable (events : List (Event ℚ μ)) (s : State ℚ μ)
    (stats : Nat → TransportStats ℚ)
    (reached : run (State.step lossPenalty) State.start events = some s)
    (some_path : s.manager.paths ≠ [])
    (losses : ∀ i < s.manager.paths.length,
      0 ≤ (stats i).packetLossPercent ∧ (stats i).packetLossPercent ≤ 100) :
    FirstMin (s.manager.costs stats) (s.manager.evaluatePaths lossPenalty stats).activePathIdx ↔
      Comparable (s.manager.costs stats) := by
  have active : AllActive s.manager :=
    run_invariant (I := fun s : State ℚ μ => AllActive s.manager)
      (fun _ _ _ active stepped => step_allActive active stepped)
      (fun _ member => absurd member List.not_mem_nil) reached
  have most : ∀ i < s.manager.paths.length, (stats i).packetLossPercent ≤ 100 :=
    fun i inside => (losses i inside).2
  have first := evaluatePaths_firstMin lossPenalty stats s.manager some_path
  rw [scores_eq active some_path most] at first
  exact firstMin_iff_comparable (fun _ _ found => costs_lt most found) first

def idleStats (rttUs : UInt32) : TransportStats ℚ :=
  { rttUs, packetLossPercent := 0, bandwidthEstBps := 0 }

/-- A wired path and a wireless one, as fast at first. -/
def wiredThenWireless : List (Event ℚ Unit) :=
  [.addPath [] false fun _ => idleStats 1000, .addPath [] true fun _ => idleStats 1000]

theorem best_path_iff_comparable_wired : ∃ s : State ℚ Unit,
    run (State.step lossPenalty) State.start wiredThenWireless = some s ∧
    (FirstMin (s.manager.costs fun _ => idleStats 5000)
        (s.manager.evaluatePaths lossPenalty fun _ => idleStats 5000).activePathIdx ↔
      Comparable (s.manager.costs fun _ => idleStats 5000)) := by
  refine ⟨_, rfl, best_path_iff_comparable wiredThenWireless _ _ rfl ?_ ?_⟩
  · exact List.cons_ne_nil _ _
  · intro _ _
    exact ⟨le_rfl, by decide +kernel⟩

/-- A wireless path that reports the largest round trip time scores 1999, and is
preferred to a wired one of 20 milliseconds. -/
theorem extreme_rtt_preferred : ¬ ∀ (events : List (Event ℚ Unit)) (s : State ℚ Unit)
    (stats : Nat → TransportStats ℚ),
    run (State.step lossPenalty) State.start events = some s → s.manager.paths ≠ [] →
    (∀ i < s.manager.paths.length,
      0 ≤ (stats i).packetLossPercent ∧ (stats i).packetLossPercent ≤ 100) →
    FirstMin (s.manager.costs stats)
      (s.manager.evaluatePaths lossPenalty stats).activePathIdx := by
  intro claim
  have hundred : (0 : ℚ) ≤ 100 := by decide +kernel
  let stats : Nat → TransportStats ℚ := fun i => idleStats (if i = 0 then 20000 else 4294967295)
  have first := claim wiredThenWireless _ stats rfl (List.cons_ne_nil _ _)
    fun _ _ => ⟨le_rfl, hundred⟩
  obtain ⟨least, here, lowest⟩ := first
  have wired := (lowest 0 20000 (by decide +kernel)).1
  have wireless : some 4294969295 = some least := by
    rw [← here]
    decide +kernel
  cases Option.some.inj wireless
  omega

end UltraDisplay.Multipath
