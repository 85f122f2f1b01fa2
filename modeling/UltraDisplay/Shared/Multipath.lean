import UltraDisplay.Shared.Result
import UltraDisplay.Library.Transition
import Mathlib.Data.List.Basic

/-! `MultipathManager` of shared/transport/multipath.cpp over transports that
queue messages. `receive` polls one path at a time; messages may arrive on any
path between two polls, and any poll may fail. `F` is the type of the floating
point losses and `lossPenalty` the conversion of `loss_percent * 10000.0f` to
32 bits, neither of which the choice of a path depends on further. -/
namespace UltraDisplay.Multipath
open Transition
variable {F μ : Type}

structure PathStats (F : Type) where
  rttUs : UInt32
  lossPercent : F
  bandwidthBps : UInt32
  isActive : Bool
  isWifi : Bool

structure TransportStats (F : Type) where
  rttUs : UInt32
  packetLossPercent : F
  bandwidthEstBps : UInt64

/-- An `ITransport`: the messages not yet received, and the history of those
that arrived and those taken out, which nothing reads. -/
structure Transport (μ : Type) where
  queue : List μ
  arrived : List μ
  taken : List μ

def Transport.arrive (transport : Transport μ) (message : μ) : Transport μ :=
  { transport with
    queue := transport.queue ++ [message]
    arrived := transport.arrived ++ [message] }

def Transport.receive (transport : Transport μ) : Option (μ × Transport μ) :=
  match transport.queue with
  | [] => none
  | message :: rest =>
      some (message, { transport with queue := rest, taken := transport.taken ++ [message] })

structure PathInfo (F μ : Type) where
  transport : Transport μ
  stats : PathStats F
  score : UInt32

structure MultipathManager (F μ : Type) where
  paths : List (PathInfo F μ)
  activePathIdx : Nat

def calculateScore (lossPenalty : F → UInt32) (stats : PathStats F) : UInt32 :=
  if stats.isActive then
    let score := stats.rttUs + lossPenalty stats.lossPercent
    if stats.isWifi then score + 2000 else score
  else 0xFFFFFFFF

def PathInfo.refresh (lossPenalty : F → UInt32) (path : PathInfo F μ) (stats : TransportStats F) :
    PathInfo F μ :=
  let refreshed :=
    { path.stats with
      rttUs := stats.rttUs
      lossPercent := stats.packetLossPercent
      bandwidthBps := stats.bandwidthEstBps.toUInt32 }
  { path with stats := refreshed, score := calculateScore lossPenalty refreshed }

/-- The loop of `evaluate_paths` over the paths from index `i` on. -/
def best : List (PathInfo F μ) → (i : Nat) → (bestScore : UInt32) → (bestIdx : Nat) → Nat
  | [], _, _, bestIdx => bestIdx
  | path :: paths, i, bestScore, bestIdx =>
      if path.score < bestScore then best paths (i + 1) path.score i
      else best paths (i + 1) bestScore bestIdx

namespace MultipathManager

/-- `stats i` is what the transport of path `i` reports. -/
def evaluatePaths (lossPenalty : F → UInt32) (stats : Nat → TransportStats F)
    (manager : MultipathManager F μ) : MultipathManager F μ :=
  if manager.paths.isEmpty then manager
  else
    let paths := manager.paths.mapIdx fun i path => path.refresh lossPenalty (stats i)
    { paths := paths, activePathIdx := best paths 0 0xFFFFFFFF 0 }

def addPath [Zero F] (lossPenalty : F → UInt32) (stats : Nat → TransportStats F)
    (path : Transport μ) (isWifi : Bool) (manager : MultipathManager F μ) :
    MultipathManager F μ :=
  let info : PathInfo F μ :=
    { transport := path
      stats :=
        { rttUs := 0, lossPercent := 0, bandwidthBps := 0, isActive := true, isWifi := isWifi }
      score := 0 }
  { manager with paths := manager.paths ++ [info] }.evaluatePaths lossPenalty stats

end MultipathManager

/-- Where `receive` stands. `refused` lists the paths that failed in this call;
the error to return is the one of the active path. -/
inductive Place where
  | idle
  | active
  | fallback (error : Error) (i : Nat) (refused : List Nat)

/-- What a `receive` returned, and from which path or after which refusals. -/
inductive Returned (μ : Type) where
  | message (path : Nat) (message : μ)
  | failed (error : Error) (refused : List Nat)

structure State (F μ : Type) where
  manager : MultipathManager F μ
  place : Place
  returned : List (Returned μ)

/-- A poll refuses with an error or delivers the front of the path's queue. -/
inductive Event (F μ : Type) where
  | addPath (queued : List μ) (isWifi : Bool) (stats : Nat → TransportStats F)
  | evaluatePaths (stats : Nat → TransportStats F)
  | arrive (path : Nat) (message : μ)
  | receive
  | poll (refusal : Option Error)

def noPaths : Error := systemError "No paths available"

namespace State

def giveUp (s : State F μ) (error : Error) (refused : List Nat) : State F μ :=
  { s with place := .idle, returned := s.returned ++ [.failed error refused] }

/-- The head of the fallback loop at index `i`. -/
def resume (s : State F μ) (error : Error) (i : Nat) (refused : List Nat) : State F μ :=
  let i := if i = s.manager.activePathIdx then i + 1 else i
  if i < s.manager.paths.length then { s with place := .fallback error i refused }
  else s.giveUp error refused

/-- The transport of path `i` delivers, and `receive` returns. -/
def deliver (s : State F μ) (i : Nat) : Option (State F μ) :=
  s.manager.paths[i]?.bind fun path => path.transport.receive.map fun (message, transport) =>
    { manager :=
        { s.manager with paths := s.manager.paths.set i { path with transport := transport } }
      place := .idle
      returned := s.returned ++ [.message i message] }

def poll (s : State F μ) (refusal : Option Error) : Option (State F μ) :=
  match s.place, refusal with
  | .idle, _ => none
  | .active, none => s.deliver s.manager.activePathIdx
  | .active, some error => some (s.resume error 0 [s.manager.activePathIdx])
  | .fallback _ i _, none => s.deliver i
  | .fallback error i refused, some _ => some (s.resume error (i + 1) (refused ++ [i]))

/-- One thread uses the manager, so paths are added and evaluated between calls;
messages arrive at any time. -/
def step [Zero F] (lossPenalty : F → UInt32) (s : State F μ) : Event F μ → Option (State F μ)
  | .addPath queued isWifi stats =>
      match s.place with
      | .idle =>
          let path : Transport μ := { queue := queued, arrived := queued, taken := [] }
          some { s with manager := s.manager.addPath lossPenalty stats path isWifi }
      | _ => none
  | .evaluatePaths stats =>
      match s.place with
      | .idle => some { s with manager := s.manager.evaluatePaths lossPenalty stats }
      | _ => none
  | .arrive i message =>
      s.manager.paths[i]?.map fun path =>
        { s with
          manager :=
            { s.manager with
              paths := s.manager.paths.set i
                { path with transport := path.transport.arrive message } } }
  | .receive =>
      match s.place with
      | .idle =>
          if s.manager.paths.isEmpty then some (s.giveUp noPaths [])
          else some { s with place := .active }
      | _ => none
  | .poll refusal => s.poll refusal

def start : State F μ :=
  { manager := { paths := [], activePathIdx := 0 }, place := .idle, returned := [] }

def transports (s : State F μ) : List (Transport μ) := s.manager.paths.map PathInfo.transport

/-- The path that a `receive` in progress polls next. -/
def polled (s : State F μ) : Option Nat :=
  match s.place with
  | .idle => none
  | .active => some s.manager.activePathIdx
  | .fallback _ i _ => some i

/-- The messages returned from path `i`, in order. -/
def messagesFrom (s : State F μ) (i : Nat) : List μ :=
  s.returned.filterMap fun
    | .message path message => if path = i then some message else none
    | .failed _ _ => none

/-- The messages consumed from path `i`, in order. -/
def takenFrom (s : State F μ) (i : Nat) : List μ :=
  (s.transports[i]?.map Transport.taken).getD []

end State

theorem best_lt (paths : List (PathInfo F μ)) (i : Nat) (bestScore : UInt32) (bestIdx : Nat)
    (earlier : bestIdx < i + paths.length) :
    best paths i bestScore bestIdx < i + paths.length := by
  induction paths generalizing i bestScore bestIdx with
  | nil => exact earlier
  | cons path paths ih =>
    rw [List.length_cons] at earlier ⊢
    have bound : i + (paths.length + 1) = i + 1 + paths.length := by omega
    rw [bound] at earlier ⊢
    unfold best
    split
    · exact ih _ _ _ (by omega)
    · exact ih _ _ _ earlier

namespace MultipathManager
variable (lossPenalty : F → UInt32) (stats : Nat → TransportStats F)
  (manager : MultipathManager F μ)

/-- Evaluation rewrites statistics and scores and leaves the transports alone. -/
theorem evaluatePaths_transports :
    (manager.evaluatePaths lossPenalty stats).paths.map PathInfo.transport =
      manager.paths.map PathInfo.transport := by
  unfold evaluatePaths
  split
  · rfl
  · apply List.ext_getElem
    · simp
    · intro i _ _
      simp [PathInfo.refresh]

theorem evaluatePaths_active (some_path : manager.paths ≠ []) :
    (manager.evaluatePaths lossPenalty stats).activePathIdx < manager.paths.length := by
  have length : (manager.paths.mapIdx fun i path =>
      path.refresh lossPenalty (stats i)).length = manager.paths.length := List.length_mapIdx
  have positive := List.length_pos_iff.mpr some_path
  simp only [evaluatePaths, List.isEmpty_iff, some_path, if_false]
  have inside := best_lt (manager.paths.mapIdx fun i path => path.refresh lossPenalty (stats i))
    0 0xFFFFFFFF 0 (by omega)
  omega

theorem addPath_transports [Zero F] (path : Transport μ) (isWifi : Bool) :
    (manager.addPath lossPenalty stats path isWifi).paths.map PathInfo.transport =
      manager.paths.map PathInfo.transport ++ [path] := by
  rw [addPath, evaluatePaths_transports, List.map_append]
  rfl

theorem addPath_active [Zero F] (path : Transport μ) (isWifi : Bool) :
    (manager.addPath lossPenalty stats path isWifi).activePathIdx < manager.paths.length + 1 := by
  unfold addPath
  refine (evaluatePaths_active lossPenalty stats _ ?_).trans_le ?_
  · simp
  · simp

end MultipathManager

/-- The places of `receive`: the fallback loop stands at an index that is not
the active one, with every earlier index and the active one refused. -/
def State.Stands (s : State F μ) : Prop :=
  match s.place with
  | .idle => True
  | .active => s.transports ≠ []
  | .fallback _ i refused => i < s.transports.length ∧ i ≠ s.manager.activePathIdx ∧
      ∀ j, j = s.manager.activePathIdx ∨ j < i → j ∈ refused

structure Inv (s : State F μ) : Prop where
  active : s.transports ≠ [] → s.manager.activePathIdx < s.transports.length
  stands : s.Stands
  taken : ∀ i, s.takenFrom i = s.messagesFrom i
  queued : ∀ (i : Nat) (transport : Transport μ), s.transports[i]? = some transport →
    transport.arrived = transport.taken ++ transport.queue

/-- What a step does to the histories: nothing, or it consumes the front message
of one path and returns it, or a call fails after every path has. -/
inductive Accounts (s t : State F μ) : Prop where
  | quiet (returned : t.returned = s.returned) (taken : ∀ i, t.takenFrom i = s.takenFrom i)
  | delivered (i : Nat) (message : μ) (rest : List μ)
      (front : s.transports[i]?.map Transport.queue = some (message :: rest))
      (left : t.transports[i]?.map Transport.queue = some rest)
      (returned : t.returned = s.returned ++ [.message i message])
      (taken : t.takenFrom i = s.takenFrom i ++ [message])
      (others : ∀ j, j ≠ i → t.transports[j]? = s.transports[j]?)
  | failed (error : Error) (refused : List Nat) (same : t.manager = s.manager)
      (returned : t.returned = s.returned ++ [.failed error refused])
      (all : ∀ i < s.manager.paths.length, i ∈ refused)

variable {s t : State F μ}

theorem Transport.receive_eq {transport after : Transport μ} {message : μ}
    (received : transport.receive = some (message, after)) :
    transport.queue = message :: after.queue ∧ after.taken = transport.taken ++ [message] ∧
      after.arrived = transport.arrived := by
  unfold receive at received
  split at received
  · contradiction
  · rename_i front
    simp only [Option.some.injEq, Prod.mk.injEq] at received
    obtain ⟨rfl, rfl⟩ := received
    exact ⟨front, rfl, rfl⟩

theorem Inv.quiet (inv : Inv s) (returned : t.returned = s.returned)
    (taken : ∀ i, t.takenFrom i = s.takenFrom i) (i : Nat) : t.takenFrom i = t.messagesFrom i := by
  rw [taken, inv.taken]
  simp only [State.messagesFrom, returned]

theorem giveUp_inv (inv : Inv s) (error : Error) (refused : List Nat) :
    Inv (s.giveUp error refused) := by
  refine ⟨inv.active, trivial, ?_, inv.queued⟩
  intro i
  have before := inv.taken i
  simpa [State.giveUp, State.messagesFrom, State.takenFrom, State.transports] using before

theorem resume_spec (inv : Inv s) (error : Error) (i : Nat) (refused : List Nat)
    (before : ∀ j, j = s.manager.activePathIdx ∨ j < i → j ∈ refused) :
    Inv (s.resume error i refused) ∧ Accounts s (s.resume error i refused) := by
  have skipped : ∀ j, j = s.manager.activePathIdx ∨
      j < (if i = s.manager.activePathIdx then i + 1 else i) → j ∈ refused := by
    intro j earlier
    apply before
    split at earlier <;> omega
  have elsewhere : (if i = s.manager.activePathIdx then i + 1 else i) ≠
      s.manager.activePathIdx := by
    split <;> omega
  have length : s.transports.length = s.manager.paths.length := List.length_map _
  unfold State.resume
  simp only
  by_cases more : (if i = s.manager.activePathIdx then i + 1 else i) < s.manager.paths.length
  · rw [if_pos more]
    refine ⟨⟨inv.active, ⟨length ▸ more, elsewhere, skipped⟩, inv.taken, inv.queued⟩, ?_⟩
    exact .quiet rfl fun _ => rfl
  · rw [if_neg more]
    refine ⟨giveUp_inv inv error refused, .failed error refused rfl rfl ?_⟩
    intro j inside
    exact skipped j (.inr (by omega))

theorem transport_at {path : PathInfo F μ} {i : Nat} (found : s.manager.paths[i]? = some path) :
    s.transports[i]? = some path.transport := by
  rw [State.transports, List.getElem?_map, found, Option.map_some]

theorem State.Stands.of_idle (idle : s.place = .idle) : s.Stands := by
  unfold State.Stands
  rw [idle]
  trivial

theorem takenFrom_set {after : Transport μ} (inside : i < s.transports.length)
    (replaced : t.transports = s.transports.set i after) (j : Nat) :
    t.takenFrom j = if j = i then after.taken else s.takenFrom j := by
  unfold State.takenFrom
  rw [replaced]
  split
  case isTrue same =>
    subst same
    rw [List.getElem?_set_self inside]
    rfl
  case isFalse other => rw [List.getElem?_set_ne (Ne.symm other)]

theorem queued_set {after : Transport μ}
    (queued : ∀ (j : Nat) (transport : Transport μ), s.transports[j]? = some transport →
      transport.arrived = transport.taken ++ transport.queue)
    (replaced : t.transports = s.transports.set i after)
    (kept : after.arrived = after.taken ++ after.queue) (j : Nat) (transport : Transport μ)
    (found : t.transports[j]? = some transport) :
    transport.arrived = transport.taken ++ transport.queue := by
  rw [replaced] at found
  rcases List.mem_or_eq_of_mem_set (List.mem_of_getElem? found) with member | rfl
  · obtain ⟨k, found⟩ := List.mem_iff_getElem?.mp member
    exact queued k transport found
  · exact kept

theorem deliver_spec (inv : Inv s) (delivered : s.deliver i = some t) : Inv t ∧ Accounts s t := by
  obtain ⟨path, found, delivered⟩ := Option.bind_eq_some_iff.mp delivered
  obtain ⟨⟨message, after⟩, received, outcome⟩ := Option.map_eq_some_iff.mp delivered
  obtain ⟨front, taken, arrived⟩ := Transport.receive_eq received
  have here := transport_at found
  have inside := (List.getElem?_eq_some_iff.mp here).1
  have before := inv.queued i path.transport here
  have mine : s.takenFrom i = path.transport.taken := by
    rw [State.takenFrom, here]
    rfl
  have replaced : t.transports = s.transports.set i after := by
    subst outcome
    exact List.map_set
  have returned : t.returned = s.returned ++ [.message i message] := by rw [← outcome]
  have consumed := takenFrom_set inside replaced
  have length : t.transports.length = s.transports.length := by rw [replaced, List.length_set]
  constructor
  case left =>
    constructor
    case active =>
      intro some_path
      rw [length, ← outcome]
      exact inv.active (List.ne_nil_of_length_pos (Nat.zero_lt_of_lt inside))
    case stands => exact .of_idle (by rw [← outcome])
    case taken =>
      intro j
      have earlier := inv.taken j
      rw [consumed]
      simp only [State.messagesFrom, returned, List.filterMap_append] at earlier ⊢
      rw [← earlier]
      split
      case isTrue same =>
        subst same
        simp [taken, mine]
      case isFalse other => simp [Ne.symm other]
    case queued =>
      apply queued_set inv.queued replaced
      rw [arrived, before, front, taken, List.append_assoc, List.singleton_append]
  case right =>
    apply Accounts.delivered i message after.queue
    case front => rw [here, Option.map_some, front]
    case left => rw [replaced, List.getElem?_set_self inside, Option.map_some]
    case returned => exact returned
    case taken => rw [consumed, if_pos rfl, taken, mine]
    case others =>
      intro j other
      rw [replaced, List.getElem?_set_ne (Ne.symm other)]

theorem poll_spec (inv : Inv s) (polled : s.poll refusal = some t) : Inv t ∧ Accounts s t := by
  have stands := inv.stands
  unfold State.poll at polled
  unfold State.Stands at stands
  split at polled
  · contradiction
  · exact deliver_spec inv polled
  · cases Option.some.inj polled
    apply resume_spec inv
    intro j earlier
    simpa using earlier
  · exact deliver_spec inv polled
  · rename_i error i refused _ place
    rw [place] at stands
    cases Option.some.inj polled
    apply resume_spec inv
    intro j earlier
    have known := stands.2.2 j
    rw [List.mem_append, List.mem_singleton]
    by_cases last : j = i
    · exact .inr last
    · exact .inl (known (by omega))

theorem addPath_spec [Zero F] (lossPenalty : F → UInt32) (inv : Inv s) (idle : s.place = .idle)
    (queued : List μ) (isWifi : Bool) (stats : Nat → TransportStats F) :
    let path : Transport μ := { queue := queued, arrived := queued, taken := [] }
    let added := { s with manager := s.manager.addPath lossPenalty stats path isWifi }
    Inv added ∧ Accounts s added := by
  intro path added
  have grown : added.transports = s.transports ++ [path] :=
    MultipathManager.addPath_transports lossPenalty stats s.manager path isWifi
  have taken (i : Nat) : added.takenFrom i = s.takenFrom i := by
    simp only [State.takenFrom, grown, List.getElem?_append, List.getElem?_singleton]
    split
    case isTrue => rfl
    case isFalse outside =>
      rw [List.getElem?_eq_none (Nat.le_of_not_lt outside)]
      split <;> rfl
  refine ⟨⟨?_, .of_idle idle, inv.quiet rfl taken, ?_⟩, .quiet rfl taken⟩
  · intro _
    have inside := MultipathManager.addPath_active lossPenalty stats s.manager path isWifi
    rwa [grown, List.length_append, List.length_singleton, State.transports, List.length_map]
  · intro i transport found
    rw [grown] at found
    rcases List.mem_append.mp (List.mem_of_getElem? found) with member | member
    · obtain ⟨j, found⟩ := List.mem_iff_getElem?.mp member
      exact inv.queued j transport found
    · obtain rfl := List.mem_singleton.mp member
      rfl

theorem evaluatePaths_spec (lossPenalty : F → UInt32) (inv : Inv s) (idle : s.place = .idle)
    (stats : Nat → TransportStats F) :
    let evaluated := { s with manager := s.manager.evaluatePaths lossPenalty stats }
    Inv evaluated ∧ Accounts s evaluated := by
  intro evaluated
  have same : evaluated.transports = s.transports :=
    MultipathManager.evaluatePaths_transports lossPenalty stats s.manager
  have taken (i : Nat) : evaluated.takenFrom i = s.takenFrom i := by
    rw [State.takenFrom, same, State.takenFrom]
  refine ⟨⟨?_, .of_idle idle, inv.quiet rfl taken, same ▸ inv.queued⟩, .quiet rfl taken⟩
  rw [same]
  intro some_path
  have paths : s.manager.paths ≠ [] := by simpa [State.transports] using some_path
  rw [State.transports, List.length_map]
  exact MultipathManager.evaluatePaths_active lossPenalty stats s.manager paths

/-- An arrival changes the queue of its path and nothing `receive` relies on. -/
theorem arrive_spec (inv : Inv s) {path : PathInfo F μ} (found : s.manager.paths[i]? = some path)
    (message : μ) :
    let arrived := { s with
      manager :=
        { s.manager with
          paths := s.manager.paths.set i
            { path with transport := path.transport.arrive message } } }
    Inv arrived ∧ Accounts s arrived := by
  intro arrived
  have here := transport_at found
  have inside := (List.getElem?_eq_some_iff.mp here).1
  have replaced : arrived.transports = s.transports.set i (path.transport.arrive message) :=
    List.map_set
  have length : arrived.transports.length = s.transports.length := by rw [replaced, List.length_set]
  have taken (j : Nat) : arrived.takenFrom j = s.takenFrom j := by
    rw [takenFrom_set inside replaced]
    split
    case isTrue same =>
      rw [same, State.takenFrom, here]
      rfl
    case isFalse => rfl
  have some_path : s.transports ≠ [] := List.ne_nil_of_length_pos (by omega)
  have kept : (path.transport.arrive message).arrived =
      (path.transport.arrive message).taken ++ (path.transport.arrive message).queue := by
    simp only [Transport.arrive, inv.queued i path.transport here, List.append_assoc]
  have still : arrived.transports ≠ [] := List.ne_nil_of_length_pos (by omega)
  refine ⟨⟨?_, ?_, inv.quiet rfl taken, queued_set inv.queued replaced kept⟩, .quiet rfl taken⟩
  · intro _
    rw [length]
    exact inv.active some_path
  · have stands := inv.stands
    have same : arrived.place = s.place := rfl
    unfold State.Stands at stands ⊢
    rw [same, length]
    cases place : s.place with
    | idle => trivial
    | active => exact still
    | fallback error k refused =>
      rw [place] at stands
      exact stands

theorem receive_spec (inv : Inv s)
    (received : (if s.manager.paths.isEmpty then some (s.giveUp noPaths [])
      else some { s with place := .active }) = some t) : Inv t ∧ Accounts s t := by
  split at received
  case isTrue empty =>
    cases Option.some.inj received
    refine ⟨giveUp_inv inv noPaths [], .failed noPaths [] rfl rfl ?_⟩
    intro i inside
    rw [List.isEmpty_iff.mp empty] at inside
    contradiction
  case isFalse some_path =>
    cases Option.some.inj received
    refine ⟨⟨inv.active, ?_, inv.taken, inv.queued⟩, .quiet rfl fun _ => rfl⟩
    simpa [State.Stands, State.transports, List.isEmpty_iff] using some_path

/-- A poll that its path does not refuse returns the front message and ends the call. -/
theorem poll_returns_front {message : μ} {rest : List μ} (polled : s.polled = some i)
    (front : s.transports[i]?.map Transport.queue = some (message :: rest)) :
    ∃ t, s.poll none = some t ∧ t.place = .idle ∧
      t.returned = s.returned ++ [.message i message] := by
  obtain ⟨transport, here, queued⟩ := Option.map_eq_some_iff.mp front
  rw [State.transports, List.getElem?_map] at here
  obtain ⟨path, found, rfl⟩ := Option.map_eq_some_iff.mp here
  have received : path.transport.receive = some (message,
      { path.transport with queue := rest, taken := path.transport.taken ++ [message] }) := by
    unfold Transport.receive
    rw [queued]
  have delivered : s.poll none = s.deliver i := by
    unfold State.polled at polled
    unfold State.poll
    cases place : s.place with
    | idle =>
      rw [place] at polled
      contradiction
    | active =>
      rw [place] at polled
      rw [← Option.some.inj polled]
    | fallback error k refused =>
      rw [place] at polled
      rw [← Option.some.inj polled]
  rw [delivered, State.deliver, found, Option.bind_some, received, Option.map_some]
  exact ⟨_, rfl, rfl, rfl⟩

/-- Every step keeps the invariant and accounts for what it consumes. -/
theorem step_spec [Zero F] (lossPenalty : F → UInt32) (inv : Inv s)
    (stepped : s.step lossPenalty e = some t) : Inv t ∧ Accounts s t := by
  cases e with
  | addPath queued isWifi stats =>
    simp only [State.step] at stepped
    split at stepped
    · cases Option.some.inj stepped
      exact addPath_spec lossPenalty inv ‹_› queued isWifi stats
    · contradiction
  | evaluatePaths stats =>
    simp only [State.step] at stepped
    split at stepped
    · cases Option.some.inj stepped
      exact evaluatePaths_spec lossPenalty inv ‹_› stats
    · contradiction
  | arrive i message =>
    obtain ⟨path, found, rfl⟩ := Option.map_eq_some_iff.mp stepped
    exact arrive_spec inv found message
  | receive =>
    simp only [State.step] at stepped
    split at stepped
    · exact receive_spec inv stepped
    · contradiction
  | poll refusal => exact poll_spec inv stepped

theorem start_inv : Inv (State.start : State F μ) := by
  refine ⟨fun some_path => absurd rfl some_path, trivial, fun _ => rfl, ?_⟩
  intro i transport found
  simp [State.start, State.transports] at found

end UltraDisplay.Multipath
