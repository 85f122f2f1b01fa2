import UltraDisplay.Library.Ledger
import Mathlib.Data.List.ReduceOption

/-! `drm_init` and `drm_cleanup` of client/compositor/drm_display.c, with what they get
from the kernel and give back. -/
namespace UltraDisplay.DrmDisplay
open Ledger
variable {μ : Type}

/-- An object from a loop is told apart by the index of the loop. -/
inductive Resource where
  | fd
  | resources
  | connector (index : Nat)
  | encoder (index : Nat)
  | planeResources
  | plane (index : Nat)
  deriving DecidableEq

structure Connector (μ : Type) where
  connectorId : UInt32
  encoderId : UInt32
  connected : Bool
  modes : List μ

structure Encoder where
  encoderId : UInt32
  crtcId : UInt32

structure Plane where
  planeId : UInt32

/-- What the libdrm calls answer for each identifier in turn. -/
structure Resources (μ : Type) where
  connectors : List (Option (Connector μ))
  encoders : List (Option Encoder)
  crtcs : List UInt32

/-- What the calls on the device answer. -/
structure Card (μ : Type) where
  fd : Option Nat
  atomic : Bool
  resources : Option (Resources μ)
  planes : Option (List (Option Plane))

structure DrmContext (μ : Type) where
  fd : Int := 0
  crtcId : UInt32 := 0
  connectorId : UInt32 := 0
  primaryPlaneId : UInt32 := 0
  mode : Option μ := none

def Connector.usable (conn : Connector μ) : Bool := conn.connected && !conn.modes.isEmpty

/-- The loop over the connectors, from an index on: the connector that it breaks at. -/
def findConnector (index : Nat) :
    List (Option (Connector μ)) → List (Entry Resource) × Option (Nat × Connector μ)
  | [] => ([.use .resources], none)
  | none :: rest =>
    let (trace, found) := findConnector (index + 1) rest
    ([.use .resources, .use .fd] ++ trace, found)
  | some conn :: rest =>
    let get := [.use .resources, .use .fd, .acquire (.connector index), .use (.connector index)]
    if conn.usable then (get, some (index, conn))
    else
      let (trace, found) := findConnector (index + 1) rest
      (get ++ .release (.connector index) :: trace, found)

/-- The loop over the encoders: `crtc_id` of the first that the connector names. -/
def findCrtc (conn : Nat × UInt32) (index : Nat) :
    List (Option Encoder) → List (Entry Resource) × UInt32
  | [] => ([.use .resources], 0)
  | none :: rest =>
    let (trace, crtcId) := findCrtc conn (index + 1) rest
    ([.use .resources, .use .fd] ++ trace, crtcId)
  | some enc :: rest =>
    let get := [.use .resources, .use .fd, .acquire (.encoder index), .use (.encoder index),
      .use (.connector conn.1), .release (.encoder index)]
    if enc.encoderId = conn.2 then (get, enc.crtcId)
    else
      let (trace, crtcId) := findCrtc conn (index + 1) rest
      (get ++ trace, crtcId)

def findPlane (primaryPlaneId : UInt32) (index : Nat) :
    List (Option Plane) → List (Entry Resource) × UInt32
  | [] => ([.use .planeResources], primaryPlaneId)
  | none :: rest =>
    let (trace, planeId) := findPlane primaryPlaneId (index + 1) rest
    ([.use .planeResources, .use .fd] ++ trace, planeId)
  | some plane :: rest =>
    let primaryPlaneId := if primaryPlaneId = 0 then plane.planeId else primaryPlaneId
    let (trace, planeId) := findPlane primaryPlaneId (index + 1) rest
    ([.use .planeResources, .use .fd, .acquire (.plane index), .use (.plane index),
      .release (.plane index)] ++ trace, planeId)

def takePlanes (planes : Option (List (Option Plane))) : List (Entry Resource) × UInt32 :=
  match planes with
  | none => ([.use .fd], 0)
  | some planes =>
    let (trace, planeId) := findPlane 0 0 planes
    (.use .fd :: .acquire .planeResources :: (trace ++ [.release .planeResources]), planeId)

/-- What is done with the connector that was found: the context and the calls. -/
def driveConnector (card : Card μ) (fd : Nat) (res : Resources μ) (index : Nat)
    (conn : Connector μ) : DrmContext μ × List (Entry Resource) :=
  let (encoders, bound) := findCrtc (index, conn.encoderId) 0 res.encoders
  let (fallback, crtcId) := if bound = 0 then ([.use .resources], res.crtcs.headD 0) else ([], bound)
  let (planes, primaryPlaneId) := takePlanes card.planes
  ({ fd, crtcId, connectorId := conn.connectorId, primaryPlaneId, mode := conn.modes.head? },
    encoders ++ fallback ++ planes ++ [.release (.connector index), .release .resources])

def drmInit (card : Card μ) : DrmContext μ × List (Entry Resource) × Bool :=
  match card.fd with
  | none => ({ fd := -1 }, [], false)
  | some fd =>
    let opened : List (Entry Resource) := [.acquire .fd, .use .fd]
    if !card.atomic then ({ fd }, opened ++ [.release .fd], false)
    else
      match card.resources with
      | none => ({ fd }, opened ++ [.use .fd, .release .fd], false)
      | some res =>
        let got := opened ++ [.use .fd, .acquire .resources]
        match findConnector 0 res.connectors with
        | (connectors, none) => ({ fd }, got ++ connectors ++ [.release .resources], false)
        | (connectors, some (index, conn)) =>
          let (ctx, driven) := driveConnector card fd res index conn
          (ctx, got ++ connectors ++ driven, true)

/-- The file descriptor is closed if it is not negative. -/
def drmCleanup (ctx : DrmContext μ) : List (Entry Resource) :=
  if 0 ≤ ctx.fd then [.release .fd] else []

inductive Outcome where
  | unopened
  | refused
  | noDisplay
  | ready
  deriving DecidableEq

def Card.outcome (card : Card μ) : Outcome :=
  match card.fd, card.atomic, card.resources with
  | none, _, _ => .unopened
  | some _, true, some res =>
    if res.connectors.reduceOption.any Connector.usable then .ready else .noDisplay
  | some _, _, _ => .refused

/-- What is held inside of the loops. -/
def both : Finset Resource := {.fd, .resources}

theorem findConnector_leaves (connectors : List (Option (Connector μ))) (index : Nat) :
    Leaves both (findConnector index connectors).1
      (match (findConnector index connectors).2 with
        | none => both
        | some (found, _) => insert (.connector found) both) := by
  have fd : Resource.fd ∈ both := by simp [both]
  have owned : Resource.resources ∈ both := by simp [both]
  induction connectors generalizing index with
  | nil => exact .use owned .nil
  | cons answer rest ih =>
    cases answer with
    | none => exact .use owned (.use fd (ih (index + 1)))
    | some conn =>
      have free : Resource.connector index ∉ both := by simp [both]
      have got : Leaves both [.use .resources, .use .fd, .acquire (.connector index),
          .use (.connector index)] (insert (.connector index) both) :=
        .use owned (.use fd (.acquire free (.use (Finset.mem_insert_self ..) .nil)))
      unfold findConnector
      split
      case isTrue => exact got
      case isFalse =>
        refine got.append (.release (Finset.mem_insert_self ..) ?_)
        rw [Finset.erase_insert free]
        exact ih (index + 1)

/-- The loop breaks at the first connector with a display. -/
theorem findConnector_found (connectors : List (Option (Connector μ))) (index : Nat) :
    (findConnector index connectors).2.map Prod.snd =
      connectors.reduceOption.find? Connector.usable := by
  induction connectors generalizing index with
  | nil => rfl
  | cons answer rest ih =>
    cases answer with
    | none => exact ih (index + 1)
    | some conn =>
      unfold findConnector
      rw [List.reduceOption_cons_of_some]
      split
      case isTrue usable => rw [List.find?_cons_of_pos usable]; rfl
      case isFalse unusable => rw [List.find?_cons_of_neg unusable]; exact ih (index + 1)

theorem findCrtc_leaves {held : Finset Resource} (conn : Nat × UInt32) (fd : .fd ∈ held)
    (resources : .resources ∈ held) (connector : .connector conn.1 ∈ held)
    (free : ∀ index, .encoder index ∉ held) (encoders : List (Option Encoder)) (index : Nat) :
    Leaves held (findCrtc conn index encoders).1 held := by
  induction encoders generalizing index with
  | nil => exact .use resources .nil
  | cons answer rest ih =>
    cases answer with
    | none => exact .use resources (.use fd (ih (index + 1)))
    | some enc =>
      have got : Leaves held [.use .resources, .use .fd, .acquire (.encoder index),
          .use (.encoder index), .use (.connector conn.1), .release (.encoder index)] held :=
        .use resources (.use fd (Leaves.bracket (free index)
          (.use (Finset.mem_insert_self ..) (.use (Finset.mem_insert_of_mem connector) .nil))))
      unfold findCrtc
      split
      case isTrue => exact got
      case isFalse => exact got.append (ih (index + 1))

theorem findCrtc_found (conn : Nat × UInt32) (encoders : List (Option Encoder)) (index : Nat) :
    (findCrtc conn index encoders).2 =
      ((encoders.reduceOption.find? fun enc => enc.encoderId = conn.2).map
        Encoder.crtcId).getD 0 := by
  induction encoders generalizing index with
  | nil => rfl
  | cons answer rest ih =>
    cases answer with
    | none => exact ih (index + 1)
    | some enc =>
      unfold findCrtc
      rw [List.reduceOption_cons_of_some]
      split
      case isTrue same => rw [List.find?_cons_of_pos (by simpa using same)]; rfl
      case isFalse other => rw [List.find?_cons_of_neg (by simpa using other)]; exact ih (index + 1)

theorem findPlane_leaves {held : Finset Resource} (fd : .fd ∈ held)
    (resources : .planeResources ∈ held) (free : ∀ index, .plane index ∉ held)
    (planes : List (Option Plane)) (primaryPlaneId : UInt32) (index : Nat) :
    Leaves held (findPlane primaryPlaneId index planes).1 held := by
  induction planes generalizing primaryPlaneId index with
  | nil => exact .use resources .nil
  | cons answer rest ih =>
    cases answer with
    | none => exact .use resources (.use fd (ih primaryPlaneId (index + 1)))
    | some plane =>
      have got : Leaves held [.use .planeResources, .use .fd, .acquire (.plane index),
          .use (.plane index), .release (.plane index)] held :=
        .use resources (.use fd (Leaves.bracket (free index)
          (.use (Finset.mem_insert_self ..) .nil)))
      exact got.append (ih _ (index + 1))

theorem findPlane_found (planes : List (Option Plane)) (primaryPlaneId : UInt32) (index : Nat) :
    (findPlane primaryPlaneId index planes).2 =
      if primaryPlaneId = 0 then
        ((planes.reduceOption.map Plane.planeId).find? fun planeId => planeId ≠ 0).getD 0
      else primaryPlaneId := by
  induction planes generalizing primaryPlaneId index with
  | nil =>
    simp only [findPlane, List.reduceOption_nil, List.map_nil, List.find?_nil, Option.getD_none]
    split
    case isTrue zero => exact zero
    case isFalse => rfl
  | cons answer rest ih =>
    cases answer with
    | none => exact ih primaryPlaneId (index + 1)
    | some plane =>
      refine (ih _ (index + 1)).trans ?_
      rw [List.reduceOption_cons_of_some, List.map_cons]
      by_cases taken : primaryPlaneId = 0
      · by_cases zero : plane.planeId = 0
        · rw [if_pos taken, if_pos taken, if_pos zero, List.find?_cons_of_neg (by simpa using zero)]
        · rw [if_pos taken, if_pos taken, if_neg zero, List.find?_cons_of_pos (by simpa using zero)]
          rfl
      · rw [if_neg taken, if_neg taken, if_neg taken]

theorem takePlanes_leaves {held : Finset Resource} (fd : .fd ∈ held)
    (free : .planeResources ∉ held) (fresh : ∀ index, .plane index ∉ held) (planes : Option (List (Option Plane))) :
    Leaves held (takePlanes planes).1 held := by
  cases planes with
  | none => exact .use fd .nil
  | some planes =>
    refine .use fd (Leaves.bracket free ?_)
    exact findPlane_leaves (Finset.mem_insert_of_mem fd) (Finset.mem_insert_self ..)
      (fun index => by simp [fresh index]) planes 0 0

/-- The CRTC that the encoder of the connector drives, or else the first one. -/
def Resources.crtcFor (res : Resources μ) (conn : Connector μ) : UInt32 :=
  let bound := ((res.encoders.reduceOption.find? fun enc => enc.encoderId = conn.encoderId).map
    Encoder.crtcId).getD 0
  if bound = 0 then res.crtcs.headD 0 else bound

/-- The first plane that has an identifier. -/
def Card.primaryPlane (card : Card μ) : UInt32 :=
  (((card.planes.getD []).reduceOption.map Plane.planeId).find? fun planeId => planeId ≠ 0).getD 0

/-- The first connector with a display, at its first mode. -/
def Drives (card : Card μ) (ctx : DrmContext μ) : Prop :=
  ∃ res conn, card.resources = some res ∧
    res.connectors.reduceOption.find? Connector.usable = some conn ∧
    ctx.connectorId = conn.connectorId ∧ ctx.mode = conn.modes.head? ∧
    ctx.crtcId = res.crtcFor conn ∧ ctx.primaryPlaneId = card.primaryPlane

theorem takePlanes_found (card : Card μ) : (takePlanes card.planes).2 = card.primaryPlane := by
  unfold takePlanes Card.primaryPlane
  cases card.planes with
  | none => rfl
  | some planes => exact (findPlane_found planes 0 0).trans (if_pos rfl)

section Driving
variable (card : Card μ) (fd : Nat) (res : Resources μ) (index : Nat) (conn : Connector μ)

theorem driveConnector_leaves :
    Leaves (insert (.connector index) both) (driveConnector card fd res index conn).2 {.fd} := by
  have opened : Resource.fd ∈ insert (.connector index) both := by simp [both]
  have owned : Resource.resources ∈ insert (.connector index) both := by simp [both]
  have encoders := findCrtc_leaves (index, conn.encoderId) opened owned (Finset.mem_insert_self ..)
    (by simp [both]) res.encoders 0
  have fallback (bound : UInt32) : Leaves (insert (.connector index) both)
      (if bound = 0 then ([Entry.use Resource.resources], res.crtcs.headD 0) else ([], bound)).1
      (insert (.connector index) both) := by
    split
    case isTrue => exact .use owned .nil
    case isFalse => exact .nil
  have planes := takePlanes_leaves opened (by simp [both]) (by simp [both]) card.planes
  have given : Leaves (insert (.connector index) both)
      [.release (.connector index), .release .resources] {.fd} := by
    refine .release (Finset.mem_insert_self ..) ?_
    rw [Finset.erase_insert (by simp [both])]
    exact .release (by decide) .nil
  exact ((encoders.append (fallback _)).append planes).append given

theorem driveConnector_crtc :
    (driveConnector card fd res index conn).1.crtcId = res.crtcFor conn := by
  have bound := findCrtc_found (index, conn.encoderId) res.encoders 0
  simp only [driveConnector, Resources.crtcFor, ← bound]
  split <;> rfl

end Driving

inductive Inits (card : Card μ) :
    Outcome → DrmContext μ × List (Entry Resource) × Bool → Prop where
  | unopened : Inits card .unopened ({ fd := -1 }, [], false)
  | refused (fd : Nat) {trace : List (Entry Resource)} (closed : Leaves ∅ trace ∅) :
      Inits card .refused ({ fd }, trace, false)
  | noDisplay (fd : Nat) {trace : List (Entry Resource)} (left : Leaves ∅ trace {.fd}) :
      Inits card .noDisplay ({ fd }, trace, false)
  | ready (fd : Nat) {ctx : DrmContext μ} {trace : List (Entry Resource)} (opened : ctx.fd = fd)
      (left : Leaves ∅ trace {.fd}) (drives : Drives card ctx) : Inits card .ready (ctx, trace, true)

theorem drmInit_inits (card : Card μ) : Inits card card.outcome (drmInit card) := by
  unfold Card.outcome drmInit
  cases opened : card.fd with
  | none => exact .unopened
  | some fd =>
    cases atomic : card.atomic with
    | false => exact .refused fd rfl
    | true =>
      cases resources : card.resources with
      | none => exact .refused fd rfl
      | some res =>
        have got : Leaves ∅ ([.acquire .fd, .use .fd] ++ [.use .fd, .acquire .resources]) both := by
          decide
        have connectors := findConnector_leaves res.connectors 0
        have found := findConnector_found res.connectors 0
        rcases searched : findConnector 0 res.connectors with ⟨trace, none | ⟨index, conn⟩⟩
        case none =>
          rw [searched] at connectors found
          have no : res.connectors.reduceOption.any Connector.usable = false := by
            simpa using List.find?_eq_none.mp found.symm
          have owned : Resource.resources ∈ both := by simp [both]
          simp only [searched, no]
          exact .noDisplay fd ((got.append connectors).append (.release owned .nil))
        case some =>
          rw [searched] at connectors found
          have one : res.connectors.reduceOption.any Connector.usable = true := by
            rw [List.any_eq_true, ← List.find?_isSome, ← found]
            rfl
          have driven := driveConnector_leaves card fd res index conn
          simp only [searched, one]
          exact .ready fd rfl ((got.append connectors).append driven)
            ⟨res, conn, resources, found.symm, rfl, rfl,
              driveConnector_crtc card fd res index conn, takePlanes_found card⟩

/-- For whatever the kernel answers. The call succeeds when there is a display to drive, and
then drives the first one. With a cleanup after every success and none after a failure,
everything is given back except when no display is found; with a cleanup after every call,
except when the device refuses, whose descriptor is then closed twice. -/
theorem drmInit_accounts (card : Card μ) :
    let (ctx, trace, ready) := drmInit card
    (ready = true ↔ card.outcome = .ready) ∧ (ready = true → Drives card ctx) ∧
      (Leaves ∅ (trace ++ if ready then drmCleanup ctx else []) ∅ ↔ card.outcome ≠ .noDisplay) ∧
      (Leaves ∅ (trace ++ drmCleanup ctx) ∅ ↔ card.outcome ≠ .refused) := by
  have inits := drmInit_inits card
  have close : Leaves {Resource.fd} [.release .fd] ∅ := rfl
  have closed : ¬ Leaves ∅ [Entry.release Resource.fd] ∅ := by decide
  generalize card.outcome = outcome at inits
  generalize drmInit card = init at inits
  cases inits with
  | unopened => simp [drmCleanup]
  | refused fd left => simp [drmCleanup, left.append_iff, left, closed]
  | noDisplay fd left =>
    have lost : ¬ Leaves ∅ _ ∅ := fun given => Finset.singleton_ne_empty _ (left.unique given)
    simp [drmCleanup, left.append_iff, close, lost]
  | ready fd opened left drives => simp [drmCleanup, opened, left.append_iff, close, drives]

end UltraDisplay.DrmDisplay
