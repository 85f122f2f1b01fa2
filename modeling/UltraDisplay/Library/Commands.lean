import UltraDisplay.Library.Transition
import Mathlib.Data.List.Range

/-! A device that is told commands, which it may refuse, and works in between. -/
namespace Commands
open Transition
variable {S C A W P R N : Type*}

inductive Event (C A W : Type*) where
  | tell (command : C) (answer : A)
  | work (item : W)

/-- `tell` says whether the command is reported as taken, `work` what it yields. What the
device may not be asked to do has no answer. -/
structure Device (S C A W P R : Type*) where
  tell : S → C → A → Option (S × Bool)
  work : S → W → Option (S × List P)
  running : S → Option R

/-- A device with what the last command reported as taken asks for. -/
structure Session (S R : Type*) where
  device : S
  asked : Option R := none

namespace Device
variable (device : Device S C A W P R)

def step (meaning : C → R) (session : Session S R) : Event C A W → Option (Session S R)
  | .tell command answer =>
    match device.tell session.device command answer with
    | none => none
    | some (next, taken) => some ⟨next, if taken then some (meaning command) else session.asked⟩
  | .work item =>
    match device.work session.device item with
    | none => none
    | some (next, _) => some { session with device := next }

def Follows (session : Session S R) : Prop := device.running session.device = session.asked

/-- A condition on the commands alone. -/
def Told (condition : S → C → A → Prop) (session : Session S R) : Event C A W → Prop
  | .tell command answer => condition session.device command answer
  | .work _ => True

def yields (state : S) : List (Event C A W) → List P
  | [] => []
  | .tell command answer :: events =>
    match device.tell state command answer with
    | none => []
    | some (next, _) => yields next events
  | .work item :: events =>
    match device.work state item with
    | none => []
    | some (next, products) => products ++ yields next events

variable {device} {meaning : C → R} {I : S → Prop} {state : S}

/-- A device follows its commands exactly as long as each of them that is taken is run from
then on and each that is refused leaves what was run, if its work does not touch that. -/
theorem follows_iff {condition : S → C → A → Prop}
    (told : ∀ s c a next taken, I s → device.tell s c a = some (next, taken) → I next ∧
      (device.running next = (if taken then some (meaning c) else device.running s) ↔
        condition s c a))
    (worked : ∀ s w next products, I s → device.work s w = some (next, products) → I next ∧
      device.running next = device.running s)
    (here : I state) (idle : device.running state = none) (events : List (Event C A W)) :
    Throughout (device.step meaning) device.Follows ⟨state, none⟩ events ↔
      Guarded (device.step meaning) (Told condition) ⟨state, none⟩ events := by
  have tells (session next : Session S R) (command : C) (answer : A) (here : I session.device)
      (follows : device.Follows session)
      (stepped : device.step meaning session (.tell command answer) = some next) :
      I next.device ∧ (device.Follows next ↔ condition session.device command answer) := by
    simp only [step] at stepped
    split at stepped
    case h_1 => cases stepped
    case h_2 after taken moved =>
      cases Option.some.inj stepped
      obtain ⟨kept, exact⟩ := told _ _ _ _ _ here moved
      unfold Follows at follows ⊢
      rw [follows] at exact
      exact ⟨kept, exact⟩
  refine throughout_iff_guarded (I := fun session => I session.device ∧ device.Follows session)
    (fun _ invariant => invariant.2) ?preserved ?fails ⟨here, idle⟩
  case preserved =>
    rintro session event next ⟨here, follows⟩ met stepped
    cases event with
    | tell command answer =>
      obtain ⟨kept, exact⟩ := tells session next command answer here follows stepped
      exact ⟨kept, exact.mpr met⟩
    | work item =>
      simp only [step] at stepped
      split at stepped
      case h_1 => cases stepped
      case h_2 after products moved =>
        cases Option.some.inj stepped
        obtain ⟨kept, same⟩ := worked _ _ _ _ here moved
        exact ⟨kept, same.trans follows⟩
  case fails =>
    rintro session event next ⟨here, follows⟩ missed stepped still
    cases event with
    | tell command answer =>
      exact missed ((tells session next command answer here follows stepped).2.mp still)
    | work item => exact missed trivial

/-- What work yields is numbered in one sequence when each piece of it goes on where the
last one stopped. -/
theorem yields_numbered {number : P → N} {name : Nat → N} {I : S → Nat → Prop}
    (told : ∀ s c a next taken n, I s n → device.tell s c a = some (next, taken) →
      I next n)
    (worked : ∀ s w next products n, I s n → device.work s w = some (next, products) →
      ∃ k, I next (n + k) ∧ products.map number = (List.range' n k).map name)
    (events : List (Event C A W)) {n : Nat} (start : I state n) :
    (device.yields state events).map number =
      (List.range' n (device.yields state events).length).map name := by
  induction events generalizing state n with
  | nil => rfl
  | cons event events ih =>
    cases event with
    | tell command answer =>
      cases moved : device.tell state command answer with
      | none => simp [yields, moved]
      | some answered =>
        simp only [yields, moved]
        exact ih (told _ _ _ _ _ _ start moved)
    | work item =>
      cases moved : device.work state item with
      | none => simp [yields, moved]
      | some answered =>
        obtain ⟨k, later, numbers⟩ := worked _ _ _ _ _ start moved
        have size : answered.2.length = k := by simpa using congrArg List.length numbers
        simp only [yields, moved, List.map_append, List.length_append, size, numbers, ih later]
        rw [← List.map_append, List.range'_append_1]

end Device
end Commands
