import UltraDisplay.Library.Ledger.Object
import UltraDisplay.Shared.Result

/-! `init` and the destructor of client/decoder/vaapi_decoder.cpp, with the VA objects that
they create and destroy. Each `init` is numbered, and so are its objects. -/
namespace UltraDisplay
open Ledger

namespace VaapiDecoder

inductive Resource where
  | display (call : Nat)
  | config (call : Nat)
  | surfaces (call : Nat)
  | context (call : Nat)
  deriving DecidableEq

structure Answers where
  display : Bool
  started : Bool
  config : Bool
  surfaces : Bool
  context : Bool
  deriving DecidableEq

/-- `surfaces_` holds eight identifiers once it has been resized, filled in or not. -/
inductive Surfaces where
  | empty
  | unfilled (call : Nat)
  | created (call : Nat)
  deriving DecidableEq

end VaapiDecoder

structure VaapiDecoder where
  vaDpy : Option Nat := none
  vaConfig : Option Nat := none
  vaCtx : Option Nat := none
  surfaces : VaapiDecoder.Surfaces := .empty
  deriving DecidableEq

namespace VaapiDecoder

/-- The vector keeps what it has. -/
def resizeSurfaces (decoder : VaapiDecoder) (call : Nat) : VaapiDecoder :=
  match decoder.surfaces with
  | .empty => { decoder with surfaces := .unfilled call }
  | _ => decoder

/-- The decoder, the calls of VA and the result. -/
def init (decoder : VaapiDecoder) (call : Nat) (answers : Answers) :
    VaapiDecoder × List (Entry Resource) × Result Unit :=
  if !answers.display then
    ({ decoder with vaDpy := none }, [], .error (systemError "vaGetDisplayDRM failed"))
  else
    let decoder := { decoder with vaDpy := some call }
    let got : List (Entry Resource) := [.acquire (.display call), .use (.display call)]
    if !answers.started then (decoder, got, .error (systemError "vaInitialize failed"))
    else
      let got := got ++ [.use (.display call)]
      if !answers.config then (decoder, got, .error (systemError "vaCreateConfig failed"))
      else
        let decoder := { decoder with vaConfig := some call }.resizeSurfaces call
        let got := got ++ [.acquire (.config call), .use (.display call)]
        if !answers.surfaces then (decoder, got, .error (systemError "vaCreateSurfaces failed"))
        else
          let decoder := { decoder with surfaces := .created call }
          let got := got ++ [.acquire (.surfaces call), .use (.display call), .use (.config call),
            .use (.surfaces call)]
          if !answers.context then (decoder, got, .error (systemError "vaCreateContext failed"))
          else ({ decoder with vaCtx := some call }, got ++ [.acquire (.context call)], .ok ())

/-- VA destroys nothing without a display. -/
def destroy (decoder : VaapiDecoder) (resource : Resource) : List (Entry Resource) :=
  match decoder.vaDpy with
  | none => []
  | some display => [.use (.display display), .release resource]

def destructor (decoder : VaapiDecoder) : List (Entry Resource) :=
  (match decoder.vaCtx with
    | none => []
    | some call => decoder.destroy (.context call)) ++
  (match decoder.vaConfig with
    | none => []
    | some call => decoder.destroy (.config call)) ++
  (match decoder.surfaces with
    | .empty => []
    | .unfilled call | .created call => decoder.destroy (.surfaces call)) ++
  (match decoder.vaDpy with
    | none => []
    | some call => [.release (.display call)])

def life (decoder : VaapiDecoder) (call : Nat) : List Answers → List (Entry Resource)
  | [] => decoder.destructor
  | answers :: rest =>
    let (decoder, trace, _) := decoder.init call answers
    trace ++ decoder.life (call + 1) rest

/-- No call follows the one that gets a display, and that one does not fail to create its
surfaces. -/
def Lone : List Answers → Prop
  | [] => True
  | answers :: rest =>
    if answers.display then
      rest = [] ∧ (answers.started && answers.config && !answers.surfaces) = false
    else Lone rest

/-- An `init` starts with the display it gets, and gives nothing back. -/
theorem init_spec (decoder : VaapiDecoder) (call : Nat) (answers : Answers) :
    (decoder.init call answers).1.vaDpy = (if answers.display then some call else none) ∧
      (answers.display = true →
        ∃ rest, (decoder.init call answers).2.1 = .acquire (.display call) :: rest) ∧
      ∀ resource, .release resource ∉ (decoder.init call answers).2.1 := by
  obtain ⟨display, started, config, surfaces, context⟩ := answers
  unfold init
  cases display with
  | false => simp
  | true =>
    have resized (decoder : VaapiDecoder) : (decoder.resizeSurfaces call).vaDpy = decoder.vaDpy := by
      unfold resizeSurfaces
      split <;> rfl
    cases started <;> cases config <;> cases surfaces <;> cases context <;> simp [resized]

def object : Object VaapiDecoder Answers Resource where
  init decoder call answers := ((decoder.init call answers).1, (decoder.init call answers).2.1)
  destructor := destructor

theorem life_eq (decoder : VaapiDecoder) (call : Nat) (calls : List Answers) :
    decoder.life call calls = object.life decoder call calls := by
  induction calls generalizing decoder call with
  | nil => rfl
  | cons answers rest ih => exact congrArg _ (ih ..)

theorem object_forgets : object.Forgets {} Answers.display Resource.display VaapiDecoder.vaDpy where
  acquires := fun decoder n answers => (init_spec decoder n answers).2.1
  replaces := by
    intro decoder n answers m owner
    rw [object, (init_spec decoder n answers).1] at owner
    split at owner
    case isTrue => exact (Option.some.inj owner).symm
    case isFalse => cases owner
  keeps := fun decoder n answers => (init_spec decoder n answers).2.2
  releases := by
    intro decoder n released
    have destroyed {resource : Resource} (other : resource ≠ .display n) :
        .release (.display n) ∉ decoder.destroy resource := by
      unfold destroy
      split <;> simp [other.symm]
    unfold object destructor at released
    simp only [List.mem_append] at released
    obtain ((context | config) | surfaces) | display := released
    · split at context
      · cases context
      · exact absurd context (destroyed (by simp))
    · split at config
      · cases config
      · exact absurd config (destroyed (by simp))
    · split at surfaces
      · cases surfaces
      · exact absurd surfaces (destroyed (by simp))
      · exact absurd surfaces (destroyed (by simp))
    · split at display
      case h_1 => cases display
      case h_2 call owned =>
        cases List.mem_singleton.mp display
        exact owned
  idles := by
    intro n answers failed
    simp [object, init, failed]

theorem leaves_init (call : Nat) {answers : Answers} (display : answers.display = true) :
    Leaves ∅ (({} : VaapiDecoder).life call [answers]) ∅ ↔
      (answers.started && answers.config && !answers.surfaces) = false := by
  obtain ⟨_, started, config, surfaces, context⟩ := answers
  cases display
  have given : [.config call, .surfaces call, .display call].foldl Finset.erase
      ({.surfaces call, .config call, .display call} : Finset Resource) = ∅ := erased (by simp)
  cases started with
  | false => simp [life, init, destructor]
  | true =>
    cases config with
    | false => simp [life, init, destructor]
    | true =>
      cases surfaces with
      | false =>
        simp [life, init, destructor, destroy, resizeSurfaces]
      | true =>
        cases context <;> simpa [life, init, destructor, destroy, resizeSurfaces] using given

/-- Whatever calls of `init` a decoder sees and whichever calls of VA succeed in them: at the
end of its life it has given back what it got, and nothing else, exactly when no call
follows one that gets a display and that one does not fail to create its surfaces. -/
theorem life_leaves_iff (calls : List Answers) :
    Leaves ∅ (({} : VaapiDecoder).life 0 calls) ∅ ↔ Lone calls := by
  have lone : Lone calls ↔ Object.Lone Answers.display True
      (fun answers => (answers.started && answers.config && !answers.surfaces) = false) calls := by
    induction calls with
    | nil => rfl
    | cons answers rest ih => rw [Lone, Object.Lone, ih]
  rw [life_eq, lone]
  refine object_forgets.leaves_iff (iff_of_true .nil trivial) (fun n answers got => ?_) calls
  rw [← life_eq]
  exact leaves_init n got

end VaapiDecoder
end UltraDisplay
