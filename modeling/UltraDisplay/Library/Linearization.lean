import Mathlib.Logic.Function.Basic
import UltraDisplay.Library.Transition

/-! Objects shared by several parties whose calls take many steps each. A history
of invocations and responses is linearizable when each call can be given one
instant between the two at which it acts on a sequential object, which then
answers it. -/
namespace Linearization
variable {Party Call Answer Q S E : Type*} [DecidableEq Party]

/-- What is seen of a call from outside. -/
inductive Action (Party Call Answer : Type*) where
  | invoke (party : Party) (call : Call)
  | respond (party : Party) (answer : Answer)
  deriving DecidableEq

/-- A party's call: not made, made and yet to act, or acted with its answer due. -/
inductive Pending (Call Answer : Type*) where
  | none
  | called (call : Call)
  | answered (answer : Answer)

/-- The sequential object and what each party waits for. -/
structure Atomic (Q Party Call Answer : Type*) where
  object : Q
  pending : Party → Pending Call Answer

namespace Atomic

def start (object : Q) : Atomic Q Party Call Answer := ⟨object, fun _ => .none⟩

def set (a : Atomic Q Party Call Answer) (party : Party) (pending : Pending Call Answer) :
    Atomic Q Party Call Answer :=
  { a with pending := Function.update a.pending party pending }

@[simp] theorem set_object (a : Atomic Q Party Call Answer) (party : Party)
    (pending : Pending Call Answer) : (a.set party pending).object = a.object := rfl

@[simp] theorem set_self (a : Atomic Q Party Call Answer) (party : Party)
    (pending : Pending Call Answer) : (a.set party pending).pending party = pending :=
  Function.update_self ..

theorem set_other {a : Atomic Q Party Call Answer} {party other : Party}
    (different : other ≠ party) (pending : Pending Call Answer) :
    (a.set party pending).pending other = a.pending other :=
  Function.update_of_ne different ..

@[simp] theorem set_set (a : Atomic Q Party Call Answer) (party : Party)
    (first later : Pending Call Answer) : (a.set party first).set party later = a.set party later := by
  simp [Atomic.set]

theorem set_eq {a : Atomic Q Party Call Answer} {party : Party} {pending : Pending Call Answer}
    (already : a.pending party = pending) : a.set party pending = a := by
  rw [Atomic.set, ← already, Function.update_eq_self]

/-- The call acts: the object moves on and the answer is settled. -/
def act (call : Q → Call → Q × Answer) (a : Atomic Q Party Call Answer) (party : Party) (c : Call) :
    Atomic Q Party Call Answer :=
  { object := (call a.object c).1
    pending := Function.update a.pending party (.answered (call a.object c).2) }

@[simp] theorem act_self (call : Q → Call → Q × Answer) (a : Atomic Q Party Call Answer)
    (party : Party) (c : Call) :
    (a.act call party c).pending party = .answered (call a.object c).2 :=
  Function.update_self ..

theorem act_other {call : Q → Call → Q × Answer} {a : Atomic Q Party Call Answer}
    {party other : Party} (different : other ≠ party) (c : Call) :
    (a.act call party c).pending other = a.pending other :=
  Function.update_of_ne different ..

end Atomic

open Atomic

/-- The moves of an object whose calls act at one instant, with the history that
is seen of them. -/
inductive Moves (call : Q → Call → Q × Answer) :
    Atomic Q Party Call Answer → List (Action Party Call Answer) →
      Atomic Q Party Call Answer → Prop
  | rest : Moves call a [] a
  | invoke : a.pending party = .none → Moves call (a.set party (.called c)) history b →
      Moves call a (.invoke party c :: history) b
  | act : a.pending party = .called c → Moves call (a.act call party c) history b →
      Moves call a history b
  | respond : a.pending party = .answered answer → Moves call (a.set party .none) history b →
      Moves call a (.respond party answer :: history) b

def Linearizable (call : Q → Call → Q × Answer) (object : Q)
    (history : List (Action Party Call Answer)) : Prop :=
  ∃ b, Moves call (start object) history b

theorem Moves.append {call : Q → Call → Q × Answer} {a b c : Atomic Q Party Call Answer}
    {first later : List (Action Party Call Answer)} (moves : Moves call a first b)
    (after : Moves call b later c) : Moves call a (first ++ later) c := by
  induction moves with
  | rest => exact after
  | invoke free _ ih => exact .invoke free (ih after)
  | act called _ ih => exact .act called (ih after)
  | respond answered _ ih => exact .respond answered (ih after)

theorem Moves.returns {call : Q → Call → Q × Answer} {a : Atomic Q Party Call Answer} {party : Party}
    {c : Call} {object : Q} {answer : Answer} (called : a.pending party = .called c)
    (answers : call a.object c = (object, answer)) :
    Moves call a [.respond party answer] ({ a with object := object }.set party .none) := by
  have acted : (a.act call party c).pending party = .answered answer := by
    rw [act_self, answers]
  have after : (a.act call party c).set party .none =
      { a with object := object }.set party .none := by
    simp [Atomic.act, Atomic.set, answers]
  exact .act called (.respond acted (after ▸ .rest))

/-- The history seen of a run of the code, each step with what it shows. -/
def history (step : S → E → Option S) (sees : S → E → List (Action Party Call Answer)) :
    S → List E → List (Action Party Call Answer)
  | _, [] => []
  | s, e :: es => sees s e ++ ((step s e).elim [] fun t => history step sees t es)

/-- A relation that every guarded step keeps, with moves that show what the step shows,
makes every history of the code one of the atomic object. -/
theorem moves_of_simulation {step : S → E → Option S}
    {sees : S → E → List (Action Party Call Answer)} {call : Q → Call → Q × Answer}
    {Shows : S → Atomic Q Party Call Answer → Prop} {ok : S → E → Prop}
    (simulates : ∀ s e t a, ok s e → Shows s a → step s e = some t →
      ∃ b, Moves call a (sees s e) b ∧ Shows t b)
    {s t : S} {a : Atomic Q Party Call Answer} (shows : Shows s a) {es : List E}
    (guarded : Transition.Guarded step ok s es) (reached : Transition.run step s es = some t) :
    ∃ b, Moves call a (history step sees s es) b ∧ Shows t b := by
  induction es generalizing s a with
  | nil =>
    cases Option.some.inj reached
    exact ⟨a, .rest, shows⟩
  | cons e es ih =>
    obtain ⟨u, first, reached⟩ := Transition.run_cons_iff.mp reached
    obtain ⟨met, guarded⟩ := Transition.Guarded.cons_iff.mp guarded u first
    obtain ⟨b, moves, shows⟩ := simulates s e u a met shows first
    obtain ⟨c, later, shows⟩ := ih shows guarded reached
    refine ⟨c, ?_, shows⟩
    rw [history, first]
    exact moves.append later

end Linearization
