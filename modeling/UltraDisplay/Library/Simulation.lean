import Mathlib.Logic.Basic

/-! Objects seen through their calls only. Two objects that a simulation
relates give the same answers to every list of calls, whatever state they keep
inside. -/
namespace Simulation
variable {S T Call Answer : Type*} {concrete : S → Call → S × Answer}
  {abstract : T → Call → T × Answer} {Related : S → T → Prop}

/-- The answers to the calls, each made on the state the earlier ones left. -/
def answers (call : S → Call → S × Answer) : S → List Call → List Answer
  | _, [] => []
  | s, c :: cs => (call s c).2 :: answers call (call s c).1 cs

/-- Every call gives the same answer on both sides and leaves related states. -/
def Simulates (concrete : S → Call → S × Answer) (abstract : T → Call → T × Answer)
    (Related : S → T → Prop) : Prop :=
  ∀ s t c, Related s t →
    Related (concrete s c).1 (abstract t c).1 ∧ (concrete s c).2 = (abstract t c).2

theorem Simulates.answers_eq (simulates : Simulates concrete abstract Related)
    (related : Related s t) (calls : List Call) :
    answers concrete s calls = answers abstract t calls := by
  induction calls generalizing s t with
  | nil => rfl
  | cons c calls ih =>
    obtain ⟨later, same⟩ := simulates s t c related
    simp only [answers]
    rw [same, ih later]

end Simulation
