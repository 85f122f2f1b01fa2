import UltraDisplay.Library.Transition

/-! A thread that winds up while others go on: a rank that its own steps lower and
no other step raises bounds how many steps it still takes, whatever the schedule. -/
namespace Progress
open Transition
variable {S E : Type*} {step : S → E → Option S} {own : E → Bool} {I : S → Prop} {rank : S → Nat}

/-- `own` are the steps of the thread, which has ended at rank zero. -/
structure WindsUp (step : S → E → Option S) (own : E → Bool) (I : S → Prop) (rank : S → Nat) :
    Prop where
  kept : ∀ s e t, I s → step s e = some t → I t
  lowers : ∀ s e t, I s → own e = true → step s e = some t → rank t < rank s
  leaves : ∀ s e t, I s → own e = false → step s e = some t → rank t ≤ rank s
  enabled : ∀ s, I s → rank s ≠ 0 → ∃ e, own e = true ∧ (step s e).isSome = true

namespace WindsUp

/-- No schedule gives the thread more steps than its rank. -/
theorem steps_le (winds : WindsUp step own I rank) {s t : S} {es : List E} (here : I s)
    (reached : run step s es = some t) : es.countP own + rank t ≤ rank s := by
  induction es generalizing s with
  | nil =>
    cases Option.some.inj reached
    simp
  | cons e es ih =>
    obtain ⟨u, first, reached⟩ := run_cons_iff.mp reached
    have later := ih (winds.kept s e u here first) reached
    cases mine : own e with
    | true =>
      have lower := winds.lowers s e u here mine first
      rw [List.countP_cons_of_pos mine]
      omega
    | false =>
      have same := winds.leaves s e u here mine first
      rw [List.countP_cons_of_neg (by simp [mine])]
      omega

/-- Left alone, the thread comes to its end. -/
theorem ends (winds : WindsUp step own I rank) {s : S} (here : I s) :
    ∃ es t, (∀ e ∈ es, own e = true) ∧ run step s es = some t ∧ rank t = 0 := by
  induction left : rank s using Nat.strong_induction_on generalizing s with
  | _ left' ih =>
    by_cases ended : rank s = 0
    · exact ⟨[], s, by simp, rfl, ended⟩
    · obtain ⟨e, mine, moves⟩ := winds.enabled s here ended
      obtain ⟨u, first⟩ := Option.isSome_iff_exists.mp moves
      have lower := winds.lowers s e u here mine first
      obtain ⟨es, t, all, reached, ended⟩ := ih (rank u) (left ▸ lower) (winds.kept s e u here first) rfl
      exact ⟨e :: es, t, by simpa [mine] using all, run_cons_iff.mpr ⟨u, first, reached⟩, ended⟩

end WindsUp
end Progress
