import Mathlib.Data.List.Infix
import Mathlib.Data.List.Basic

/-! Finite runs of a machine whose step may refuse an event. Interleavings of
several parties are event lists of one machine, so a statement about every run
is a statement about every schedule. -/
namespace Transition
variable {S : Type*} {E : Type*} {step : S → E → Option S}

/-- Take the events in order; a refused event ends the run without a state. -/
def run (step : S → E → Option S) : S → List E → Option S
  | s, [] => some s
  | s, e :: es => (step s e).bind fun t => run step t es

/-- `Q` relates both ends of every step taken along the run. -/
def EveryStep (step : S → E → Option S) (Q : S → E → S → Prop) (s : S) (es : List E) : Prop :=
  ∀ before e u t, before ++ [e] <+: es → run step s before = some u → step u e = some t → Q u e t

/-- `P` holds in the first state and in every state the run reaches. -/
def Throughout (step : S → E → Option S) (P : S → Prop) (s : S) (es : List E) : Prop :=
  ∀ before t, before <+: es → run step s before = some t → P t

/-- Every step taken meets `ok`, a condition on the state before it. -/
def Guarded (step : S → E → Option S) (ok : S → E → Prop) : S → List E → Prop :=
  EveryStep step fun s e _ => ok s e

theorem run_cons : run step s (e :: es) = (step s e).bind fun t => run step t es := rfl

theorem run_cons_iff : run step s (e :: es) = some t ↔
    ∃ u, step s e = some u ∧ run step u es = some t :=
  Option.bind_eq_some_iff

theorem run_append (xs ys : List E) :
    run step s (xs ++ ys) = (run step s xs).bind fun t => run step t ys := by
  induction xs generalizing s with
  | nil => rfl
  | cons e es ih =>
    simp only [List.cons_append, run_cons]
    cases step s e with
    | none => rfl
    | some t => exact ih

namespace EveryStep
variable {Q R : S → E → S → Prop}

theorem nil : EveryStep step Q s [] := by
  intro before e u t short _ _
  have empty := List.prefix_nil.mp short
  simp at empty

theorem cons_iff : EveryStep step Q s (e :: es) ↔
    ∀ t, step s e = some t → Q s e t ∧ EveryStep step Q t es := by
  constructor
  · intro every t stepped
    refine ⟨every [] e s t (by simp) rfl stepped, ?_⟩
    intro before f u v short reached next
    refine every (e :: before) f u v ?_ ?_ next
    · simpa using short
    · exact run_cons_iff.mpr ⟨t, stepped, reached⟩
  · intro parts before f u v short reached next
    cases before with
    | nil =>
      have same : f = e := by simpa using short
      subst same
      cases Option.some.inj reached
      exact (parts v next).1
    | cons g before =>
      obtain ⟨same, rest⟩ : g = e ∧ before ++ [f] <+: es := by simpa using short
      subst same
      obtain ⟨w, first, reached⟩ := run_cons_iff.mp reached
      exact (parts w first).2 before f u v rest reached next

theorem of_prefix (every : EveryStep step Q s es) (short : before <+: es) :
    EveryStep step Q s before :=
  fun _ _ _ _ inner => every _ _ _ _ (inner.trans short)

theorem mono (every : EveryStep step Q s es) (weaker : ∀ u e t, Q u e t → R u e t) :
    EveryStep step R s es :=
  fun before e u t short reached stepped => weaker _ _ _ (every before e u t short reached stepped)

theorem and (first : EveryStep step Q s es) (second : EveryStep step R s es) :
    EveryStep step (fun u e t => Q u e t ∧ R u e t) s es := by
  intro before e u t short reached stepped
  exact ⟨first before e u t short reached stepped, second before e u t short reached stepped⟩

/-- Two step relations that agree as long as an invariant holds, which the steps
in the second one keep, give the same condition on runs: the first step outside
of it breaks both. -/
theorem congr_of_kept {I : S → Prop}
    (preserved : ∀ u e t, I u → R u e t → step u e = some t → I t)
    (agree : ∀ u e t, I u → step u e = some t → (Q u e t ↔ R u e t)) (start : I s) :
    EveryStep step Q s es ↔ EveryStep step R s es := by
  induction es generalizing s with
  | nil => exact ⟨fun _ => nil, fun _ => nil⟩
  | cons e es ih =>
    rw [cons_iff, cons_iff]
    refine forall_congr' fun t => forall_congr' fun stepped => ?_
    rw [agree _ _ _ start stepped]
    exact and_congr_right fun kept => ih (preserved _ _ _ start kept stepped)

theorem congr_of_invariant {I : S → Prop}
    (preserved : ∀ u e t, I u → step u e = some t → I t)
    (agree : ∀ u e t, I u → step u e = some t → (Q u e t ↔ R u e t)) (start : I s) :
    EveryStep step Q s es ↔ EveryStep step R s es :=
  congr_of_kept (fun u e t here _ => preserved u e t here) agree start

end EveryStep

namespace Throughout
variable {P : S → Prop}

theorem cons_iff : Throughout step P s (e :: es) ↔
    P s ∧ ∀ t, step s e = some t → Throughout step P t es := by
  constructor
  · intro all
    refine ⟨all [] s (List.nil_prefix) rfl, ?_⟩
    intro t stepped before u short reached
    refine all (e :: before) u (by simpa using short) ?_
    exact run_cons_iff.mpr ⟨t, stepped, reached⟩
  · rintro ⟨here, later⟩ before u short reached
    cases before with
    | nil =>
      cases Option.some.inj reached
      exact here
    | cons f before =>
      obtain ⟨same, rest⟩ : f = e ∧ before <+: es := by simpa using short
      subst same
      obtain ⟨t, first, reached⟩ := run_cons_iff.mp reached
      exact later t first before u rest reached

theorem last (all : Throughout step P s es) (reached : run step s es = some t) : P t :=
  all es t (List.prefix_refl _) reached

end Throughout

theorem Guarded.cons_iff {ok : S → E → Prop} : Guarded step ok s (e :: es) ↔
    ∀ t, step s e = some t → ok s e ∧ Guarded step ok t es :=
  EveryStep.cons_iff

theorem Guarded.of_forall {p : E → Prop} (all : ∀ e ∈ es, p e) :
    Guarded step (fun _ e => p e) s es := by
  intro before e u t short _ _
  exact all e (short.subset (by simp))

instance Guarded.decide {ok : S → E → Prop} [∀ u e, Decidable (ok u e)] :
    (s : S) → (es : List E) → Decidable (Guarded step ok s es)
  | _, [] => isTrue EveryStep.nil
  | s, e :: es =>
      match stepped : step s e with
      | none => isTrue (cons_iff.mpr fun t other => by rw [stepped] at other; contradiction)
      | some t =>
          have later : Decidable (Guarded step ok t es) := Guarded.decide t es
          decidable_of_iff (ok s e ∧ Guarded step ok t es) <| by
            rw [cons_iff, stepped]
            exact ⟨fun both u same => Option.some.inj same ▸ both, fun all => all t rfl⟩

/-- A property kept by every step that meets the condition holds at the end of
every guarded run. -/
theorem run_guarded {I : S → Prop} {ok : S → E → Prop}
    (preserved : ∀ u e t, I u → ok u e → step u e = some t → I t)
    (guarded : Guarded step ok s es) (start : I s) (reached : run step s es = some t) : I t := by
  induction es generalizing s with
  | nil =>
    cases Option.some.inj reached
    exact start
  | cons e es ih =>
    obtain ⟨u, first, reached⟩ := run_cons_iff.mp reached
    obtain ⟨met, guarded⟩ := Guarded.cons_iff.mp guarded u first
    exact ih guarded (preserved _ _ _ start met first) reached

theorem run_invariant {I : S → Prop}
    (preserved : ∀ u e t, I u → step u e = some t → I t)
    (start : I s) (reached : run step s es = some t) : I t := by
  have guarded : Guarded step (fun _ _ => True) s es := Guarded.of_forall fun _ _ => trivial
  exact run_guarded (fun u e t here _ => preserved u e t here) guarded start reached

/-- Where every event has a step, every sequence of events has a run. -/
theorem run_total (total : ∀ u e, ∃ t, step u e = some t) (s : S) (es : List E) :
    ∃ t, run step s es = some t := by
  induction es generalizing s with
  | nil => exact ⟨s, rfl⟩
  | cons e es ih =>
    obtain ⟨u, first⟩ := total s e
    obtain ⟨t, reached⟩ := ih u
    exact ⟨t, run_cons_iff.mpr ⟨u, first, reached⟩⟩

theorem throughout_guarded {I : S → Prop} {ok : S → E → Prop}
    (preserved : ∀ u e t, I u → ok u e → step u e = some t → I t)
    (guarded : Guarded step ok s es) (start : I s) : Throughout step I s es :=
  fun _ _ short reached => run_guarded preserved (guarded.of_prefix short) start reached

/-- What each guarded step does from an invariant state holds of every step. -/
theorem everyStep_guarded {I : S → Prop} {ok : S → E → Prop} {Q : S → E → S → Prop}
    (preserved : ∀ u e t, I u → ok u e → step u e = some t → I t)
    (shown : ∀ u e t, I u → ok u e → step u e = some t → Q u e t)
    (guarded : Guarded step ok s es) (start : I s) : EveryStep step Q s es := by
  intro before e u t short reached stepped
  have met : ok u e := guarded before e u t short reached stepped
  have earlier : before <+: es := (List.prefix_append before [e]).trans short
  exact shown u e t (run_guarded preserved (guarded.of_prefix earlier) start reached) met stepped

/-- The condition is exact when a step that misses it leaves the property: the
property then holds all along a run precisely when the run is guarded. -/
theorem throughout_iff_guarded {I P : S → Prop} {ok : S → E → Prop}
    (holds : ∀ u, I u → P u)
    (preserved : ∀ u e t, I u → ok u e → step u e = some t → I t)
    (fails : ∀ u e t, I u → ¬ ok u e → step u e = some t → ¬ P t) (start : I s) :
    Throughout step P s es ↔ Guarded step ok s es := by
  constructor
  · intro all
    induction es generalizing s with
    | nil => exact EveryStep.nil
    | cons e es ih =>
      apply Guarded.cons_iff.mpr
      intro t stepped
      have later := (Throughout.cons_iff.mp all).2 t stepped
      have met : ok s e := by
        by_contra missed
        exact fails s e t start missed stepped (later [] t List.nil_prefix rfl)
      exact ⟨met, ih (preserved s e t start met stepped) later⟩
  · intro guarded before t short reached
    exact holds t (throughout_guarded preserved guarded start before t short reached)

/-- The machine that refuses further events. -/
def only (p : E → Bool) (step : S → E → Option S) (s : S) (e : E) : Option S :=
  if p e then step s e else none

theorem only_eq_some {p : E → Bool} : only p step s e = some t ↔ p e = true ∧ step s e = some t := by
  unfold only
  exact Option.ite_none_right_eq_some

theorem run_only {p : E → Bool} (all : ∀ e ∈ es, p e = true) :
    run (only p step) s es = run step s es := by
  induction es generalizing s with
  | nil => rfl
  | cons e es ih =>
    rw [run_cons, run_cons, only, if_pos (all e List.mem_cons_self)]
    exact congrArg _ (funext fun t => ih fun f later => all f (List.mem_cons_of_mem e later))

theorem run_map {T : Type*} {other : T → E → Option T} (project : S → T)
    (follows : ∀ u e t, step u e = some t → other (project u) e = some (project t))
    (reached : run step s es = some t) : run other (project s) es = some (project t) := by
  induction es generalizing s with
  | nil =>
    cases Option.some.inj reached
    rfl
  | cons e es ih =>
    obtain ⟨u, first, reached⟩ := run_cons_iff.mp reached
    exact run_cons_iff.mpr ⟨project u, follows _ _ _ first, ih reached⟩

/-- A machine that can take every step of another one from a related state, and stays
related, can take its runs. -/
theorem run_simulated {T : Type*} {other : T → E → Option T} {R : S → T → Prop}
    (follows : ∀ s t e u, R s t → step s e = some u → ∃ v, other t e = some v ∧ R u v)
    {s u : S} {t : T} {es : List E} (related : R s t) (reached : run step s es = some u) :
    ∃ v, run other t es = some v ∧ R u v := by
  induction es generalizing s t with
  | nil =>
    cases Option.some.inj reached
    exact ⟨t, rfl, related⟩
  | cons e es ih =>
    obtain ⟨m, first, reached⟩ := run_cons_iff.mp reached
    obtain ⟨v, moved, related⟩ := follows s t e m related first
    obtain ⟨w, later, related⟩ := ih related reached
    exact ⟨w, run_cons_iff.mpr ⟨v, moved, later⟩, related⟩

/-- Where each guarded step is one of the other machine or leaves the projection as it is,
a guarded run is a run of the other machine. -/
theorem run_stutters {T F : Type*} {other : T → F → Option T} {project : S → T} {I : S → Prop}
    {ok : S → E → Prop} (follows : ∀ s e t, I s → ok s e → step s e = some t →
      I t ∧ (project t = project s ∨ ∃ f, other (project s) f = some (project t)))
    {s t : S} {es : List E} (guarded : Guarded step ok s es) (start : I s)
    (reached : run step s es = some t) : ∃ fs, run other (project s) fs = some (project t) := by
  induction es generalizing s with
  | nil =>
    cases Option.some.inj reached
    exact ⟨[], rfl⟩
  | cons e es ih =>
    obtain ⟨u, first, reached⟩ := run_cons_iff.mp reached
    obtain ⟨met, guarded⟩ := Guarded.cons_iff.mp guarded u first
    obtain ⟨here, moved⟩ := follows s e u start met first
    obtain ⟨fs, later⟩ := ih guarded here reached
    rcases moved with same | ⟨f, moved⟩
    · exact ⟨fs, same ▸ later⟩
    · exact ⟨f :: fs, run_cons_iff.mpr ⟨_, moved, later⟩⟩

end Transition
