import UltraDisplay.Library.Progress
import UltraDisplay.Server.Discovery.Lifecycle

/-! What `stop_scan` waits for in `join`. The scan thread clears off as soon as it sees
`running_` cleared, unless it is held up on the way there: by a callback that locks the
mutex it is called under, or by a `recvfrom` without a time-out. -/
namespace UltraDisplay.Discovery.Scanner
open CheckedRead Transition Progress

def Event.isThread : Event → Bool
  | .bind .. | .test | .ask _ | .timeout _ | .scan _ => true
  | .startScan | .stopScan | .join | .setCallback _ => false

/-- A step that it takes without a datagram of somebody else. -/
def Event.isOwn : Event → Bool
  | .scan (.receive ..) => false
  | e => e.isThread

/-- No callback is set that locks the mutex, and the socket takes its time-out. -/
def Event.harmless : Event → Bool
  | .setCallback (some .locks) | .bind true false _ => false
  | _ => true

/-- The steps that the thread has yet to take, once `running_` is cleared. -/
def remaining (s : Scanner) : Nat :=
  match s.thread with
  | none | some .returned | some .blocked => 0
  | some (.testing _) => 1
  | some .opening => 2
  | some (.scanning _) =>
    match s.scan.place with
    | .compare _ => 2
    | .prune _ => 3
    | .measure => 4
    | .announce _ => 5
    | .receive => 6
  | some (.asking _) => 7

/-- The thread has no step of its own: it has returned, it is in a callback that locks the
mutex, or it waits for a datagram without a time-out. -/
def Held (s : Scanner) : Prop :=
  s.thread = some .returned ∨ s.thread = some .blocked ∨
    s.timed = false ∧ s.scan.place = .receive ∧ ∃ lastQuery, s.thread = some (.scanning lastQuery)

structure Stopping (s : Scanner) : Prop where
  joins : s.joining = true
  invariant : Invariant s

structure Free (s : Scanner) : Prop where
  returns : s.locks = false
  timed : s.timed = true
  unblocked : s.thread ≠ some .blocked

/-- Up to the return of the call. -/
def waits : Scanner → Event → Option Scanner := only (· ≠ .join) step

/-- The same, while nothing is done that would hold the thread up. -/
def undisturbed : Scanner → Event → Option Scanner := only (fun e => e ≠ .join ∧ e.harmless) step

variable {s t : Scanner} {e : Event}

theorem own_isThread (own : e.isOwn = true) : e.isThread = true := by
  cases e with
  | scan event => rfl
  | _ => exact own

theorem body_lowers {event : Discovery.Event} {lastQuery : Int} {scan : Scan}
    (place : s.thread = some (.scanning lastQuery)) (moved : s.scan.step event = some scan)
    (other : ∀ set, event ≠ .setCallback set) :
    remaining { s with scan, thread := some (s.stageAfter event lastQuery scan) } <
      s.remaining := by
  unfold stageAfter
  split
  case isTrue =>
    have positive : 0 < s.remaining := by
      simp only [remaining, place]
      split <;> omega
    exact positive
  case isFalse =>
    cases Scan.step_cases moved with
    | setCallback => exact absurd rfl (other _)
    | rejected here | accepted here | announce here | measure here | prune here | compare here =>
      simp [remaining, place, here]

theorem waits_cases (stopping : Stopping s) (inside : e ≠ .join) (stepped : step s e = some t) :
    Stopping t ∧ (e.isThread = true → t.remaining < s.remaining) ∧
      (e.isThread = false → t.remaining = s.remaining) := by
  have kept := step_invariant stopping.invariant stepped
  have off : s.running = false := (stopping.invariant.stopping stopping.joins).1
  cases step_cases stepped with
  | startScan idle | stopScan idle => simp [stopping.joins] at idle
  | join => exact absurd rfl inside
  | setCallback => exact ⟨⟨stopping.joins, kept⟩, by simp [Event.isThread], fun _ => rfl⟩
  | bound place | unbound place =>
    exact ⟨⟨stopping.joins, kept⟩, fun _ => by simp [remaining, place], by simp [Event.isThread]⟩
  | test place =>
    exact ⟨⟨stopping.joins, kept⟩, fun _ => by simp [remaining, place, off],
      by simp [Event.isThread]⟩
  | ask place later =>
    have receiving : s.scan.place = .receive :=
      stopping.invariant.rests (by simp [place, Stage.inBody])
    refine ⟨⟨?_, kept⟩, fun _ => ?_, by simp [Event.isThread]⟩
    · rw [ask_eq]
      split <;> exact stopping.joins
    · rw [ask_eq]
      split <;> simp [remaining, place, receiving]
  | timeout timed place moved =>
    exact ⟨⟨stopping.joins, kept⟩, fun _ => body_lowers place moved (by simp),
      by simp [Event.isThread]⟩
  | scan place moved other =>
    exact ⟨⟨stopping.joins, kept⟩, fun _ => body_lowers place moved other,
      by simp [Event.isThread]⟩

/-- Nothing harmless holds the thread up. -/
theorem step_free (free : Free s) (harmless : e.harmless = true) (stepped : step s e = some t) :
    Free t := by
  obtain ⟨returns, timed, unblocked⟩ := free
  have onward (event : Discovery.Event) (lastQuery : Int) (scan : Scan) :
      s.stageAfter event lastQuery scan ≠ .blocked := by
    unfold stageAfter
    rw [if_neg (by simp [returns])]
    split <;> simp
  cases step_cases stepped with
  | startScan =>
    unfold startScan
    split
    · exact ⟨returns, timed, unblocked⟩
    · split
      · exact ⟨returns, timed, unblocked⟩
      · exact ⟨returns, timed, by simp⟩
  | stopScan => exact ⟨returns, timed, unblocked⟩
  | join => exact ⟨returns, timed, by simp⟩
  | @setCallback callback =>
    refine ⟨?_, timed, unblocked⟩
    cases callback with
    | none => rfl
    | some callback =>
      cases callback with
      | returns => rfl
      | locks => simp [Event.harmless] at harmless
  | @bound accepted =>
    cases accepted with
    | true => exact ⟨returns, rfl, by simp⟩
    | false => simp [Event.harmless] at harmless
  | unbound => exact ⟨returns, timed, by simp⟩
  | test =>
    refine ⟨returns, timed, ?_⟩
    split <;> simp
  | ask =>
    rw [ask_eq]
    split <;> exact ⟨returns, timed, by simp⟩
  | timeout | scan => exact ⟨returns, timed, fun same => onward _ _ _ (Option.some.inj same)⟩

theorem Held.no_own_step (held : Held s) (own : e.isOwn = true) : step s e = none := by
  cases stepped : step s e with
  | none => rfl
  | some t =>
    cases step_cases stepped with
    | startScan | stopScan | join | setCallback => cases own
    | bound place | unbound place | test place | ask place =>
      rcases held with same | same | ⟨_, _, _, same⟩ <;> simp [place] at same
    | timeout timed place =>
      rcases held with same | same | ⟨untimed, _⟩
      · simp [place] at same
      · simp [place] at same
      · simp [timed] at untimed
    | scan place moved other =>
      rcases held with same | same | ⟨_, here, _⟩
      · simp [place] at same
      · simp [place] at same
      · cases Scan.step_cases moved with
        | setCallback => exact absurd rfl (other _)
        | rejected | accepted => cases own
        | announce there | measure there | prune there | compare there =>
          rw [here] at there
          cases there

theorem Stopping.own_step (stopping : Stopping s) (loose : ¬ Held s) :
    ∃ e : Event, e.isOwn = true ∧ e.harmless = true ∧ (step s e).isSome = true := by
  obtain ⟨stage, place⟩ :=
    Option.isSome_iff_exists.mp (stopping.invariant.stopping stopping.joins).2
  cases stage with
  | returned => exact absurd (.inl place) loose
  | blocked => exact absurd (.inr (.inl place)) loose
  | opening => exact ⟨.bind false true s.scan.now, rfl, rfl, by simp [step, place]⟩
  | testing lastQuery => exact ⟨.test, rfl, rfl, by simp [step, place]⟩
  | asking lastQuery => exact ⟨.ask s.scan.now, rfl, rfl, by simp [step, place]⟩
  | scanning lastQuery =>
    cases here : s.scan.place with
    | receive =>
      have timed : s.timed = true := by
        by_contra untimed
        exact loose (.inr (.inr ⟨by simpa using untimed, here, lastQuery, place⟩))
      exact ⟨.timeout s.scan.now, rfl, rfl,
        by simp [step, body, Scan.step, accept, timed, place, here]⟩
    | announce =>
      exact ⟨.scan .announce, rfl, rfl, by simp [step, body, Scan.step, place, here]⟩
    | measure => exact ⟨.scan .measure, rfl, rfl, by simp [step, body, Scan.step, place, here]⟩
    | prune =>
      exact ⟨.scan (.prune s.scan.now), rfl, rfl, by simp [step, body, Scan.step, place, here]⟩
    | compare => exact ⟨.scan .compare, rfl, rfl, by simp [step, body, Scan.step, place, here]⟩

/-- A thread that is stopped has a step of its own unless it is held. -/
theorem own_step_iff (stopping : Stopping s) :
    (∃ e : Event, e.isOwn = true ∧ (step s e).isSome = true) ↔ ¬ Held s := by
  constructor
  · rintro ⟨e, own, moves⟩ held
    rw [held.no_own_step own] at moves
    cases moves
  · intro loose
    obtain ⟨e, own, _, moves⟩ := stopping.own_step loose
    exact ⟨e, own, moves⟩

theorem Stopping.held (stopping : Stopping s) (done : s.remaining = 0) :
    s.thread = some .returned ∨ s.thread = some .blocked := by
  obtain ⟨stage, place⟩ := Option.isSome_iff_exists.mp (stopping.invariant.stopping stopping.joins).2
  cases stage with
  | returned => exact .inl place
  | blocked => exact .inr place
  | scanning lastQuery => cases here : s.scan.place <;> simp [remaining, place, here] at done
  | _ => simp [remaining, place] at done

theorem Free.held (free : Free s) (held : Held s) : s.thread = some .returned := by
  rcases held with returned | blocked | ⟨untimed, _⟩
  · exact returned
  · exact absurd blocked free.unblocked
  · simp [free.timed] at untimed

/-- The thread keeps the mutex that it waits for, and whoever waits for the thread waits
as well. -/
theorem blocked_stuck (joins : s.joining = true) (blocked : s.thread = some .blocked) (e : Event) :
    step s e = none := by
  cases stepped : step s e with
  | none => rfl
  | some t =>
    cases step_cases stepped with
    | startScan idle | stopScan idle => simp [joins] at idle
    | join _ ended => simp [blocked] at ended
    | setCallback free => exact absurd blocked free
    | bound place | unbound place | test place | ask place | timeout _ place | scan place =>
      simp [blocked] at place

theorem remaining_le_seven (s : Scanner) : s.remaining ≤ 7 := by
  unfold remaining
  split
  all_goals first
    | omega
    | split <;> omega

theorem waits_winds_up : WindsUp waits Event.isThread Stopping remaining where
  kept _ _ _ stopping moved := by
    obtain ⟨inside, stepped⟩ := only_eq_some.mp moved
    exact (waits_cases stopping (of_decide_eq_true inside) stepped).1
  lowers _ _ _ stopping mine moved := by
    obtain ⟨inside, stepped⟩ := only_eq_some.mp moved
    exact (waits_cases stopping (of_decide_eq_true inside) stepped).2.1 mine
  leaves _ _ _ stopping other moved := by
    obtain ⟨inside, stepped⟩ := only_eq_some.mp moved
    exact ((waits_cases stopping (of_decide_eq_true inside) stepped).2.2 other).le
  enabled s stopping busy := by
    by_cases held : Held s
    · rcases held with returned | blocked | ⟨_, here, lastQuery, place⟩
      · simp [remaining, returned] at busy
      · simp [remaining, blocked] at busy
      · exact ⟨.scan (.receive [] [] s.scan.now), rfl,
          by simp [waits, only, step, body, Scan.step, accept, place, here]⟩
    · obtain ⟨e, own, _, moves⟩ := stopping.own_step held
      have inside : e ≠ .join := by
        rintro rfl
        cases own
      refine ⟨e, own_isThread own, ?_⟩
      rwa [waits, only, if_pos (decide_eq_true inside)]

theorem undisturbed_winds_up :
    WindsUp undisturbed Event.isOwn (fun s => Stopping s ∧ Free s) remaining where
  kept _ _ _ inv moved := by
    obtain ⟨allowed, stepped⟩ := only_eq_some.mp moved
    obtain ⟨inside, harmless⟩ := of_decide_eq_true allowed
    exact ⟨(waits_cases inv.1 inside stepped).1, step_free inv.2 harmless stepped⟩
  lowers _ _ _ inv own moved := by
    obtain ⟨allowed, stepped⟩ := only_eq_some.mp moved
    obtain ⟨inside, _⟩ := of_decide_eq_true allowed
    exact (waits_cases inv.1 inside stepped).2.1 (own_isThread own)
  leaves _ e _ inv other moved := by
    obtain ⟨allowed, stepped⟩ := only_eq_some.mp moved
    obtain ⟨inside, _⟩ := of_decide_eq_true allowed
    have steps := waits_cases inv.1 inside stepped
    cases mine : e.isThread with
    | true => exact (steps.2.1 mine).le
    | false => exact (steps.2.2 mine).le
  enabled s inv busy := by
    have loose : ¬ Held s := fun held => by simp [remaining, inv.2.held held] at busy
    obtain ⟨e, own, harmless, moves⟩ := inv.1.own_step loose
    have inside : e ≠ .join := by
      rintro rfl
      cases own
    refine ⟨e, own, ?_⟩
    rwa [undisturbed, only, if_pos (decide_eq_true ⟨inside, harmless⟩)]

end UltraDisplay.Discovery.Scanner
