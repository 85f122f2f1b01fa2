import UltraDisplay.Library.Progress
import UltraDisplay.Server.Transport
import UltraDisplay.Client.Transport

/-! The destructors of the transports: each clears `running_`, makes its thread
look at it and joins it. The thread never blocks for good on the way out, and
nothing the others do meanwhile gives it more to do. -/
namespace UltraDisplay
open Progress Transition

namespace ServerTransport

def Worker.remaining : Worker → Nat
  | .exited => 0
  | .looping | .woken _ => 1
  | .waiting | .rearming => 2

/-- The destructor has posted its completion: a worker that waits finds something. -/
structure Closing (s : State) : Prop where
  stopped : s.running = false
  posted : s.worker = .waiting → s.port ≠ []

def Event.isWork : Event → Bool
  | .work => true
  | _ => false

variable {s t : State}

theorem other_frame {e : Event} (other : e.isWork = false) (stepped : step s e = some t) :
    t.worker = s.worker ∧ s.port <+: t.port ∧ (s.running = false → t.running = false) := by
  cases e with
  | work => simp [Event.isWork] at other
  | send payload accepted =>
    cases Option.some.inj stepped
    cases accepted <;> exact ⟨rfl, List.prefix_refl _, id⟩
  | stop =>
    cases Option.some.inj stepped
    exact ⟨rfl, List.prefix_refl _, fun _ => rfl⟩
  | readCompletes datagram =>
    cases datagram with
    | none =>
      simp only [step] at stepped
      split at stepped
      · contradiction
      · cases Option.some.inj stepped
        exact ⟨rfl, List.prefix_append _ _, id⟩
    | some data =>
      simp only [step] at stepped
      split at stepped
      · contradiction
      · split at stepped
        · contradiction
        · cases Option.some.inj stepped
          exact ⟨rfl, List.prefix_append _ _, id⟩
  | initPostsReceive | receive =>
    simp only [step] at stepped
    split at stepped
    all_goals first
      | contradiction
      | cases Option.some.inj stepped
        exact ⟨rfl, List.prefix_refl _, id⟩
  | writeCompletes | wake =>
    simp only [step] at stepped
    split at stepped
    all_goals first
      | contradiction
      | cases Option.some.inj stepped
        exact ⟨rfl, List.prefix_append _ _, id⟩

theorem Closing.work (closing : Closing s) (stepped : s.work = some t) :
    Closing t ∧ t.worker.remaining < s.worker.remaining := by
  obtain ⟨stopped, posted⟩ := closing
  unfold State.work at stepped
  cases place : s.worker with
  | looping =>
    simp only [place, stopped, Option.some.injEq] at stepped
    subst t
    exact ⟨⟨rfl, by simp⟩, by simp [Worker.remaining]⟩
  | waiting =>
    cases queued : s.port with
    | nil => exact absurd queued (posted place)
    | cons completion port =>
      simp only [place, queued, Option.some.injEq] at stepped
      subst t
      exact ⟨⟨stopped, by simp⟩, by simp [Worker.remaining]⟩
  | woken completion =>
    simp only [place, State.handle, stopped, Bool.not_false, if_true, Option.some.injEq] at stepped
    subst t
    exact ⟨⟨rfl, by simp⟩, by simp [Worker.remaining]⟩
  | rearming =>
    simp only [place, Option.some.injEq] at stepped
    subst t
    exact ⟨⟨stopped, by simp⟩, by simp [Worker.remaining]⟩
  | exited => simp [place] at stepped

theorem winds_up : WindsUp step Event.isWork Closing (fun s => s.worker.remaining) where
  kept s e t closing stepped := by
    cases mine : e.isWork with
    | true =>
      cases e with
      | work => exact (closing.work stepped).1
      | _ => simp [Event.isWork] at mine
    | false =>
      obtain ⟨worker, port, running⟩ := other_frame mine stepped
      refine ⟨running closing.stopped, fun waits empty => ?_⟩
      rw [empty] at port
      exact closing.posted (worker ▸ waits) (List.prefix_nil.mp port)
  lowers s e t closing mine stepped := by
    cases e with
    | work => exact (closing.work stepped).2
    | _ => simp [Event.isWork] at mine
  leaves s e t _ other stepped := (congrArg Worker.remaining (other_frame other stepped).1).le
  enabled s closing busy := by
    refine ⟨.work, rfl, ?_⟩
    cases place : s.worker with
    | exited => simp [place, Worker.remaining] at busy
    | waiting =>
      cases queued : s.port with
      | nil => exact absurd queued (closing.posted place)
      | cons completion port => simp [step, State.work, place, queued]
    | looping | woken | rearming => simp [step, State.work, place]

theorem remaining_le_two (worker : Worker) : worker.remaining ≤ 2 := by
  cases worker <;> simp [Worker.remaining]

theorem remaining_eq_zero_iff (worker : Worker) : worker.remaining = 0 ↔ worker = .exited := by
  cases worker <;> simp [Worker.remaining]

end ServerTransport

namespace ClientTransport

def Poll.remaining : Poll → Nat
  | .exited => 0
  | .looping => 1
  | .rearming => 2
  | .waiting => 3

/-- The wait of 100 ms ends at the latest with its timeout. -/
def Event.isPollThread : Event → Bool
  | .poll _ | .timeout => true
  | _ => false

variable {s t : State}

theorem other_frame {e : Event} (other : e.isPollThread = false) (stepped : step s e = some t) :
    t.poll = s.poll ∧ (s.running = false → t.running = false) := by
  cases e with
  | poll | timeout => simp [Event.isPollThread] at other
  | store address bytes =>
    cases Option.some.inj stepped
    exact ⟨rfl, id⟩
  | send address size sqe =>
    cases Option.some.inj stepped
    cases sqe <;> exact ⟨rfl, id⟩
  | stop =>
    cases Option.some.inj stepped
    exact ⟨rfl, fun _ => rfl⟩
  | arrives index datagram =>
    simp only [step] at stepped
    split at stepped
    · split at stepped
      · cases Option.some.inj stepped
        exact ⟨rfl, id⟩
      · contradiction
    · contradiction
  | receive | sendCompletes | fails =>
    simp only [step] at stepped
    split at stepped
    all_goals first
      | contradiction
      | cases Option.some.inj stepped
        exact ⟨rfl, id⟩

theorem poll_winds {sqe : Bool} (stopped : s.running = false) (stepped : s.pollLoop sqe = some t) :
    t.running = false ∧ t.poll.remaining < s.poll.remaining := by
  unfold State.pollLoop at stepped
  cases place : s.poll with
  | looping =>
    simp only [place, stopped, Option.some.injEq] at stepped
    subst t
    exact ⟨rfl, by simp [Poll.remaining]⟩
  | waiting =>
    cases queued : s.completed with
    | nil => simp [place, queued] at stepped
    | cons completion completed =>
      simp only [place, queued, Option.some.injEq] at stepped
      subst t
      unfold State.reap
      split
      · split
        · exact ⟨stopped, by simp [Poll.remaining]⟩
        · exact ⟨stopped, by simp [Poll.remaining]⟩
      · exact ⟨stopped, by simp [Poll.remaining]⟩
  | rearming =>
    simp only [place, Option.some.injEq] at stepped
    subst t
    cases sqe <;> exact ⟨stopped, by simp [Poll.remaining]⟩
  | exited => simp [place] at stepped

theorem timeout_winds (stopped : s.running = false) (stepped : step s .timeout = some t) :
    t.running = false ∧ t.poll.remaining < s.poll.remaining := by
  simp only [step] at stepped
  split at stepped
  · rename_i waits
    cases Option.some.inj stepped
    exact ⟨stopped, by simp [waits, Poll.remaining]⟩
  · contradiction

theorem winds_up : WindsUp step Event.isPollThread (fun s => s.running = false)
    (fun s => s.poll.remaining) where
  kept s e t stopped stepped := by
    cases e with
    | poll sqe => exact (poll_winds stopped stepped).1
    | timeout => exact (timeout_winds stopped stepped).1
    | _ => exact (other_frame rfl stepped).2 stopped
  lowers s e t stopped mine stepped := by
    cases e with
    | poll sqe => exact (poll_winds stopped stepped).2
    | timeout => exact (timeout_winds stopped stepped).2
    | _ => simp [Event.isPollThread] at mine
  leaves s e t _ other stepped := (congrArg Poll.remaining (other_frame other stepped).1).le
  enabled s stopped busy := by
    cases place : s.poll with
    | exited => simp [place, Poll.remaining] at busy
    | waiting => exact ⟨.timeout, rfl, by simp [step, place]⟩
    | looping | rearming => exact ⟨.poll true, rfl, by simp [step, State.pollLoop, place]⟩

theorem remaining_le_three (poll : Poll) : poll.remaining ≤ 3 := by
  cases poll <;> simp [Poll.remaining]

theorem remaining_eq_zero_iff (poll : Poll) : poll.remaining = 0 ↔ poll = .exited := by
  cases poll <;> simp [Poll.remaining]

end ClientTransport

/-- The join in either destructor returns. Once the server has posted its last
completion the worker takes at most two more steps, and once the client has
cleared `running_` the poll thread takes at most three, whatever the kernel and
the callers do in between; until then each always has a step to take, and its own
steps alone bring it to the end. -/
theorem destructors_join {s t u : ServerTransport.State} {c d : ClientTransport.State}
    (es : List ServerTransport.Event) (cs : List ClientTransport.Event)
    (stopped : s.running = false) (woke : ServerTransport.step s .wake = some t)
    (reached : run ServerTransport.step t es = some u)
    (cleared : c.running = false) (polled : run ClientTransport.step c cs = some d) :
    (es.countP ServerTransport.Event.isWork ≤ 2 ∧
      (u.worker ≠ .exited → (ServerTransport.step u .work).isSome = true) ∧
      ∃ own v, (∀ e ∈ own, e.isWork = true) ∧ run ServerTransport.step u own = some v ∧
        v.worker = .exited) ∧
    (cs.countP ClientTransport.Event.isPollThread ≤ 3 ∧
      (d.poll ≠ .exited → ∃ e : ClientTransport.Event, e.isPollThread = true ∧
        (ClientTransport.step d e).isSome = true) ∧
      ∃ own v, (∀ e ∈ own, e.isPollThread = true) ∧ run ClientTransport.step d own = some v ∧
        v.poll = .exited) := by
  constructor
  · have closing : ServerTransport.Closing t := by
      simp only [ServerTransport.step, stopped, Bool.false_eq_true, if_false,
        Option.some.injEq] at woke
      subst t
      exact ⟨stopped, fun _ => by simp [ServerTransport.State.complete]⟩
    have winds := ServerTransport.winds_up
    have after := run_invariant winds.kept closing reached
    refine ⟨?_, ?_, ?_⟩
    · have bound := winds.steps_le closing reached
      have most := ServerTransport.remaining_le_two t.worker
      omega
    · intro busy
      obtain ⟨e, mine, moves⟩ :=
        winds.enabled u after fun done => busy ((ServerTransport.remaining_eq_zero_iff _).mp done)
      cases e with
      | work => exact moves
      | _ => simp [ServerTransport.Event.isWork] at mine
    · obtain ⟨own, v, all, ended, done⟩ := winds.ends after
      exact ⟨own, v, all, ended, (ServerTransport.remaining_eq_zero_iff _).mp done⟩
  · have winds := ClientTransport.winds_up
    have after := run_invariant winds.kept cleared polled
    refine ⟨?_, ?_, ?_⟩
    · have bound := winds.steps_le cleared polled
      have most := ClientTransport.remaining_le_three c.poll
      omega
    · intro busy
      exact winds.enabled d after fun done =>
        busy ((ClientTransport.remaining_eq_zero_iff _).mp done)
    · obtain ⟨own, v, all, ended, done⟩ := winds.ends after
      exact ⟨own, v, all, ended, (ClientTransport.remaining_eq_zero_iff _).mp done⟩

/-- Both threads wait when they are stopped, and a datagram still arrives. -/
theorem destructors_join_waiting :
    ∃ t u d, ServerTransport.step
        { ServerTransport.start with running := false, worker := .waiting, reads := 1 } .wake =
          some t ∧
      run ServerTransport.step t [.work, .readCompletes (some [7])] = some u ∧
      u.worker = .woken ⟨true, none⟩ ∧
      run ClientTransport.step { ClientTransport.start with running := false, poll := .waiting }
        [.timeout] = some d ∧ d.poll = .looping ∧
      (([.work, .readCompletes (some [7])] : List ServerTransport.Event).countP
          ServerTransport.Event.isWork ≤ 2 ∧
        (u.worker ≠ .exited → (ServerTransport.step u .work).isSome = true) ∧
        ∃ own v, (∀ e ∈ own, e.isWork = true) ∧ run ServerTransport.step u own = some v ∧
          v.worker = .exited) ∧
      (([.timeout] : List ClientTransport.Event).countP ClientTransport.Event.isPollThread ≤ 3 ∧
        (d.poll ≠ .exited → ∃ e : ClientTransport.Event, e.isPollThread = true ∧
          (ClientTransport.step d e).isSome = true) ∧
        ∃ own v, (∀ e ∈ own, e.isPollThread = true) ∧ run ClientTransport.step d own = some v ∧
          v.poll = .exited) := by
  obtain ⟨t, woke⟩ : ∃ t, ServerTransport.step
      { ServerTransport.start with running := false, worker := .waiting, reads := 1 } .wake =
        some t := ⟨_, rfl⟩
  have woken := woke
  cases woken
  exact ⟨_, _, _, woke, rfl, rfl, rfl, rfl, destructors_join _ _ rfl woke rfl
    (c := { ClientTransport.start with running := false, poll := .waiting }) rfl rfl⟩

end UltraDisplay
