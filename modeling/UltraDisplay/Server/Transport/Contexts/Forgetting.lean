import UltraDisplay.Server.Transport.Contexts
import Mathlib.Data.List.InsertIdx

/-! The contexts forgotten, what is left is the transport that posts in one step: where
WSARecv is accepted, each step of the one is a step of the other or none. -/
namespace UltraDisplay.ServerTransport.Contexts
open Ledger Transition
variable {s t : State} {entries : List (Entry Nat)} {index : Nat}

def Completion.forget (completion : Completion) : ServerTransport.Completion :=
  ⟨completion.res, completion.overlapped.map fun ctx => ⟨ctx.isRead, ctx.buffer⟩⟩

def Worker.forget : Worker → ServerTransport.Worker
  | .looping | .deleting _ => .looping
  | .waiting => .waiting
  | .woken completion => .woken completion.forget
  | .rearming _ | .reposting .. => .rearming
  | .exited _ => .exited

def State.forget (s : State) : ServerTransport.State where
  running := s.running
  initReturned := s.initReturned
  worker := s.worker.forget
  reads := s.reads.length
  writes := s.writes.map Context.buffer
  port := s.port.map Completion.forget
  queue := s.queue
  currentSpanBuffer := s.currentSpanBuffer
  bytesReceived := s.bytesReceived
  bytesSent := s.bytesSent

/-- Reads are with WSARecv and writes with WSASend. -/
structure Typed (s : State) : Prop where
  posting : ∀ ctx ∈ s.posting, ctx.isRead = true
  unaccepted : s.initReturned = true → s.posting = none
  sending : ∀ ctx ∈ s.sending, ctx.isRead = false ∧ ctx.buffer.length ≤ bufferSize
  reads : ∀ ctx ∈ s.reads, ctx.isRead = true
  writes : ∀ ctx ∈ s.writes, ctx.isRead = false
  reposting : ∀ ctx posted, s.worker = .reposting ctx posted → posted.isRead = true

def Event.Accepted (e : Event) : Prop := e ≠ .initSubmits false ∧ e ≠ .work false

/-- A step that the transport takes too, or one that it does not see. -/
def Follows (s t : State) : Prop :=
  t.forget = s.forget ∨ ∃ e, ServerTransport.step s.forget e = some t.forget

theorem handle_forget (s : State) (completion : Completion) :
    (s.handle completion).1.forget = s.forget.handle completion.forget := by
  obtain ⟨res, overlapped⟩ := completion
  unfold State.handle ServerTransport.State.handle
  cases running : s.running with
  | false => simp [State.forget, running, Worker.forget]
  | true =>
    cases overlapped with
    | none => cases res <;> simp [State.forget, running, Worker.forget, Completion.forget]
    | some ctx =>
      cases res with
      | false => simp [State.forget, running, Worker.forget, Completion.forget]
      | true =>
        simp only [Bool.not_true, Bool.false_eq_true, if_false, Completion.forget, Option.map_some]
        split <;> simp_all [State.forget, Worker.forget]

theorem handle_typed (typed : Typed s) (completion : Completion) : Typed (s.handle completion).1 := by
  unfold State.handle
  split
  · exact { typed with reposting := by simp }
  · split
    · exact { typed with reposting := by simp }
    · split
      · exact { typed with reposting := by simp }
      · split <;> exact { typed with reposting := by simp }

theorem work_follows (typed : Typed s) (moved : s.work true = some (t, entries)) :
    Typed t ∧ Follows s t := by
  unfold State.work at moved
  cases worker : s.worker with
  | looping =>
    simp only [worker] at moved
    cases Option.some.inj moved
    cases running : s.running with
    | false =>
      refine ⟨{ typed with reposting := by simp }, .inr ⟨.work, ?_⟩⟩
      simp [ServerTransport.step, ServerTransport.State.work, State.forget, worker, running,
        Worker.forget]
    | true =>
      refine ⟨{ typed with reposting := by simp }, .inr ⟨.work, ?_⟩⟩
      simp [ServerTransport.step, ServerTransport.State.work, State.forget, worker, running,
        Worker.forget]
  | waiting =>
    simp only [worker] at moved
    cases port : s.port with
    | nil => simp [port] at moved
    | cons completion rest =>
      simp only [port] at moved
      cases Option.some.inj moved
      refine ⟨{ typed with reposting := by simp }, .inr ⟨.work, ?_⟩⟩
      simp [ServerTransport.step, ServerTransport.State.work, State.forget, worker, port,
        Worker.forget]
  | woken completion =>
    simp only [worker] at moved
    have next : (s.handle completion).1 = t := congrArg Prod.fst (Option.some.inj moved)
    rw [← next]
    refine ⟨handle_typed typed completion, .inr ⟨.work, ?_⟩⟩
    rw [handle_forget]
    simp [ServerTransport.step, ServerTransport.State.work, State.forget, worker, Worker.forget]
  | rearming ctx =>
    simp only [worker] at moved
    cases Option.some.inj moved
    refine ⟨{ typed with reposting := ?_ }, .inl ?_⟩
    · rintro _ posted ⟨⟩
      rfl
    · simp [State.forget, worker, Worker.forget]
  | reposting ctx posted =>
    simp only [worker] at moved
    cases Option.some.inj moved
    refine ⟨{ typed with reads := ?_, reposting := by simp }, .inr ⟨.work, ?_⟩⟩
    · intro other mem
      rcases List.mem_append.mp mem with mem | mem
      · exact typed.reads other mem
      · cases List.mem_singleton.mp mem
        exact typed.reposting ctx posted worker
    · simp [ServerTransport.step, ServerTransport.State.work, ServerTransport.State.postReceive,
        State.forget, worker, Worker.forget]
  | deleting ctx =>
    simp only [worker] at moved
    cases Option.some.inj moved
    refine ⟨{ typed with reposting := by simp }, .inl ?_⟩
    simp [State.forget, worker, Worker.forget]
  | exited abandoned => simp [worker] at moved

theorem sendSubmits_follows (typed : Typed s) (accepted : Bool)
    (moved : s.sendSubmits index accepted = some (t, entries)) : Typed t ∧ Follows s t := by
  unfold State.sendSubmits at moved
  cases taken : s.sending[index]? with
  | none => simp [taken] at moved
  | some ctx =>
    simp only [taken] at moved
    obtain ⟨isWrite, short⟩ := typed.sending ctx (List.mem_of_getElem? taken)
    have others : ∀ other ∈ s.sending.eraseIdx index,
        other.isRead = false ∧ other.buffer.length ≤ bufferSize :=
      fun other mem => typed.sending other (List.mem_of_mem_eraseIdx mem)
    cases accepted with
    | false =>
      cases Option.some.inj moved
      exact ⟨{ typed with sending := others }, .inl rfl⟩
    | true =>
      cases Option.some.inj moved
      refine ⟨{ typed with sending := others, writes := ?_ }, .inr ⟨.send ctx.buffer true, ?_⟩⟩
      · intro other mem
        rcases List.mem_append.mp mem with mem | mem
        · exact typed.writes other mem
        · cases List.mem_singleton.mp mem
          exact isWrite
      · simp [ServerTransport.step, ServerTransport.State.send, State.forget,
          List.take_of_length_le short]

theorem readCompletes_follows (typed : Typed s) (datagram : Option (List UInt8))
    (moved : s.readCompletes index datagram = some (t, entries)) : Typed t ∧ Follows s t := by
  unfold State.readCompletes at moved
  cases taken : s.reads[index]? with
  | none => simp [taken] at moved
  | some ctx =>
    simp only [taken] at moved
    have isRead := typed.reads ctx (List.mem_of_getElem? taken)
    obtain ⟨bound, _⟩ := List.getElem?_eq_some_iff.mp taken
    have others : ∀ other ∈ s.reads.eraseIdx index, other.isRead = true :=
      fun other mem => typed.reads other (List.mem_of_mem_eraseIdx mem)
    have nonzero : s.reads.length ≠ 0 := by omega
    have one := List.length_eraseIdx_of_lt bound
    cases datagram with
    | none =>
      cases Option.some.inj moved
      refine ⟨{ typed with reads := others }, .inr ⟨.readCompletes none, ?_⟩⟩
      simp [ServerTransport.step, ServerTransport.State.complete, State.forget, Completion.forget,
        isRead, one, nonzero]
    | some data =>
      dsimp only at moved
      split at moved
      case isTrue => cases moved
      case isFalse fits =>
        cases Option.some.inj moved
        refine ⟨{ typed with reads := others }, .inr ⟨.readCompletes (some data), ?_⟩⟩
        simp [ServerTransport.step, ServerTransport.State.complete, State.forget, Completion.forget,
          isRead, one, nonzero, fits]

theorem writeCompletes_follows (typed : Typed s) (succeeded : Bool)
    (moved : s.writeCompletes index succeeded = some (t, entries)) : Typed t ∧ Follows s t := by
  unfold State.writeCompletes at moved
  cases taken : s.writes[index]? with
  | none => simp [taken] at moved
  | some ctx =>
    simp only [taken] at moved
    have isWrite := typed.writes ctx (List.mem_of_getElem? taken)
    have others : ∀ other ∈ s.writes.eraseIdx index, other.isRead = false :=
      fun other mem => typed.writes other (List.mem_of_mem_eraseIdx mem)
    cases Option.some.inj moved
    refine ⟨{ typed with writes := others }, .inr ⟨.writeCompletes index succeeded, ?_⟩⟩
    simp [ServerTransport.step, ServerTransport.State.complete, State.forget, Completion.forget,
      taken, isWrite, List.eraseIdx_map]

theorem move_follows (typed : Typed s) {e : Event} (accepted : e.Accepted)
    (moved : s.move e = some (t, entries)) : Typed t ∧ Follows s t := by
  cases e with
  | work answer =>
    have answered : answer = true := by
      cases answer
      · exact absurd rfl accepted.2
      · rfl
    subst answered
    exact work_follows typed moved
  | sendSubmits index accepted => exact sendSubmits_follows typed _ moved
  | readCompletes index datagram => exact readCompletes_follows typed datagram moved
  | writeCompletes index succeeded => exact writeCompletes_follows typed succeeded moved
  | initNews =>
    simp only [State.move] at moved
    split at moved <;> cases moved
    rename_i free
    refine ⟨{ typed with posting := ?_, unaccepted := ?_ }, .inl rfl⟩
    · rintro _ ⟨⟩
      rfl
    · exact fun returned => absurd (.inl returned) free
  | initSubmits answer =>
    simp only [State.move] at moved
    cases posting : s.posting with
    | none => simp [posting] at moved
    | some ctx =>
      simp only [posting] at moved
      cases answer with
      | false => exact absurd rfl accepted.1
      | true =>
        cases Option.some.inj moved
        have returned : s.initReturned = false := by
          by_contra returned
          have none := typed.unaccepted (by simpa using returned)
          simp [none] at posting
        refine ⟨{ typed with posting := by simp, unaccepted := fun _ => rfl, reads := ?_ },
          .inr ⟨.initPostsReceive, ?_⟩⟩
        · intro other mem
          rcases List.mem_append.mp mem with mem | mem
          · exact typed.reads other mem
          · cases List.mem_singleton.mp mem
            exact typed.posting ctx posting
        · simp [ServerTransport.step, ServerTransport.State.postReceive, State.forget, returned]
  | sendNews payload =>
    cases Option.some.inj moved
    refine ⟨{ typed with sending := ?_ }, .inl rfl⟩
    intro other mem
    rcases List.mem_append.mp mem with mem | mem
    · exact typed.sending other mem
    · cases List.mem_singleton.mp mem
      exact ⟨rfl, List.length_take_le ..⟩
  | receive =>
    simp only [State.move] at moved
    split at moved
    case h_1 => cases moved
    case h_2 queue =>
      cases Option.some.inj moved
      refine ⟨{ typed with }, .inr ⟨.receive, ?_⟩⟩
      simp [ServerTransport.step, State.forget, queue]
  | stop =>
    cases Option.some.inj moved
    exact ⟨{ typed with }, .inr ⟨.stop, rfl⟩⟩
  | wake =>
    simp only [State.move] at moved
    split at moved
    case isTrue => cases moved
    case isFalse stopped =>
      cases Option.some.inj moved
      refine ⟨{ typed with }, .inr ⟨.wake, ?_⟩⟩
      simp [ServerTransport.step, ServerTransport.State.complete, State.forget, Completion.forget,
        stopped]

/-- Where WSARecv is accepted, a run of the contexts is one of the transport. -/
theorem run_forget (events : List Event) (accepted : ∀ e ∈ events, e.Accepted)
    (reached : run step {} events = some t) :
    ∃ others, run ServerTransport.step ServerTransport.start others = some t.forget := by
  have typed : Typed {} := by constructor <;> simp
  have follows (s : State) (e : Event) (t : State) (typed : Typed s) (accepted : e.Accepted)
      (stepped : step s e = some t) : Typed t ∧ Follows s t := by
    obtain ⟨⟨_, entries⟩, moved, rfl⟩ := Option.map_eq_some_iff.mp stepped
    exact move_follows typed accepted moved
  exact run_stutters follows (Guarded.of_forall accepted) typed reached

end UltraDisplay.ServerTransport.Contexts
