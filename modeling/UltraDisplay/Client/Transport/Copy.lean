import UltraDisplay.Client.Transport

/-! The copy out of the receive buffers. A read scatters its datagram over all 64 of
them, while the loop copies as many bytes from the first one on. -/
namespace UltraDisplay.ClientTransport
open Transition

def Event.isArrival : Event → Bool
  | .arrives _ _ => true
  | _ => false

/-- The datagram is still in the client's first buffer. -/
def Kept (datagram : List UInt8) (client : State) : Prop :=
  client.buffers.first.take datagram.length = datagram

instance (datagram : List UInt8) (client : State) : Decidable (Kept datagram client) :=
  inferInstanceAs (Decidable (_ = _))

/-- A datagram has arrived some time ago, and the poll thread is about to take its
completion. -/
structure Awaited (datagram : List UInt8) (client : State) : Prop where
  arrived : ∃ s index landed during,
    step s (.arrives index datagram) = some landed ∧ run step landed during = some client
  waiting : client.poll = .waiting
  next : client.completed.head? = some ⟨datagram.length, .read (some datagram)⟩

/-- The loop has stayed inside the buffer and queued the datagram. -/
def Received (s : State) (datagram : List UInt8) (t : State) : Prop :=
  t.overread = s.overread ∧ t.queue = s.queue ++ [datagram]

variable {s t u : State} {e : Event} {during : List Event} {datagram : List UInt8}

theorem run_buffers (quiet : ∀ e ∈ during, e.isArrival = false)
    (reached : run step s during = some t) : t.buffers = s.buffers := by
  have guarded : Guarded step (fun _ e => e.isArrival = false) s during := Guarded.of_forall quiet
  refine run_guarded (I := fun u => u.buffers = s.buffers) ?_ guarded rfl reached
  intro u e v same other stepped
  have elsewhere : e.brought = none := by
    cases e with
    | arrives => cases other
    | _ => rfl
  have buffers := (step_writes stepped).2.1
  rw [elsewhere] at buffers
  exact buffers.trans same

/-- What has arrived is kept until something else arrives. -/
theorem kept_until_arrival (short : datagram.length ≤ 2048)
    (arrived : step s (.arrives index datagram) = some t)
    (quiet : ∀ e ∈ during, e.isArrival = false) (reached : run step t during = some u) :
    Kept datagram u := by
  rw [Kept, run_buffers quiet reached, (step_writes arrived).2.1]
  exact s.buffers.fill_first short

theorem reap_received_iff (filled : datagram ≠ []) :
    Received s datagram (s.reap datagram.length) ↔ datagram.length ≤ 2048 ∧ Kept datagram s := by
  have positive : (0 : Int) < datagram.length := by
    exact_mod_cast List.length_pos_iff.mpr filled
  rw [State.reap, if_pos positive, Int.toNat_natCast, RecvBuffers.copy]
  by_cases short : datagram.length ≤ 2048
  · rw [if_pos short]
    have queued : s.queue ++ [s.buffers.first.take datagram.length] = s.queue ++ [datagram] ↔
        Kept datagram s := by
      rw [List.append_cancel_left_eq, List.cons.injEq]
      exact and_iff_left rfl
    constructor
    · rintro ⟨_, same⟩
      exact ⟨short, queued.mp same⟩
    · rintro ⟨_, kept⟩
      exact ⟨rfl, queued.mpr kept⟩
  · rw [if_neg short]
    refine iff_of_false ?_ fun both => short both.1
    rintro ⟨_, queued⟩
    change s.queue = s.queue ++ [datagram] at queued
    have longer := congrArg List.length queued
    rw [List.length_append, List.length_singleton] at longer
    omega

/-- Whatever has happened since it arrived: a datagram is received precisely when it
fits the first buffer and is still in it. -/
theorem received_iff_kept (filled : datagram ≠ []) (awaited : Awaited datagram u) (sqe : Bool) :
    ∃ v, step u (.poll sqe) = some v ∧
      (Received u datagram v ↔ datagram.length ≤ 2048 ∧ Kept datagram u) := by
  obtain ⟨completed, next⟩ := List.head?_eq_some_iff.mp awaited.next
  refine ⟨({ u with completed }).reap datagram.length, ?_, ?_⟩
  · simp only [step, State.pollLoop, awaited.waiting, next]
  · exact reap_received_iff (s := { u with completed }) filled

/-- Two bytes that nothing disturbs, and two that a second datagram writes over
before the loop looks: the completion of a send has left two reads outstanding. -/
theorem received_iff_kept_two :
    (∃ u v, Kept [1, 2] u ∧ step u (.poll true) = some v ∧
      (Received u [1, 2] v ↔ [1, 2].length ≤ 2048 ∧ Kept [1, 2] u)) ∧
    ∃ es u v, run step start es = some u ∧ ¬ Kept [1, 2] u ∧ step u (.poll true) = some v ∧
      (Received u [1, 2] v ↔ [1, 2].length ≤ 2048 ∧ Kept [1, 2] u) := by
  constructor
  · have awaited : Awaited [1, 2] _ := ⟨⟨start, 0, _, [.poll true], rfl, rfl⟩, rfl, rfl⟩
    obtain ⟨v, taken, received⟩ := received_iff_kept (List.cons_ne_nil _ _) awaited true
    exact ⟨_, v, by decide +kernel, taken, received⟩
  · let armed : List Event :=
      [.send 0 1 true, .sendCompletes 1, .poll true, .poll true, .poll true]
    have awaited : Awaited [1, 2] _ :=
      ⟨⟨(run step start armed).get rfl, 0, _, [.arrives 0 [3], .poll true], rfl, rfl⟩, rfl, rfl⟩
    obtain ⟨v, taken, received⟩ := received_iff_kept (List.cons_ne_nil _ _) awaited true
    exact ⟨armed ++ [.arrives 0 [1, 2], .arrives 0 [3], .poll true], _, v, rfl,
      by decide +kernel, taken, received⟩

/-- A datagram of 2049 bytes has its last one in the second buffer. -/
theorem datagram_overreads : ¬ ∀ (s t u v : State) (index : Nat) (datagram : List UInt8)
    (during : List Event) (completed : List Completion) (sqe : Bool),
    step s (.arrives index datagram) = some t → datagram ≠ [] →
    (∀ e ∈ during, e.isArrival = false) → run step t during = some u → u.poll = .waiting →
    u.completed = ⟨datagram.length, .read (some datagram)⟩ :: completed →
    step u (.poll sqe) = some v → Received u datagram v := by
  intro claim
  obtain ⟨long, size⟩ : ∃ long : List UInt8, long.length = 2049 :=
    ⟨List.replicate 2049 7, List.length_replicate⟩
  have filled : long ≠ [] := List.ne_nil_of_length_pos (by omega)
  have arrived : step start (.arrives 0 long) =
      some
        { start.complete 0 ⟨long.length, .read (some long)⟩ with
          buffers := start.buffers.fill long
          delivered := start.delivered ++ [long] } := by
    have fits : long.length ≤ 65507 := by omega
    simp only [step, start, State.submitRecvMultishot, if_true, List.nil_append,
      List.getElem?_cons_zero, fits]
  have received := claim start _ _ _ 0 long [.poll true] [] true arrived filled (by decide) rfl rfl
    rfl rfl
  have short := ((reap_received_iff filled).mp received).1
  omega

end UltraDisplay.ClientTransport
