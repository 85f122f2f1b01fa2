import Mathlib.Data.List.Perm.Basic
import UltraDisplay.Library.Memory
import UltraDisplay.Library.Transition

/-! The receive path of client/network/client_transport.cpp. The poll thread, the
callers of `send` and `receive` and the kernel take steps in any order. A
completion carries its operation only as a ghost: the loop sees `res` alone. A send
leaves the ring the caller's pointer, which the kernel thread of the ring reads
after `send` has returned. -/
namespace UltraDisplay.ClientTransport
open Transition

/-- A vectored read fills the buffers in order. -/
def scatter : List (List UInt8) → List UInt8 → List (List UInt8)
  | [], _ => []
  | buffer :: buffers, datagram =>
    (datagram.take buffer.length ++ buffer.drop datagram.length) ::
      scatter buffers (datagram.drop buffer.length)

theorem scatter_lengths (buffers : List (List UInt8)) (datagram : List UInt8) :
    (scatter buffers datagram).map List.length = buffers.map List.length := by
  induction buffers generalizing datagram with
  | nil => rfl
  | cons buffer buffers ih =>
    simp only [scatter, List.map_cons, ih, List.length_append, List.length_take, List.length_drop]
    congr 1
    omega

/-- The 64 buffers of 2048 bytes behind `iovecs_`. -/
structure RecvBuffers where
  slots : List (List UInt8)
  sizes : slots.map List.length = List.replicate 64 2048

namespace RecvBuffers

def fresh : RecvBuffers where
  slots := List.replicate 64 (List.replicate 2048 0)
  sizes := by rw [List.map_replicate, List.length_replicate]

def fill (buffers : RecvBuffers) (datagram : List UInt8) : RecvBuffers where
  slots := scatter buffers.slots datagram
  sizes := (scatter_lengths _ _).trans buffers.sizes

/-- The memory at `iovecs_[0].iov_base`. -/
def first (buffers : RecvBuffers) : List UInt8 := buffers.slots.headD []

theorem first_length (buffers : RecvBuffers) : buffers.first.length = 2048 := by
  obtain ⟨slots, sizes⟩ := buffers
  cases slots with
  | nil => simp at sizes
  | cons slot slots =>
    simp only [List.map_cons, List.replicate_succ, List.cons.injEq] at sizes
    exact sizes.1

theorem fill_first (buffers : RecvBuffers) (short : datagram.length ≤ 2048) :
    (buffers.fill datagram).first.take datagram.length = datagram := by
  have length := buffers.first_length
  obtain ⟨slots, sizes⟩ := buffers
  cases slots with
  | nil => simp at sizes
  | cons slot slots =>
    have same : slot.length = 2048 := length
    simp [fill, first, scatter, same, short]

/-- `vector(base, base + count)`, unless it leaves the first buffer. -/
def copy (buffers : RecvBuffers) (count : Nat) : Option (List UInt8) :=
  if count ≤ 2048 then some (buffers.first.take count) else none

end RecvBuffers

/-- An entry the ring has taken: a send has the span that its caller passed. -/
inductive Operation where
  | read
  | send (address size : Nat)
  deriving DecidableEq

/-- The datagram a send makes of the memory when the kernel carries it out. -/
def Operation.bytes (memory : Memory UInt8) : Operation → Option (List UInt8)
  | .read => none
  | .send address size => some (memory.load address size)

/-- The operation a completion belongs to, with the datagram a read brought. -/
inductive Origin where
  | read (datagram : Option (List UInt8))
  | send
  deriving DecidableEq

structure Completion where
  res : Int
  origin : Origin
  deriving DecidableEq

/-- Where the poll thread stands in `poll_loop`. -/
inductive Poll where
  | looping
  | waiting
  | rearming
  | exited
  deriving DecidableEq

structure State where
  running : Bool := true
  poll : Poll := .looping
  /-- The memory of the callers, which their payloads are spans of. -/
  memory : Memory UInt8 := fun _ => 0
  outstanding : List Operation := []
  completed : List Completion := []
  buffers : RecvBuffers := .fresh
  /-- The copy out of the first buffer ran past its end. -/
  overread : Bool := false
  queue : List (List UInt8) := []
  currentSpanBuffer : List UInt8 := []
  bytesReceived : UInt64 := 0
  bytesSent : UInt64 := 0
  /-- Ghosts: the datagrams the kernel handed to reads, and what `receive` returned. -/
  delivered : List (List UInt8) := []
  returned : List (List UInt8) := []

inductive Event where
  | poll (sqe : Bool)
  | timeout
  | store (address : Nat) (bytes : List UInt8)
  | send (address size : Nat) (sqe : Bool)
  | receive
  | arrives (index : Nat) (datagram : List UInt8)
  | sendCompletes (index : Nat)
  | fails (index : Nat) (error : Nat)
  | stop
  deriving DecidableEq

/-- `sqe` says whether `io_uring_get_sqe` finds a free entry. -/
def State.submitRecvMultishot (s : State) (sqe : Bool) : State :=
  if sqe then { s with outstanding := s.outstanding ++ [.read] } else s

/-- `init` has set the ring up and created the poll thread. -/
def start : State := ({} : State).submitRecvMultishot true

/-- The loop body from the completion up to `io_uring_cqe_seen`. -/
def State.reap (s : State) (res : Int) : State :=
  if 0 < res then
    match s.buffers.copy res.toNat with
    | none => { s with overread := true, poll := .exited }
    | some data =>
      { s with
        bytesReceived := s.bytesReceived + UInt64.ofNat res.toNat
        queue := s.queue ++ [data]
        poll := .rearming }
  else { s with poll := .rearming }

/-- The next step of the poll thread. -/
def State.pollLoop (s : State) (sqe : Bool) : Option State :=
  match s.poll with
  | .looping => some { s with poll := if s.running then .waiting else .exited }
  | .waiting =>
    match s.completed with
    | [] => none
    | completion :: completed => some ({ s with completed }.reap completion.res)
  | .rearming => some { s.submitRecvMultishot sqe with poll := .looping }
  | .exited => none

/-- `io_uring_prep_send` is given `payload.data()` and `payload.size()`. -/
def State.send (s : State) (address size : Nat) (sqe : Bool) : State :=
  if sqe then
    { s with
      outstanding := s.outstanding ++ [.send address size]
      bytesSent := s.bytesSent + UInt64.ofNat size }
  else s

def State.complete (s : State) (index : Nat) (completion : Completion) : State :=
  { s with
    outstanding := s.outstanding.eraseIdx index
    completed := s.completed ++ [completion] }

def step (s : State) : Event → Option State
  | .poll sqe => s.pollLoop sqe
  | .timeout => if s.poll = .waiting then some { s with poll := .looping } else none
  | .store address bytes => some { s with memory := s.memory.store address bytes }
  | .send address size sqe => some (s.send address size sqe)
  | .receive =>
    match s.queue with
    | [] => none
    | data :: queue =>
      some { s with queue, currentSpanBuffer := data, returned := s.returned ++ [data] }
  | .arrives index datagram =>
    match s.outstanding[index]? with
    | some .read =>
      if datagram.length ≤ 65507 then
        some
          { s.complete index ⟨datagram.length, .read (some datagram)⟩ with
            buffers := s.buffers.fill datagram
            delivered := s.delivered ++ [datagram] }
      else none
    | _ => none
  | .sendCompletes index =>
    match s.outstanding[index]? with
    | some (.send _ size) => some (s.complete index ⟨size, .send⟩)
    | _ => none
  | .fails index error =>
    match s.outstanding[index]? with
    | some .read => some (s.complete index ⟨-error, .read none⟩)
    | some (.send _ _) => some (s.complete index ⟨-error, .send⟩)
    | none => none
  | .stop => some { s with running := false }

def Completion.datagram (completion : Completion) : Option (List UInt8) :=
  match completion.origin with
  | .read datagram => datagram
  | .send => none

def Completion.isRead (completion : Completion) : Bool :=
  match completion.origin with
  | .read _ => true
  | .send => false

/-- Datagrams delivered to reads whose completion the loop has not reached. -/
def State.awaiting (s : State) : List (List UInt8) := s.completed.filterMap Completion.datagram

/-- The loop passes on the delivered datagrams and nothing else, in order. -/
structure Faithful (s : State) : Prop where
  received : s.returned ++ s.queue ++ s.awaiting = s.delivered
  counted : s.bytesReceived = UInt64.ofNat (s.returned ++ s.queue).flatten.length
  single : s.outstanding.count .read ≤ 1
  inBounds : s.overread = false

def Event.Short : Event → Prop
  | .arrives _ datagram => datagram.length ≤ 2048
  | _ => True

def Event.isPoll : Event → Bool
  | .poll _ => true
  | _ => false

/-- A completion the loop takes is a read's, and its datagram is not empty. -/
def TakesRead (s : State) (e : Event) : Prop :=
  e.isPoll = true → s.poll = .waiting →
    ∀ completion ∈ s.completed.head?, completion.isRead = true ∧ completion.datagram ≠ some []

instance (s : State) (e : Event) : Decidable (TakesRead s e) := by
  unfold TakesRead
  infer_instance

def Poll.owes : Poll → Nat
  | .rearming => 1
  | _ => 0

/-- Reads in flight, completed, or about to be submitted by the poll thread. -/
def State.reads (s : State) : Nat :=
  s.outstanding.count .read + s.completed.countP Completion.isRead + s.poll.owes

/-- A completion of a read agrees with the first buffer. -/
def Stored (buffers : RecvBuffers) (completion : Completion) : Prop :=
  match completion.origin with
  | .read (some datagram) =>
    completion.res = datagram.length ∧ datagram.length ≤ 2048 ∧
      buffers.first.take datagram.length = datagram
  | .read none => completion.res ≤ 0
  | .send => True

structure Inv (s : State) : Prop extends Faithful s where
  oneRead : s.reads ≤ 1
  stored : ∀ completion ∈ s.completed, Stored s.buffers completion

variable {s t : State} {e : Event} {index : Nat} {completion : Completion}

theorem complete_reads (pending : s.outstanding[index]? = some operation)
    (same : completion.isRead = true ↔ operation = .read) :
    (s.complete index completion).reads = s.reads := by
  obtain ⟨bound, here⟩ := List.getElem?_eq_some_iff.mp pending
  have counts := (List.getElem_cons_eraseIdx_perm bound).count_eq Operation.read
  rw [here] at counts
  cases operation with
  | read =>
    simp only [List.count_cons_self] at counts
    simp only [State.reads, State.complete, List.countP_append, List.countP_singleton,
      same.mpr rfl, if_true]
    omega
  | send address size =>
    have other : completion.isRead = false := by
      cases read : completion.isRead with
      | false => rfl
      | true => cases same.mp read
    have distinct : Operation.send address size ≠ .read := by simp
    rw [List.count_cons_of_ne distinct] at counts
    simp [State.reads, State.complete, other, counts]

theorem start_inv : Inv start where
  received := rfl
  counted := rfl
  single := by decide
  inBounds := rfl
  oneRead := by decide
  stored := by simp [start, State.submitRecvMultishot]

theorem reap_read (stored : Stored s.buffers completion)
    (taken : completion.isRead = true ∧ completion.datagram ≠ some []) :
    (completion.datagram = none ∧ s.reap completion.res = { s with poll := .rearming }) ∨
      ∃ datagram, completion.datagram = some datagram ∧
        s.reap completion.res =
          { s with
            bytesReceived := s.bytesReceived + UInt64.ofNat datagram.length
            queue := s.queue ++ [datagram]
            poll := .rearming } := by
  obtain ⟨res, origin⟩ := completion
  obtain ⟨read, full⟩ := taken
  cases origin with
  | send => contradiction
  | read datagram =>
    cases datagram with
    | none =>
      have failed : ¬ 0 < res := Int.not_lt.mpr stored
      exact Or.inl ⟨rfl, by simp [State.reap, failed]⟩
    | some datagram =>
      obtain ⟨size, short, kept⟩ := stored
      have positive : 0 < datagram.length := by
        cases datagram with
        | nil => exact absurd rfl full
        | cons byte bytes => simp
      simp only at size
      subst size
      refine Or.inr ⟨datagram, rfl, ?_⟩
      simp [State.reap, RecvBuffers.copy, positive, short, kept]

theorem take_inv (inv : Inv s) (waits : s.poll = .waiting)
    (queued : s.completed = completion :: completed)
    (taken : completion.isRead = true ∧ completion.datagram ≠ some []) :
    Inv ({ s with completed }.reap completion.res) := by
  have stored := inv.stored
  have received := inv.received
  have reads := inv.oneRead
  simp only [queued, List.mem_cons, forall_eq_or_imp] at stored
  simp only [State.awaiting, queued, List.filterMap_cons] at received
  simp only [State.reads, queued, waits, Poll.owes, List.countP_cons_of_pos taken.1] at reads
  have owed : s.outstanding.count .read + completed.countP Completion.isRead + 1 ≤ 1 := by omega
  obtain ⟨missed, reaped⟩ | ⟨datagram, brought, reaped⟩ :=
    reap_read (s := { s with completed }) stored.1 taken
  · rw [reaped]
    simp only [missed] at received
    exact ⟨⟨received, inv.counted, inv.single, inv.inBounds⟩, owed, stored.2⟩
  · rw [reaped]
    simp only [brought] at received
    refine ⟨⟨?_, ?_, inv.single, inv.inBounds⟩, owed, stored.2⟩
    · simpa [State.awaiting] using received
    · simp [inv.counted, UInt64.add_assoc]

theorem pollLoop_inv (inv : Inv s) (takes : TakesRead s (.poll sqe))
    (stepped : s.pollLoop sqe = some t) : Inv t := by
  unfold State.pollLoop at stepped
  split at stepped <;> rename_i place
  · cases Option.some.inj stepped
    refine ⟨⟨inv.received, inv.counted, inv.single, inv.inBounds⟩, ?_, inv.stored⟩
    have reads := inv.oneRead
    simp only [State.reads, place, Poll.owes] at reads ⊢
    cases s.running <;> exact reads
  · split at stepped
    · contradiction
    · rename_i completion completed queued
      cases Option.some.inj stepped
      exact take_inv inv place queued (takes rfl place completion (by simp [queued]))
  · cases Option.some.inj stepped
    have reads := inv.oneRead
    simp only [State.reads, place, Poll.owes] at reads
    cases sqe with
    | false =>
      refine ⟨⟨inv.received, inv.counted, inv.single, inv.inBounds⟩, ?_, inv.stored⟩
      have fewer : s.outstanding.count .read + s.completed.countP Completion.isRead + 0 ≤ 1 := by
        omega
      exact fewer
    | true =>
      have count : (s.outstanding ++ [Operation.read]).count .read = s.outstanding.count .read + 1 := by
        simp
      refine ⟨⟨inv.received, inv.counted, ?_, inv.inBounds⟩, ?_, inv.stored⟩
      · simp only [State.submitRecvMultishot, if_true, count]
        omega
      · simp only [State.reads, State.submitRecvMultishot, if_true, count, Poll.owes]
        omega
  · contradiction

theorem eraseIdx_count (s : State) (index : Nat) :
    (s.outstanding.eraseIdx index).count .read ≤ s.outstanding.count .read :=
  (List.eraseIdx_sublist _ _).count_le _

theorem complete_inv (inv : Inv s) (pending : s.outstanding[index]? = some operation)
    (same : completion.isRead = true ↔ operation = .read) (none : completion.datagram = none)
    (stored : Stored s.buffers completion) : Inv (s.complete index completion) where
  received := by simpa [State.awaiting, State.complete, none] using inv.received
  counted := inv.counted
  single := (eraseIdx_count s index).trans inv.single
  inBounds := inv.inBounds
  oneRead := (complete_reads pending same).trans_le inv.oneRead
  stored := by
    simp only [State.complete, List.mem_append, List.mem_singleton]
    rintro other (older | rfl)
    · exact inv.stored other older
    · exact stored

/-- The datagram overwrites the first buffer, but no completion still refers to it. -/
theorem arrives_inv (inv : Inv s) (pending : s.outstanding[index]? = some .read)
    (short : datagram.length ≤ 2048) :
    Inv { s.complete index ⟨datagram.length, .read (some datagram)⟩ with
      buffers := s.buffers.fill datagram
      delivered := s.delivered ++ [datagram] } where
  received := by
    simp [State.awaiting, State.complete, Completion.datagram, ← inv.received]
  counted := inv.counted
  single := (eraseIdx_count s index).trans inv.single
  inBounds := inv.inBounds
  oneRead := (complete_reads pending (by simp [Completion.isRead])).trans_le inv.oneRead
  stored := by
    have outstanding : 0 < s.outstanding.count .read :=
      List.count_pos_iff.mpr (List.mem_of_getElem? pending)
    have idle : s.completed.countP Completion.isRead = 0 := by
      have reads := inv.oneRead
      simp only [State.reads] at reads
      omega
    simp only [State.complete, List.mem_append, List.mem_singleton]
    rintro other (older | rfl)
    · have send := List.countP_eq_zero.mp idle other older
      obtain ⟨res, origin⟩ := other
      cases origin with
      | read datagram => exact absurd rfl send
      | send => trivial
    · exact ⟨rfl, short, s.buffers.fill_first short⟩

theorem timeout_inv (inv : Inv s) (waits : s.poll = .waiting) : Inv { s with poll := .looping } := by
  refine ⟨⟨inv.received, inv.counted, inv.single, inv.inBounds⟩, ?_, inv.stored⟩
  have reads := inv.oneRead
  simp only [State.reads, waits, Poll.owes] at reads ⊢
  exact reads

theorem store_inv (inv : Inv s) (memory : Memory UInt8) : Inv { s with memory } :=
  ⟨⟨inv.received, inv.counted, inv.single, inv.inBounds⟩, inv.oneRead, inv.stored⟩

theorem send_inv (inv : Inv s) (address size : Nat) (sqe : Bool) :
    Inv (s.send address size sqe) := by
  cases sqe with
  | false => exact inv
  | true =>
    have count : (s.outstanding ++ [Operation.send address size]).count .read =
        s.outstanding.count .read := by simp
    refine ⟨⟨inv.received, inv.counted, ?_, inv.inBounds⟩, ?_, inv.stored⟩
    · exact count.trans_le inv.single
    · simp only [State.reads, State.send, if_true, count]
      exact inv.oneRead

theorem receive_inv (inv : Inv s) (queued : s.queue = data :: queue) :
    Inv { s with queue, currentSpanBuffer := data, returned := s.returned ++ [data] } := by
  have received := inv.received
  have counted := inv.counted
  rw [queued] at received counted
  refine ⟨⟨?_, ?_, inv.single, inv.inBounds⟩, inv.oneRead, inv.stored⟩
  · simpa [State.awaiting] using received
  · simpa using counted

theorem step_inv (inv : Inv s) (short : e.Short) (takes : TakesRead s e)
    (stepped : step s e = some t) : Inv t := by
  cases e with
  | poll sqe => exact pollLoop_inv inv takes stepped
  | timeout =>
    simp only [step] at stepped
    split at stepped
    · rename_i waits
      cases Option.some.inj stepped
      exact timeout_inv inv waits
    · contradiction
  | store address bytes =>
    cases Option.some.inj stepped
    exact store_inv inv _
  | send address size sqe =>
    cases Option.some.inj stepped
    exact send_inv inv address size sqe
  | receive =>
    simp only [step] at stepped
    split at stepped
    · contradiction
    · rename_i data queue queued
      cases Option.some.inj stepped
      exact receive_inv inv queued
  | arrives index datagram =>
    simp only [step] at stepped
    split at stepped
    · rename_i pending
      split at stepped
      · cases Option.some.inj stepped
        exact arrives_inv inv pending short
      · contradiction
    · contradiction
  | sendCompletes index =>
    simp only [step] at stepped
    split at stepped
    · rename_i pending
      cases Option.some.inj stepped
      exact complete_inv inv pending (by simp [Completion.isRead]) rfl trivial
    · contradiction
  | fails index error =>
    simp only [step] at stepped
    split at stepped
    · rename_i pending
      cases Option.some.inj stepped
      exact complete_inv inv pending (by simp [Completion.isRead]) rfl (by simp [Stored])
    · rename_i pending
      cases Option.some.inj stepped
      exact complete_inv inv pending (by simp [Completion.isRead]) rfl trivial
    · contradiction
  | stop =>
    cases Option.some.inj stepped
    exact ⟨⟨inv.received, inv.counted, inv.single, inv.inBounds⟩, inv.oneRead, inv.stored⟩

/-- What the event has a caller write to its memory. -/
def Event.written (memory : Memory UInt8) : Event → Memory UInt8
  | .store address bytes => memory.store address bytes
  | _ => memory

def Event.brought : Event → Option (List UInt8)
  | .arrives _ datagram => some datagram
  | _ => none

/-- Only a store writes to the memory, and only an arrival to the buffers. -/
theorem step_writes (stepped : step s e = some t) :
    t.memory = e.written s.memory ∧ t.buffers = e.brought.elim s.buffers s.buffers.fill ∧
      t.delivered = s.delivered ++ e.brought.toList := by
  have quiet (u : State) : u.memory = s.memory → u.buffers = s.buffers →
      u.delivered = s.delivered → u.memory = s.memory ∧ u.buffers = s.buffers ∧
        u.delivered = s.delivered ++ [] := by
    intro memory buffers delivered
    exact ⟨memory, buffers, by rw [delivered, List.append_nil]⟩
  cases e with
  | arrives index datagram =>
    simp only [step] at stepped
    split at stepped
    · split at stepped
      · cases Option.some.inj stepped
        exact ⟨rfl, rfl, rfl⟩
      · contradiction
    · contradiction
  | poll sqe =>
    simp only [step, State.pollLoop] at stepped
    apply quiet
    all_goals
      split at stepped
      · cases Option.some.inj stepped
        rfl
      · split at stepped
        · contradiction
        · cases Option.some.inj stepped
          unfold State.reap
          split
          · split <;> rfl
          · rfl
      · cases Option.some.inj stepped
        unfold State.submitRecvMultishot
        split <;> rfl
      · contradiction
  | send address size sqe =>
    cases Option.some.inj stepped
    cases sqe <;> exact quiet _ rfl rfl rfl
  | store address bytes =>
    cases Option.some.inj stepped
    exact ⟨rfl, rfl, (List.append_nil _).symm⟩
  | stop =>
    cases Option.some.inj stepped
    exact quiet _ rfl rfl rfl
  | timeout | receive | sendCompletes | fails =>
    simp only [step] at stepped
    split at stepped
    all_goals first
      | contradiction
      | cases Option.some.inj stepped
        exact quiet _ rfl rfl rfl

/-- While the loop meets completions of reads only, it passes every datagram on. -/
theorem faithful_of_takesRead (es : List Event) (short : ∀ e ∈ es, e.Short)
    (takes : Guarded step TakesRead start es) : Throughout step Faithful start es := by
  intro before t earlier reached
  have fits : Guarded step (fun _ e => e.Short) start es := Guarded.of_forall short
  have both : Guarded step (fun s e => e.Short ∧ TakesRead s e) start es := EveryStep.and fits takes
  exact (run_guarded (fun _ _ _ inv ok => step_inv inv ok.1 ok.2) (both.of_prefix earlier)
    start_inv reached).toFaithful

/-- Two datagrams, with a send that is still in flight. -/
theorem faithful_of_takesRead_two :
    Throughout step Faithful start
      [.store 0 [9], .send 0 1 true, .arrives 0 [1, 2], .poll true, .poll true, .poll true, .receive,
        .arrives 1 [3], .poll true, .poll true, .poll true] :=
  faithful_of_takesRead _ (by simp [Event.Short]) (by decide)

/-- The completion of a send of two bytes is queued as two bytes of the first
buffer, and a second read is submitted. -/
theorem send_received_as_datagram :
    let es : List Event := [.store 0 [7, 7], .send 0 2 true, .sendCompletes 1, .poll true, .poll true, .poll true]
    (run step start es).map (fun s => (s.queue, s.delivered, s.outstanding)) =
      some ([[0, 0]], [], [.read, .read]) ∧
    ¬ Throughout step Faithful start es := by
  intro es
  constructor
  · decide
  · intro faithful
    have single := (faithful.last rfl).single
    revert single
    decide

end UltraDisplay.ClientTransport
