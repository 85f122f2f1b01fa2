import UltraDisplay.Server.Transport
import UltraDisplay.Client.Transport.Copy

/-! A payload on its way between `ServerTransport` and `ClientTransport`. The
network hands over a datagram as it was sent or not at all; the buffers of
1500 bytes at the server and 2048 at the client decide what arrives whole. The
client gives the kernel its caller's own buffer, read after `send` has returned. -/
namespace UltraDisplay.RoundTrip
open Transition
open ClientTransport (Kept)

/-- How the read of the server completes when the datagram arrives: one that is
too long for its buffer is an error. -/
def received (datagram : List UInt8) : Option (List UInt8) :=
  if datagram.length ≤ ServerTransport.bufferSize then some datagram else none

def received.completion (datagram : List UInt8) : ServerTransport.Completion :=
  match received datagram with
  | none => ⟨false, some ⟨true, []⟩⟩
  | some data => ⟨true, some ⟨true, data⟩⟩

/-- The server accepts the payload for sending, the datagram it sends arrives at
the client, and at some later time the poll thread handles its completion. -/
structure ToClient (payload datagram : List UInt8) (before after : ClientTransport.State) :
    Prop extends ClientTransport.Awaited datagram before where
  sent : ∃ server : ServerTransport.State,
    (server.send payload true).writes = server.writes ++ [datagram]
  handled : ∃ sqe, ClientTransport.step before (.poll sqe) = some after

def Holds (payload : List UInt8) (address : Nat) (client : ClientTransport.State) : Prop :=
  client.memory.load address payload.length = payload

/-- The same from the client to the server: `leaving` is the client as the kernel
carries the send out, which may be long after the call. -/
structure ToServer (payload : List UInt8) (address : Nat) (leaving : ClientTransport.State)
    (datagram : List UInt8) (before after : ServerTransport.State) : Prop where
  sent : ∃ client es, Holds payload address client ∧
    run ClientTransport.step client (.send address payload.length true :: es) = some leaving
  leaves : ∃ operation ∈ leaving.outstanding, operation = .send address payload.length ∧
    operation.bytes leaving.memory = some datagram
  arrived : ∃ server landed es,
    ServerTransport.step server (.readCompletes (received datagram)) = some landed ∧
      run ServerTransport.step landed es = some before
  running : before.running = true
  taken : before.worker = .woken (received.completion datagram)
  handled : ServerTransport.step before .work = some after

variable {payload datagram : List UInt8}

theorem sent_server {server : ServerTransport.State}
    (sent : (server.send payload true).writes = server.writes ++ [datagram]) :
    datagram = payload.take ServerTransport.bufferSize := by
  have same := List.append_cancel_left sent
  exact (List.cons.inj same).1.symm

theorem ToServer.found {leaving : ClientTransport.State} {before after : ServerTransport.State}
    (path : ToServer payload address leaving datagram before after) :
    leaving.memory.load address payload.length = datagram := by
  obtain ⟨operation, _, rfl, bytes⟩ := path.leaves
  exact Option.some.inj bytes

theorem ToServer.size {leaving : ClientTransport.State} {before after : ServerTransport.State}
    (path : ToServer payload address leaving datagram before after) :
    datagram.length = payload.length := by
  rw [← path.found, Memory.load_length]

theorem ToClient.queued {before after : ClientTransport.State} (nonempty : 1 ≤ payload.length)
    (path : ToClient payload datagram before after) :
    after.queue = before.queue ++ [before.buffers.first.take datagram.length] := by
  obtain ⟨server, sent⟩ := path.sent
  have same := sent_server sent
  have length : datagram.length ≤ 1500 := by
    rw [same, ServerTransport.bufferSize, List.length_take]
    omega
  have positive : 0 < datagram.length := by
    rw [same, ServerTransport.bufferSize, List.length_take]
    omega
  obtain ⟨sqe, handled⟩ := path.handled
  obtain ⟨rest, completed⟩ := List.head?_eq_some_iff.mp path.next
  have copied : before.buffers.copy datagram.length =
      some (before.buffers.first.take datagram.length) := by
    rw [ClientTransport.RecvBuffers.copy, if_pos (by omega)]
  simp only [ClientTransport.step, ClientTransport.State.pollLoop, path.waiting, completed,
    ClientTransport.State.reap, Int.natCast_pos, positive, if_true, Int.toNat_natCast, copied,
    Option.some.injEq] at handled
  rw [← handled]

theorem ToServer.queued {leaving : ClientTransport.State} {before after : ServerTransport.State}
    (nonempty : 1 ≤ payload.length)
    (path : ToServer payload address leaving datagram before after) :
    after.queue = before.queue ++ (received datagram).toList := by
  have handled := path.handled
  have positive : 0 < datagram.length := nonempty.trans_eq path.size.symm
  simp only [ServerTransport.step, ServerTransport.State.work, path.taken,
    Option.some.injEq] at handled
  rw [← handled]
  unfold received.completion
  cases arrived : received datagram with
  | none => simp [ServerTransport.State.handle, path.running]
  | some data =>
    have whole : data = datagram := by
      unfold received at arrived
      split at arrived
      · exact (Option.some.inj arrived).symm
      · contradiction
    subst whole
    simp [ServerTransport.State.handle, path.running, positive]

/-- The caller's buffer keeps the payload until a caller writes to it. -/
theorem held_until_store {client leaving : ClientTransport.State} {es : List ClientTransport.Event}
    (held : Holds payload address client)
    (separate : ∀ start bytes, .store start bytes ∈ es →
      Memory.Separate address payload.length start bytes.length)
    (reached : run ClientTransport.step client es = some leaving) :
    Holds payload address leaving := by
  have guarded : Guarded ClientTransport.step (fun _ e => ∀ start bytes, e = .store start bytes →
      Memory.Separate address payload.length start bytes.length) client es := by
    apply Guarded.of_forall
    rintro e member start bytes rfl
    exact separate start bytes member
  refine run_guarded ?_ guarded held reached
  intro u e t here outside stepped
  rw [Holds, (ClientTransport.step_writes stepped).1]
  cases e with
  | store start bytes =>
    exact (Memory.load_store_of_separate (outside start bytes rfl)).trans here
  | _ => exact here

theorem received_eq_iff : (received datagram).toList = [payload] ↔
    datagram.length ≤ ServerTransport.bufferSize ∧ datagram = payload := by
  unfold received
  split
  case isTrue short => simp [short]
  case isFalse long => simp [long]

theorem toClient_start (payload : List UInt8) :
    ∃ before after, ToClient payload (payload.take ServerTransport.bufferSize) before after ∧
      Kept (payload.take ServerTransport.bufferSize) before := by
  generalize same : payload.take ServerTransport.bufferSize = datagram
  have length : datagram.length ≤ 1500 := by
    rw [← same, ServerTransport.bufferSize, List.length_take]
    omega
  have arrived : ∃ landed, ClientTransport.step ClientTransport.start (.arrives 0 datagram) =
      some landed ∧ landed.poll = .looping ∧ landed.running = true ∧
      landed.completed = [⟨datagram.length, .read (some datagram)⟩] := by
    refine ⟨_, if_pos (by omega), rfl, rfl, rfl⟩
  obtain ⟨landed, arrived, looping, running, completed⟩ := arrived
  have waits : ClientTransport.step landed (.poll true) =
      some { landed with poll := .waiting } := by
    simp [ClientTransport.step, ClientTransport.State.pollLoop, looping, running]
  have reached : run ClientTransport.step landed [.poll true] =
      some { landed with poll := .waiting } := by
    rw [run_cons, waits]
    rfl
  have handled : ∃ after, ClientTransport.step { landed with poll := .waiting } (.poll true) =
      some after := by
    simp [ClientTransport.step, ClientTransport.State.pollLoop, completed]
  obtain ⟨after, handled⟩ := handled
  refine ⟨_, after, ⟨⟨⟨_, 0, landed, _, arrived, reached⟩, rfl, ?_⟩, ⟨ServerTransport.start, ?_⟩,
    true, handled⟩, ?_⟩
  · rw [completed]
    rfl
  · rw [← same]
    rfl
  · exact ClientTransport.kept_until_arrival (by omega) arrived (by decide) reached

/-- A payload sent to a server with a read posted, while the caller writes other bytes
over it before the kernel takes it. -/
theorem toServer_start (payload bytes : List UInt8) (size : bytes.length = payload.length) :
    ∃ leaving before after, ToServer payload 0 leaving bytes before after := by
  have arrived : ∃ landed, ServerTransport.step { ServerTransport.start with reads := 1 }
      (.readCompletes (received bytes)) = some landed ∧ landed.worker = .looping ∧
      landed.running = true ∧ landed.port = [received.completion bytes] := by
    unfold received.completion received
    split
    case isTrue short =>
      exact ⟨_, if_neg (Nat.not_lt.mpr short), rfl, rfl, rfl⟩
    case isFalse => exact ⟨_, rfl, rfl, rfl, rfl⟩
  obtain ⟨landed, arrived, looping, running, port⟩ := arrived
  have reached : run ServerTransport.step landed [.work, .work] =
      some { landed with port := [], worker := .woken (received.completion bytes) } := by
    simp [run, ServerTransport.step, ServerTransport.State.work, looping, running, port]
  let memory : Memory UInt8 := fun _ => 0
  let given : ClientTransport.State :=
    { ClientTransport.start with memory := memory.store 0 payload }
  have sent : run ClientTransport.step given [.send 0 payload.length true, .store 0 bytes] =
      some { given.send 0 payload.length true with memory := given.memory.store 0 bytes } := rfl
  have held : (memory.store 0 payload).load 0 payload.length = payload := Memory.load_store
  refine ⟨_, _, _, ⟨given, _, held, sent⟩, ⟨_, ?_, rfl, ?_⟩,
    ⟨_, landed, _, arrived, reached⟩, running, rfl, rfl⟩
  · simp [ClientTransport.State.send]
  · rw [ClientTransport.Operation.bytes, ← size, Memory.load_store]

end UltraDisplay.RoundTrip
