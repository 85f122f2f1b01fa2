import UltraDisplay.Library.Channel
import UltraDisplay.RoundTrip

/-! Both transports and the network between them as one system. The threads of
either side, the kernels and a network that may lose, delay, reorder and
duplicate datagrams take steps in any order. A payload of the client leaves when
the kernel takes it from its caller's memory, not when `send` is called. -/
namespace UltraDisplay

/-- The steps of the server's threads and its kernel that no datagram is part of. -/
def ServerTransport.Event.isLocal : ServerTransport.Event → Bool
  | .send _ _ | .readCompletes (some _) => false
  | _ => true

def ClientTransport.Event.isLocal : ClientTransport.Event → Bool
  | .send .. | .arrives _ _ | .sendCompletes _ => false
  | _ => true

namespace Network
open Transition
open Channel (Discipline Move)

/-- The datagrams under way are what `WSASend` copied and what the kernel has taken
from the client's ring; `served` records what the server's `receive` returned. -/
structure State where
  server : ServerTransport.State := ServerTransport.start
  client : ClientTransport.State := ClientTransport.start
  toClient : Channel (List UInt8) := {}
  toServer : Channel (List UInt8) := {}
  served : List (List UInt8) := []

inductive Event where
  | server (e : ServerTransport.Event)
  | client (e : ClientTransport.Event)
  | serverSends (payload : List UInt8) (accepted : Bool)
  /-- A caller puts the payload into its memory and calls `send`. -/
  | clientSends (address : Nat) (payload : List UInt8) (sqe : Bool)
  | kernelSends (index : Nat)
  | reachesClient (flight index : Nat)
  | reachesServer (flight : Nat)
  | lostToClient (flight : Nat)
  | lostToServer (flight : Nat)
  | duplicatedToClient (flight : Nat)
  | duplicatedToServer (flight : Nat)

def handedOver (server : ServerTransport.State) : ServerTransport.Event → List (List UInt8)
  | .receive => server.queue.head?.toList
  | _ => []

def step (s : State) : Event → Option State
  | .server e =>
    if e.isLocal then
      (ServerTransport.step s.server e).map fun server =>
        { s with server, served := s.served ++ handedOver s.server e }
    else none
  | .client e =>
    if e.isLocal then (ClientTransport.step s.client e).map fun client => { s with client }
    else none
  | .serverSends payload accepted =>
    some { s with
      server := s.server.send payload accepted
      toClient := if accepted then s.toClient.send (payload.take ServerTransport.bufferSize)
        else s.toClient }
  | .clientSends address payload sqe =>
    some { s with
      client := { s.client with memory := s.client.memory.store address payload }.send
        address payload.length sqe }
  | .kernelSends index =>
    (s.client.outstanding[index]?.bind (·.bytes s.client.memory)).bind fun datagram =>
      (ClientTransport.step s.client (.sendCompletes index)).map fun client =>
        { s with client, toServer := s.toServer.send datagram }
  | .reachesClient flight index =>
    s.toClient.inFlight[flight]?.bind fun datagram =>
      (ClientTransport.step s.client (.arrives index datagram)).map fun client =>
        { s with client, toClient := s.toClient.deliver flight datagram }
  | .reachesServer flight =>
    s.toServer.inFlight[flight]?.bind fun datagram =>
      (ServerTransport.step s.server (.readCompletes (RoundTrip.received datagram))).map fun server =>
        { s with server, toServer := s.toServer.deliver flight datagram }
  | .lostToClient flight => some { s with toClient := s.toClient.lose flight }
  | .lostToServer flight => some { s with toServer := s.toServer.lose flight }
  | .duplicatedToClient flight =>
    s.toClient.inFlight[flight]?.map fun datagram =>
      { s with toClient := s.toClient.duplicate datagram }
  | .duplicatedToServer flight =>
    s.toServer.inFlight[flight]?.map fun datagram =>
      { s with toServer := s.toServer.duplicate datagram }

/-- The move of the network that a step is, in either direction. -/
def Event.move : Event → Option (Move (List UInt8))
  | .reachesClient flight _ | .reachesServer flight => some (.deliver flight)
  | .lostToClient flight | .lostToServer flight => some (.lose flight)
  | .duplicatedToClient flight | .duplicatedToServer flight => some (.duplicate flight)
  | _ => none

/-- The network follows the discipline in both directions. -/
def Event.Within (discipline : Discipline) (e : Event) : Prop :=
  ∀ move ∈ e.move, discipline.Permits move

/-- The client's poll thread takes the completion of a read only. -/
def TakesRead (s : State) (e : Event) : Prop :=
  ∀ inner, e = .client inner → ClientTransport.TakesRead s.client inner

instance (s : State) : (e : Event) → Decidable (TakesRead s e)
  | .client inner => decidable_of_iff (ClientTransport.TakesRead s.client inner)
      ⟨fun takes _ same => Event.client.inj same ▸ takes, fun takes => takes inner rfl⟩
  | .server _ | .serverSends .. | .clientSends .. | .kernelSends _ | .reachesClient ..
  | .reachesServer _ | .lostToClient _ | .lostToServer _ | .duplicatedToClient _
  | .duplicatedToServer _ =>
      isTrue fun inner same => by cases same

/-- What the sends in the ring would make of the memory as it is now. -/
def pending (client : ClientTransport.State) : List (List UInt8) :=
  client.outstanding.filterMap (·.bytes client.memory)

/-- Storing the bytes changes no payload that a send in the ring refers to. -/
def Spares (client : ClientTransport.State) (address : Nat) (bytes : List UInt8) : Prop :=
  ∀ operation ∈ client.outstanding,
    operation.bytes (client.memory.store address bytes) = operation.bytes client.memory

/-- The client's callers leave a payload alone until the kernel has taken it, and the
kernel takes the sends in the order that the discipline asks for. -/
def Careful (discipline : Discipline) (s : State) : Event → Prop
  | .client (.store address bytes) => Spares s.client address bytes
  | .clientSends address payload _ => Spares s.client address payload
  | .kernelSends index =>
    let ahead := (s.client.outstanding.take index).filterMap (·.bytes s.client.memory)
    discipline.lossy.Permits (.deliver ahead.length : Move (List UInt8))
  | _ => True

instance (discipline : Discipline) (s : State) : (e : Event) → Decidable (Careful discipline s e)
  | .client (.store ..) | .clientSends .. =>
    inferInstanceAs (Decidable (∀ operation ∈ s.client.outstanding, _))
  | .kernelSends _ => inferInstanceAs (Decidable (Discipline.Permits _ _))
  | .client (.poll _) | .client .timeout | .client (.send ..) | .client .receive
  | .client (.arrives ..) | .client (.sendCompletes _) | .client (.fails ..) | .client .stop
  | .server _ | .serverSends .. | .reachesClient .. | .reachesServer _ | .lostToClient _
  | .lostToServer _ | .duplicatedToClient _ | .duplicatedToServer _ => isTrue trivial

def payload (completion : ServerTransport.Completion) : Option (List UInt8) :=
  if completion.rearms then completion.overlapped.map ServerTransport.IoContext.data else none

def awaiting (server : ServerTransport.State) : List (List UInt8) :=
  (server.worker.taken.toList ++ server.port).filterMap payload

/-- The server passes on what its reads brought and invents nothing: too long a
datagram, an empty one and one that comes after the stop are dropped. -/
structure Served (s : State) : Prop where
  passed : (s.served ++ s.server.queue ++ awaiting s.server).Sublist s.toServer.delivered
  whole : ∀ data ∈ s.served ++ s.server.queue ++ awaiting s.server,
    data ≠ [] ∧ data.length ≤ ServerTransport.bufferSize

structure Down (discipline : Discipline) (s : State) : Prop where
  client : ClientTransport.Inv s.client
  arrived : s.client.delivered = s.toClient.delivered
  short : ∀ datagram ∈ s.toClient.sent, datagram.length ≤ ServerTransport.bufferSize
  toClient : s.toClient.Keeps discipline

structure Up (discipline : Discipline) (s : State) : Prop where
  toServer : s.toServer.Keeps discipline
  served : Served s

/-- The client's ring as a path from its callers to the network. -/
def ring (offered : List (List UInt8)) (s : State) : Channel (List UInt8) where
  sent := offered
  inFlight := pending s.client
  delivered := s.toServer.sent

/-- Handling a completion puts its data into the queue, or drops it after the stop. -/
theorem handle_queue (server : ServerTransport.State) (completion : ServerTransport.Completion) :
    (server.handle completion).queue =
      server.queue ++ if server.running then (payload completion).toList else [] := by
  obtain ⟨res, overlapped⟩ := completion
  unfold ServerTransport.State.handle payload
  cases running : server.running with
  | false => simp
  | true =>
    cases res with
    | false => simp [ServerTransport.Completion.rearms]
    | true =>
      cases overlapped with
      | none => simp [ServerTransport.Completion.rearms]
      | some ctx =>
        by_cases full : ctx.isRead = true ∧ 0 < ctx.data.length
        · simp [ServerTransport.Completion.rearms, full]
        · have idle : (ctx.isRead && decide (0 < ctx.data.length)) = false := by simpa using full
          simp [ServerTransport.Completion.rearms, full, idle]

theorem handle_taken (server : ServerTransport.State) (completion : ServerTransport.Completion) :
    (server.handle completion).worker.taken = none := by
  rw [ServerTransport.handle_worker]
  split
  · rfl
  · split <;> rfl

/-- The worker passes datagrams from the port to the queue in order. -/
theorem server_work {server after : ServerTransport.State} (stepped : server.work = some after) :
    (after.queue ++ awaiting after).Sublist (server.queue ++ awaiting server) := by
  unfold ServerTransport.State.work at stepped
  cases place : server.worker with
  | looping =>
    simp only [place, Option.some.injEq] at stepped
    subst after
    cases runs : server.running <;>
      simp [awaiting, place, ServerTransport.Worker.taken]
  | waiting =>
    cases queued : server.port with
    | nil => simp [place, queued] at stepped
    | cons completion port =>
      simp only [place, queued, Option.some.injEq] at stepped
      subst after
      simp [awaiting, place, queued, ServerTransport.Worker.taken]
  | woken completion =>
    simp only [place, Option.some.injEq] at stepped
    subst after
    have port := (ServerTransport.handle_frame server completion).2.2.2
    have taken := ServerTransport.taken_eq_some.mpr place
    simp only [awaiting, handle_taken, port, handle_queue, taken, Option.toList_none,
      Option.toList_some, List.nil_append, List.filterMap_append, List.append_assoc]
    refine List.Sublist.append_left (List.Sublist.append_right ?_ _) _
    cases server.running with
    | false => simp
    | true => cases here : payload completion <;> simp [here]
  | rearming =>
    simp only [place, Option.some.injEq] at stepped
    subst after
    simp [awaiting, place, ServerTransport.Worker.taken, ServerTransport.State.postReceive]
  | exited => simp [place] at stepped

theorem complete_awaiting {server : ServerTransport.State}
    {completion : ServerTransport.Completion} :
    awaiting (server.complete completion) = awaiting server ++ (payload completion).toList := by
  simp only [awaiting, ServerTransport.State.complete, ← List.append_assoc, List.filterMap_append]
  cases here : payload completion <;> simp [here]

/-- Whatever the server does on its own, no datagram is added or changes places. -/
theorem server_local {server after : ServerTransport.State} {e : ServerTransport.Event}
    (inside : e.isLocal = true) (stepped : ServerTransport.step server e = some after) :
    (handedOver server e ++ after.queue ++ awaiting after).Sublist
      (server.queue ++ awaiting server) := by
  cases e with
  | work => exact server_work stepped
  | send payload accepted => simp [ServerTransport.Event.isLocal] at inside
  | initPostsReceive =>
    simp only [ServerTransport.step] at stepped
    split at stepped
    · contradiction
    · cases Option.some.inj stepped
      exact List.Sublist.refl _
  | receive =>
    simp only [ServerTransport.step] at stepped
    split at stepped
    · contradiction
    · rename_i data queue queued
      cases Option.some.inj stepped
      simp [handedOver, queued, awaiting]
  | readCompletes datagram =>
    cases datagram with
    | some data => simp [ServerTransport.Event.isLocal] at inside
    | none =>
      simp only [ServerTransport.step] at stepped
      split at stepped
      · contradiction
      · cases Option.some.inj stepped
        rw [complete_awaiting]
        simp [handedOver, payload, ServerTransport.Completion.rearms, ServerTransport.State.complete,
          awaiting]
  | writeCompletes index succeeded =>
    simp only [ServerTransport.step] at stepped
    split at stepped
    · contradiction
    · cases Option.some.inj stepped
      rw [complete_awaiting]
      simp [handedOver, payload, ServerTransport.Completion.rearms, ServerTransport.State.complete,
        awaiting]
  | stop =>
    cases Option.some.inj stepped
    exact List.Sublist.refl _
  | wake =>
    simp only [ServerTransport.step] at stepped
    split at stepped
    · contradiction
    · cases Option.some.inj stepped
      rw [complete_awaiting]
      simp [handedOver, payload, ServerTransport.Completion.rearms, ServerTransport.State.complete]

theorem server_arrival {server after : ServerTransport.State} {datagram : List UInt8}
    (stepped : ServerTransport.step server (.readCompletes (RoundTrip.received datagram)) =
      some after) :
    after.queue = server.queue ∧ ∃ data, awaiting after = awaiting server ++ data ∧
      data.Sublist [datagram] ∧
      ∀ one ∈ data, one ≠ [] ∧ one.length ≤ ServerTransport.bufferSize := by
  simp only [ServerTransport.step] at stepped
  split at stepped
  · contradiction
  · cases arrived : RoundTrip.received datagram with
    | none =>
      simp only [arrived, Option.some.injEq] at stepped
      subst after
      refine ⟨rfl, [], ?_, by simp, by simp⟩
      rw [complete_awaiting]
      rfl
    | some data =>
      obtain ⟨short, same⟩ := Option.ite_none_right_eq_some.mp arrived
      cases Option.some.inj same
      simp only [arrived, if_neg (Nat.not_lt.mpr short), Option.some.injEq] at stepped
      subst after
      refine ⟨rfl, _, complete_awaiting, ?_, ?_⟩
      · unfold payload
        split <;> simp
      · intro one member
        unfold payload at member
        split at member
        case isTrue full =>
          obtain rfl : one = datagram := by simpa using member
          refine ⟨?_, short⟩
          rintro rfl
          simp [ServerTransport.Completion.rearms] at full
        case isFalse => simp at member

/-- What a step on the client's own leaves in the ring: all of it, one more read, or
all but an operation that has failed. -/
theorem client_outstanding {client after : ClientTransport.State} {e : ClientTransport.Event}
    (inside : e.isLocal = true) (stepped : ClientTransport.step client e = some after) :
    after.outstanding = client.outstanding ∨ after.outstanding = client.outstanding ++ [.read] ∨
      ∃ index operation, client.outstanding[index]? = some operation ∧
        after.outstanding = client.outstanding.eraseIdx index := by
  cases e with
  | send | arrives | sendCompletes => simp [ClientTransport.Event.isLocal] at inside
  | poll sqe =>
    simp only [ClientTransport.step, ClientTransport.State.pollLoop] at stepped
    split at stepped
    · cases Option.some.inj stepped
      exact Or.inl rfl
    · split at stepped
      · contradiction
      · cases Option.some.inj stepped
        unfold ClientTransport.State.reap
        split
        · split <;> exact Or.inl rfl
        · exact Or.inl rfl
    · cases Option.some.inj stepped
      cases sqe with
      | false => exact Or.inl rfl
      | true => exact Or.inr (Or.inl rfl)
    · contradiction
  | fails index error =>
    simp only [ClientTransport.step] at stepped
    split at stepped
    all_goals first
      | contradiction
      | rename_i found
        cases Option.some.inj stepped
        exact Or.inr (Or.inr ⟨index, _, found, rfl⟩)
  | store | stop =>
    cases Option.some.inj stepped
    exact Or.inl rfl
  | timeout | receive =>
    simp only [ClientTransport.step] at stepped
    split at stepped
    all_goals first
      | contradiction
      | cases Option.some.inj stepped
        exact Or.inl rfl

/-- A store that spares them leaves the payloads in the ring as they are, and a send
adds its own. -/
theorem Spares.send_pending {client : ClientTransport.State} {address : Nat} {bytes : List UInt8}
    (spares : Spares client address bytes) (sqe : Bool) :
    pending ({ client with memory := client.memory.store address bytes }.send address bytes.length
      sqe) = pending client ++ if sqe then [bytes] else [] := by
  have kept : client.outstanding.filterMap (·.bytes (client.memory.store address bytes)) =
      pending client := List.filterMap_congr spares
  have loaded : (client.memory.store address bytes).load address bytes.length = bytes :=
    Memory.load_store
  cases sqe with
  | false => simpa [pending, ClientTransport.State.send] using kept
  | true =>
    rw [if_pos rfl, ← kept]
    simp [pending, ClientTransport.State.send, ClientTransport.Operation.bytes, loaded]

theorem client_pending {client after : ClientTransport.State} {e : ClientTransport.Event}
    (inside : e.isLocal = true) (stepped : ClientTransport.step client e = some after)
    (spares : ∀ address bytes, e = .store address bytes → Spares client address bytes) :
    pending after = pending client ∨ ∃ i, pending after = (pending client).eraseIdx i := by
  have memory : after.outstanding.filterMap (·.bytes after.memory) =
      after.outstanding.filterMap (·.bytes client.memory) := by
    rw [(ClientTransport.step_writes stepped).1]
    cases e with
    | store address bytes =>
      cases Option.some.inj stepped
      exact List.filterMap_congr (spares address bytes rfl)
    | _ => rfl
  rw [pending, memory]
  obtain same | read | ⟨index, operation, found, erased⟩ := client_outstanding inside stepped
  · rw [same]
    exact Or.inl rfl
  · rw [read, List.filterMap_append]
    exact Or.inl (List.append_nil _)
  · rw [erased, Channel.filterMap_eraseIdx found]
    split
    · exact Or.inr ⟨_, rfl⟩
    · exact Or.inl rfl

theorem arrival_pending {client after : ClientTransport.State} {index : Nat}
    {datagram : List UInt8}
    (stepped : ClientTransport.step client (.arrives index datagram) = some after) :
    pending after = pending client := by
  simp only [ClientTransport.step] at stepped
  split at stepped
  · rename_i read
    split at stepped
    · cases Option.some.inj stepped
      exact Channel.filterMap_eraseIdx read _
    · contradiction
  · contradiction

theorem kernel_sends {client after : ClientTransport.State} {index : Nat} {datagram : List UInt8}
    (found : client.outstanding[index]?.bind (·.bytes client.memory) = some datagram)
    (stepped : ClientTransport.step client (.sendCompletes index) = some after) :
    let i := ((client.outstanding.take index).filterMap (·.bytes client.memory)).length
    (pending client)[i]? = some datagram ∧ pending after = (pending client).eraseIdx i := by
  obtain ⟨operation, here, bytes⟩ := Option.bind_eq_some_iff.mp found
  have memory := (ClientTransport.step_writes stepped).1
  have outstanding : after.outstanding = client.outstanding.eraseIdx index := by
    simp only [ClientTransport.step] at stepped
    split at stepped
    · cases Option.some.inj stepped
      rfl
    · contradiction
  constructor
  · obtain ⟨inside, rfl⟩ := List.getElem?_eq_some_iff.mp here
    have parts : client.outstanding = client.outstanding.take index ++
        client.outstanding[index] :: client.outstanding.drop (index + 1) := by
      rw [List.getElem_cons_drop, List.take_append_drop]
    rw [pending]
    nth_rewrite 1 [parts]
    rw [List.filterMap_append, List.getElem?_append_right (Nat.le_refl _), Nat.sub_self,
      List.filterMap_cons, bytes]
    rfl
  · rw [pending, memory, outstanding]
    change (client.outstanding.eraseIdx index).filterMap (·.bytes client.memory) = _
    rw [Channel.filterMap_eraseIdx here, if_pos (Option.isSome_iff_exists.mpr ⟨_, bytes⟩)]
    rfl

theorem start_down : Down discipline {} where
  client := ClientTransport.start_inv
  arrived := rfl
  short := by simp
  toClient := Channel.start_keeps discipline

theorem start_up : Up discipline {} where
  toServer := Channel.start_keeps discipline
  served := ⟨List.Sublist.refl _, by simp [ServerTransport.start, awaiting, ServerTransport.Worker.taken]⟩

theorem step_down (inv : Down discipline s) {e : Event} (within : e.Within discipline)
    (takes : TakesRead s e) (stepped : step s e = some t) : Down discipline t := by
  obtain ⟨client, arrived, short, toClient⟩ := inv
  cases e with
  | server e =>
    obtain ⟨inside, moved⟩ := Option.ite_none_right_eq_some.mp stepped
    obtain ⟨server, inner, rfl⟩ := Option.map_eq_some_iff.mp moved
    exact ⟨client, arrived, short, toClient⟩
  | client e =>
    obtain ⟨inside, moved⟩ := Option.ite_none_right_eq_some.mp stepped
    obtain ⟨after, inner, rfl⟩ := Option.map_eq_some_iff.mp moved
    obtain ⟨fits, silent⟩ : e.Short ∧ e.brought = none := by
      cases e with
      | arrives => simp [ClientTransport.Event.isLocal] at inside
      | _ => exact ⟨trivial, rfl⟩
    refine ⟨ClientTransport.step_inv client fits (takes e rfl) inner, ?_, short, toClient⟩
    rw [(ClientTransport.step_writes inner).2.2, silent]
    exact (List.append_nil _).trans arrived
  | serverSends payload accepted =>
    cases Option.some.inj stepped
    cases accepted with
    | false => exact ⟨client, arrived, short, toClient⟩
    | true =>
      refine ⟨client, arrived, ?_, toClient.send _⟩
      intro datagram member
      rcases List.mem_append.mp member with old | new
      · exact short datagram old
      · rw [List.mem_singleton.mp new, List.length_take]
        exact Nat.min_le_left _ _
  | clientSends address payload sqe =>
    cases Option.some.inj stepped
    have inner := ClientTransport.send_inv
      (ClientTransport.store_inv client (s.client.memory.store address payload))
      address payload.length sqe
    cases sqe <;> exact ⟨inner, arrived, short, toClient⟩
  | kernelSends index =>
    obtain ⟨datagram, found, moved⟩ := Option.bind_eq_some_iff.mp stepped
    obtain ⟨after, inner, rfl⟩ := Option.map_eq_some_iff.mp moved
    have small : (ClientTransport.Event.sendCompletes index).Short := trivial
    refine ⟨ClientTransport.step_inv client small ?_ inner, ?_, short, toClient⟩
    · intro polls
      contradiction
    · rw [(ClientTransport.step_writes inner).2.2]
      exact (List.append_nil _).trans arrived
  | reachesClient flight index =>
    obtain ⟨datagram, found, moved⟩ := Option.bind_eq_some_iff.mp stepped
    obtain ⟨after, inner, rfl⟩ := Option.map_eq_some_iff.mp moved
    have genuine := toClient.genuine datagram (List.mem_append_right _ (List.mem_of_getElem? found))
    have fits := short datagram genuine
    rw [ServerTransport.bufferSize] at fits
    have small : (ClientTransport.Event.arrives index datagram).Short := by
      change datagram.length ≤ 2048
      omega
    refine ⟨ClientTransport.step_inv client small ?_ inner, ?_, short,
      toClient.deliver (within _ rfl) found⟩
    · intro polls
      contradiction
    · rw [(ClientTransport.step_writes inner).2.2, arrived]
      rfl
  | reachesServer flight =>
    obtain ⟨datagram, found, moved⟩ := Option.bind_eq_some_iff.mp stepped
    obtain ⟨after, inner, rfl⟩ := Option.map_eq_some_iff.mp moved
    exact ⟨client, arrived, short, toClient⟩
  | lostToClient flight =>
    cases Option.some.inj stepped
    exact ⟨client, arrived, short, toClient.lose (within _ rfl)⟩
  | lostToServer flight =>
    cases Option.some.inj stepped
    exact ⟨client, arrived, short, toClient⟩
  | duplicatedToClient flight =>
    obtain ⟨datagram, found, rfl⟩ := Option.map_eq_some_iff.mp stepped
    exact ⟨client, arrived, short, toClient.duplicate (within _ rfl) found⟩
  | duplicatedToServer flight =>
    obtain ⟨datagram, found, rfl⟩ := Option.map_eq_some_iff.mp stepped
    exact ⟨client, arrived, short, toClient⟩

theorem step_up (inv : Up discipline s) {e : Event} (within : e.Within discipline)
    (stepped : step s e = some t) : Up discipline t := by
  obtain ⟨toServer, passed, whole⟩ := inv
  cases e with
  | server e =>
    obtain ⟨inside, moved⟩ := Option.ite_none_right_eq_some.mp stepped
    obtain ⟨server, inner, rfl⟩ := Option.map_eq_some_iff.mp moved
    have fewer := (server_local inside inner).append_left s.served
    simp only [← List.append_assoc] at fewer
    exact ⟨toServer, fewer.trans passed, fun data member => whole data (fewer.subset member)⟩
  | client e =>
    obtain ⟨inside, moved⟩ := Option.ite_none_right_eq_some.mp stepped
    obtain ⟨after, inner, rfl⟩ := Option.map_eq_some_iff.mp moved
    exact ⟨toServer, passed, whole⟩
  | serverSends payload accepted =>
    cases Option.some.inj stepped
    cases accepted <;> exact ⟨toServer, passed, whole⟩
  | clientSends address payload sqe =>
    cases Option.some.inj stepped
    exact ⟨toServer, passed, whole⟩
  | kernelSends index =>
    obtain ⟨datagram, found, moved⟩ := Option.bind_eq_some_iff.mp stepped
    obtain ⟨after, inner, rfl⟩ := Option.map_eq_some_iff.mp moved
    exact ⟨toServer.send datagram, passed, whole⟩
  | reachesClient flight index =>
    obtain ⟨datagram, found, moved⟩ := Option.bind_eq_some_iff.mp stepped
    obtain ⟨after, inner, rfl⟩ := Option.map_eq_some_iff.mp moved
    exact ⟨toServer, passed, whole⟩
  | reachesServer flight =>
    obtain ⟨datagram, found, moved⟩ := Option.bind_eq_some_iff.mp stepped
    obtain ⟨after, inner, rfl⟩ := Option.map_eq_some_iff.mp moved
    obtain ⟨queue, data, awaits, single, good⟩ := server_arrival inner
    refine ⟨toServer.deliver (within _ rfl) found, ?_, ?_⟩
    · simp only [queue, awaits, Channel.deliver, ← List.append_assoc]
      exact passed.append single
    · intro one member
      simp only [queue, awaits, ← List.append_assoc] at member
      rcases List.mem_append.mp member with old | new
      · exact whole one old
      · exact good one new
  | lostToClient flight =>
    cases Option.some.inj stepped
    exact ⟨toServer, passed, whole⟩
  | lostToServer flight =>
    cases Option.some.inj stepped
    exact ⟨toServer.lose (within _ rfl), passed, whole⟩
  | duplicatedToClient flight =>
    obtain ⟨datagram, found, rfl⟩ := Option.map_eq_some_iff.mp stepped
    exact ⟨toServer, passed, whole⟩
  | duplicatedToServer flight =>
    obtain ⟨datagram, found, rfl⟩ := Option.map_eq_some_iff.mp stepped
    exact ⟨toServer.duplicate (within _ rfl) found, passed, whole⟩

/-- The datagram that a send puts on the way to the client: what fits into the
1500 bytes of an `IoContext`. -/
def Event.sentToClient : Event → Option (List UInt8)
  | .serverSends payload true => some (payload.take ServerTransport.bufferSize)
  | _ => none

def Event.sentToServer : Event → Option (List UInt8)
  | .clientSends _ payload true => some payload
  | _ => none

theorem step_sent {e : Event} (stepped : step s e = some t) :
    t.toClient.sent = s.toClient.sent ++ e.sentToClient.toList := by
  cases e with
  | server | client =>
    obtain ⟨_, moved⟩ := Option.ite_none_right_eq_some.mp stepped
    obtain ⟨_, _, rfl⟩ := Option.map_eq_some_iff.mp moved
    simp [Event.sentToClient]
  | serverSends payload accepted =>
    cases Option.some.inj stepped
    cases accepted <;> simp [Event.sentToClient, Channel.send]
  | clientSends address payload sqe =>
    cases Option.some.inj stepped
    simp [Event.sentToClient]
  | kernelSends | reachesClient | reachesServer =>
    obtain ⟨datagram, _, moved⟩ := Option.bind_eq_some_iff.mp stepped
    obtain ⟨_, _, rfl⟩ := Option.map_eq_some_iff.mp moved
    simp [Event.sentToClient, Channel.deliver]
  | lostToClient | lostToServer =>
    cases Option.some.inj stepped
    simp [Event.sentToClient, Channel.lose]
  | duplicatedToClient | duplicatedToServer =>
    obtain ⟨_, _, rfl⟩ := Option.map_eq_some_iff.mp stepped
    simp [Event.sentToClient, Channel.duplicate]

theorem run_sent {es : List Event} (reached : run step s es = some t) :
    t.toClient.sent = s.toClient.sent ++ es.filterMap Event.sentToClient := by
  induction es generalizing s with
  | nil =>
    cases Option.some.inj reached
    simp
  | cons e es ih =>
    obtain ⟨u, first, reached⟩ := run_cons_iff.mp reached
    rw [ih reached, step_sent first]
    cases here : e.sentToClient <;> simp [here]

/-- Where its callers and the kernel are careful, the ring makes up no payload. -/
theorem step_ring {e : Event} {offered : List (List UInt8)}
    (keeps : (ring offered s).Keeps discipline.lossy) (careful : Careful discipline s e)
    (stepped : step s e = some t) :
    (ring (offered ++ e.sentToServer.toList) t).Keeps discipline.lossy := by
  have quiet (silent : e.sentToServer = none) (same : pending t.client = pending s.client)
      (sent : t.toServer.sent = s.toServer.sent) :
      (ring (offered ++ e.sentToServer.toList) t).Keeps discipline.lossy := by
    rw [silent, ring, same, sent]
    exact (List.append_nil offered).symm ▸ keeps
  cases e with
  | client e =>
    obtain ⟨inside, moved⟩ := Option.ite_none_right_eq_some.mp stepped
    obtain ⟨after, inner, rfl⟩ := Option.map_eq_some_iff.mp moved
    have spares (address : Nat) (bytes : List UInt8) (store : e = .store address bytes) :
        Spares s.client address bytes := by
      subst store
      exact careful
    obtain same | ⟨i, dropped⟩ := client_pending inside inner spares
    · exact quiet rfl same rfl
    · simp only [Event.sentToServer, Option.toList_none, List.append_nil, ring, dropped]
      exact keeps.lose (discipline.lossy_permits_lose i)
  | clientSends address payload sqe =>
    cases Option.some.inj stepped
    have pending := Spares.send_pending careful sqe
    simp only [ring, pending]
    cases sqe with
    | false => simpa [Event.sentToServer, ring] using keeps
    | true => exact keeps.send payload
  | kernelSends index =>
    obtain ⟨datagram, found, moved⟩ := Option.bind_eq_some_iff.mp stepped
    obtain ⟨after, inner, rfl⟩ := Option.map_eq_some_iff.mp moved
    obtain ⟨first, rest⟩ := kernel_sends found inner
    simp only [Event.sentToServer, Option.toList_none, List.append_nil, ring, rest]
    exact Channel.Keeps.deliver keeps careful first
  | reachesClient flight index =>
    obtain ⟨datagram, _, moved⟩ := Option.bind_eq_some_iff.mp stepped
    obtain ⟨after, inner, rfl⟩ := Option.map_eq_some_iff.mp moved
    exact quiet rfl (arrival_pending inner) rfl
  | server =>
    obtain ⟨_, moved⟩ := Option.ite_none_right_eq_some.mp stepped
    obtain ⟨_, _, rfl⟩ := Option.map_eq_some_iff.mp moved
    exact quiet rfl rfl rfl
  | reachesServer flight =>
    obtain ⟨datagram, _, moved⟩ := Option.bind_eq_some_iff.mp stepped
    obtain ⟨_, _, rfl⟩ := Option.map_eq_some_iff.mp moved
    exact quiet rfl rfl rfl
  | serverSends | lostToClient | lostToServer =>
    cases Option.some.inj stepped
    exact quiet rfl rfl rfl
  | duplicatedToClient | duplicatedToServer =>
    obtain ⟨_, _, rfl⟩ := Option.map_eq_some_iff.mp stepped
    exact quiet rfl rfl rfl

theorem run_ring {es : List Event} {offered : List (List UInt8)}
    (keeps : (ring offered s).Keeps discipline.lossy)
    (careful : Guarded step (Careful discipline) s es) (reached : run step s es = some t) :
    (ring (offered ++ es.filterMap Event.sentToServer) t).Keeps discipline.lossy := by
  induction es generalizing s offered with
  | nil =>
    cases Option.some.inj reached
    exact (List.append_nil offered).symm ▸ keeps
  | cons e es ih =>
    obtain ⟨u, first, reached⟩ := run_cons_iff.mp reached
    obtain ⟨here, later⟩ := Guarded.cons_iff.mp careful u first
    have all := ih (step_ring keeps here first) later reached
    rw [List.append_assoc] at all
    cases sent : e.sentToServer <;> simpa [sent] using all

end Network
end UltraDisplay
