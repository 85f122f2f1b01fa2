import UltraDisplay.Library.Ledger.Object
import UltraDisplay.Shared.Result

/-! What `init` of the transports opens and what their destructors close, with a number for
each call of `init` and the thread of a transport as a resource that it has once at most:
to assign to a joinable `std::thread` ends the process. -/
namespace UltraDisplay
open Ledger

namespace ClientTransport

inductive Resource where
  | socket (call : Nat)
  /-- `ring_` has no initializer. -/
  | ring (call : Option Nat)
  | iovecs (call : Nat)
  | pollThread
  deriving DecidableEq

/-- Which calls of the system succeed. -/
structure InitAnswers where
  socket : Bool
  binds : Bool
  queueInit : Bool
  registersBuffers : Bool
  deriving DecidableEq

structure Handles where
  socketFd : Option Nat := none
  ring : Option Nat := none
  iovecs : Option Nat := none
  pollThread : Bool := false
  deriving DecidableEq

namespace Handles

/-- `setup_uring` and the start of the thread. -/
def setupUring (s : Handles) (call : Nat) (answers : InitAnswers) :
    Handles × List (Entry Resource) × Result Unit :=
  if !answers.queueInit then (s, [], .error (systemError "io_uring_queue_init_params failed"))
  else
    let s := { s with ring := some call, iovecs := some call }
    let got := [.acquire (.ring (some call)), .acquire (.iovecs call), .use (.ring (some call)),
      .use (.iovecs call)]
    if !answers.registersBuffers then
      (s, got, .error (systemError "io_uring_register_buffers failed"))
    else
      let reads := [.use (.ring (some call)), .use (.socket call), .use (.iovecs call)]
      ({ s with pollThread := true }, got ++ reads ++ [.acquire .pollThread], .ok ())

def init (s : Handles) (call : Nat) (answers : InitAnswers) :
    Handles × List (Entry Resource) × Result Unit :=
  if !answers.socket then
    ({ s with socketFd := none }, [], .error ⟨.networkError, "Failed to create socket"⟩)
  else
    let s := { s with socketFd := some call }
    let got := [.acquire (.socket call), .use (.socket call)]
    if !answers.binds then (s, got, .error ⟨.networkError, "Failed to bind socket"⟩)
    else
      let (s, more, result) := s.setupUring call answers
      (s, got ++ more, result)

def destructor (s : Handles) : List (Entry Resource) :=
  (match s.socketFd with
    | none => []
    | some call => [.use (.socket call)]) ++
  -- the thread takes its last look at the ring before it is joined
  (if s.pollThread then [.use (.ring s.ring), .release .pollThread] else []) ++
  (match s.socketFd with
    | none => []
    | some call => [.release (.socket call)]) ++
  [.release (.ring s.ring)] ++
  (match s.iovecs with
    | none => []
    | some call => [.release (.iovecs call)])

def object : Object Handles InitAnswers Resource where
  init s call answers := ((s.init call answers).1, (s.init call answers).2.1)
  destructor := destructor

theorem setupUring_spec (s : Handles) (call : Nat) (answers : InitAnswers) :
    (s.setupUring call answers).1.socketFd = s.socketFd ∧
      ∀ resource, .release resource ∉ (s.setupUring call answers).2.1 := by
  unfold setupUring
  cases answers.queueInit with
  | false => simp
  | true => cases answers.registersBuffers <;> simp

theorem init_spec (s : Handles) (call : Nat) (answers : InitAnswers) :
    (s.init call answers).1.socketFd = (if answers.socket then some call else none) ∧
      ∀ resource, .release resource ∉ (s.init call answers).2.1 := by
  unfold init
  cases answers.socket with
  | false => simp
  | true =>
    cases answers.binds with
    | false => simp
    | true =>
      obtain ⟨socket, unreleased⟩ := setupUring_spec { s with socketFd := some call } call answers
      simp [socket, unreleased]

theorem object_forgets :
    object.Forgets {} InitAnswers.socket Resource.socket Handles.socketFd where
  acquires := by
    intro s n answers got
    simp only [object, init, got, Bool.not_true, Bool.false_eq_true, if_false]
    split <;> exact ⟨_, rfl⟩
  replaces := by
    intro s n answers m owner
    rw [object, (init_spec s n answers).1] at owner
    split at owner
    case isTrue => exact (Option.some.inj owner).symm
    case isFalse => cases owner
  keeps := fun s n answers => (init_spec s n answers).2
  releases := by
    intro s n released
    obtain ⟨socketFd, ring, iovecs, pollThread⟩ := s
    cases socketFd with
    | none => cases pollThread <;> cases iovecs <;> simp [object, destructor] at released
    | some call =>
      have same : n = call := by
        cases pollThread <;> cases iovecs <;> simpa [object, destructor] using released
      rw [same]
  idles := by
    intro n answers failed
    simp [object, init, failed]

theorem life_once (n : Nat) (answers : InitAnswers) (got : answers.socket = true) :
    Leaves ∅ (object.life {} n [answers]) ∅ ↔ answers.binds = true ∧ answers.queueInit = true := by
  obtain ⟨_, binds, queueInit, registersBuffers⟩ := answers
  cases got
  cases binds with
  | false => simp [Object.life, object, init, destructor]
  | true =>
    cases queueInit with
    | false => simp [Object.life, object, init, setupUring, destructor]
    | true =>
      have closed : [.socket n, .ring (some n), .iovecs n].foldl Finset.erase
          ({.iovecs n, .ring (some n), .socket n} : Finset Resource) = ∅ := erased (by simp)
      cases registersBuffers <;>
        simpa [Object.life, object, init, setupUring, destructor]
          using closed

theorem closes_iff (calls : List InitAnswers) :
    Leaves ∅ (object.life {} 0 calls) ∅ ↔
      Object.Lone InitAnswers.socket False (fun answers => answers.binds ∧ answers.queueInit) calls := by
  refine object_forgets.leaves_iff ?_ life_once calls
  simp [object, destructor]

end Handles

end ClientTransport

namespace ServerTransport

inductive Resource where
  | socket (call : Nat)
  | port (call : Nat)
  | workerThread
  deriving DecidableEq

/-- Which calls of the system succeed. -/
structure InitAnswers where
  socket : Bool
  binds : Bool
  createPort : Bool
  deriving DecidableEq

structure Handles where
  socket : Option Nat := none
  iocp : Option Nat := none
  workerThread : Bool := false
  deriving DecidableEq

namespace Handles

def init (s : Handles) (call : Nat) (answers : InitAnswers) :
    Handles × List (Entry Resource) × Result Unit :=
  if !answers.socket then
    ({ s with socket := none }, [], .error ⟨.networkError, "Failed to create socket"⟩)
  else
    let s := { s with socket := some call }
    let got := [.acquire (.socket call), .use (.socket call)]
    if !answers.binds then (s, got, .error ⟨.networkError, "Failed to bind socket"⟩)
    else if !answers.createPort then
      ({ s with iocp := none }, got, .error (systemError "Failed to create IOCP"))
    else
      ({ s with iocp := some call, workerThread := true },
        got ++ [.acquire (.port call), .acquire .workerThread, .use (.socket call)], .ok ())

def destructor (s : Handles) : List (Entry Resource) :=
  (match s.iocp with
    | none => []
    | some call => [.use (.port call)]) ++
  (if s.workerThread then [.release .workerThread] else []) ++
  (match s.socket with
    | none => []
    | some call => [.release (.socket call)]) ++
  (match s.iocp with
    | none => []
    | some call => [.release (.port call)])

def object : Object Handles InitAnswers Resource where
  init s call answers := ((s.init call answers).1, (s.init call answers).2.1)
  destructor := destructor

theorem init_spec (s : Handles) (call : Nat) (answers : InitAnswers) :
    (s.init call answers).1.socket = (if answers.socket then some call else none) ∧
      ∀ resource, .release resource ∉ (s.init call answers).2.1 := by
  unfold init
  cases answers.socket with
  | false => simp
  | true =>
    cases answers.binds with
    | false => simp
    | true => cases answers.createPort <;> simp

theorem object_forgets :
    object.Forgets {} InitAnswers.socket Resource.socket Handles.socket where
  acquires := by
    intro s n answers got
    simp only [object, init, got, Bool.not_true, Bool.false_eq_true, if_false]
    split
    case isTrue => exact ⟨_, rfl⟩
    case isFalse => split <;> exact ⟨_, rfl⟩
  replaces := by
    intro s n answers m owner
    rw [object, (init_spec s n answers).1] at owner
    split at owner
    case isTrue => exact (Option.some.inj owner).symm
    case isFalse => cases owner
  keeps := fun s n answers => (init_spec s n answers).2
  releases := by
    intro s n released
    obtain ⟨socket, iocp, workerThread⟩ := s
    cases socket with
    | none => cases iocp <;> cases workerThread <;> simp [object, destructor] at released
    | some call =>
      have same : n = call := by
        cases iocp <;> cases workerThread <;> simpa [object, destructor] using released
      rw [same]
  idles := by
    intro n answers failed
    simp [object, init, failed]

theorem life_once (n : Nat) (answers : InitAnswers) (got : answers.socket = true) :
    Leaves ∅ (object.life {} n [answers]) ∅ := by
  obtain ⟨_, binds, createPort⟩ := answers
  cases got
  cases binds with
  | false => simp [Object.life, object, init, destructor]
  | true =>
    have closed : [.socket n, .port n].foldl Finset.erase
        ({.port n, .socket n} : Finset Resource) = ∅ := erased (by simp)
    cases createPort with
    | false => simp [Object.life, object, init, destructor]
    | true => simpa [Object.life, object, init, destructor] using closed

theorem closes_iff (calls : List InitAnswers) :
    Leaves ∅ (object.life {} 0 calls) ∅ ↔
      Object.Lone InitAnswers.socket True (fun _ => True) calls := by
  refine object_forgets.leaves_iff ?_ (fun n answers got => ?_) calls
  · simp [object, destructor]
  · exact iff_of_true (life_once n answers got) trivial

end Handles
end ServerTransport

/-- Whatever calls of `init` a transport sees and whatever fails in them, its destructor
closes what they opened and nothing else exactly when no call follows the first one that
gets a socket and, on the client, there is such a call and it comes as far as the ring. -/
theorem transports_close_iff (client : List ClientTransport.InitAnswers)
    (server : List ServerTransport.InitAnswers) :
    (Leaves ∅ (ClientTransport.Handles.object.life {} 0 client) ∅ ↔
      Object.Lone ClientTransport.InitAnswers.socket False
        (fun answers => answers.binds ∧ answers.queueInit) client) ∧
    (Leaves ∅ (ServerTransport.Handles.object.life {} 0 server) ∅ ↔
      Object.Lone ServerTransport.InitAnswers.socket True (fun _ => True) server) :=
  ⟨ClientTransport.Handles.closes_iff client, ServerTransport.Handles.closes_iff server⟩

end UltraDisplay
