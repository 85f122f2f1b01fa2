import UltraDisplay.Library.Ledger
import UltraDisplay.Server.Transport

/-! The `IoContext`s of server/network/server_transport.cpp on the heap: who has which, from
`new` until `delete`. The calls of `new`, WSASend, WSARecv and `delete` are steps of their
own, and WSARecv may be refused. -/
namespace UltraDisplay.ServerTransport.Contexts
open Ledger Transition

/-- An `IoContext` at its address, and what its operation transfers. -/
structure Context where
  address : Nat
  isRead : Bool
  buffer : List UInt8
  deriving DecidableEq

structure Completion where
  res : Bool
  overlapped : Option Context
  deriving DecidableEq

/-- Where the worker thread stands, with the contexts in its hands. -/
inductive Worker where
  | looping
  | waiting
  | woken (completion : Completion)
  | rearming (ctx : Context)
  | reposting (ctx posted : Context)
  | deleting (ctx : Context)
  | exited (abandoned : Option Context)
  deriving DecidableEq

structure State where
  running : Bool := true
  initReturned : Bool := false
  /-- The number of contexts there have been. -/
  allocated : Nat := 0
  /-- Between `new` and WSARecv in `init`, between `new` and WSASend in calls of `send`. -/
  posting : Option Context := none
  sending : List Context := []
  /-- With the kernel. -/
  reads : List Context := []
  writes : List Context := []
  port : List Completion := []
  worker : Worker := .looping
  queue : List (List UInt8) := []
  currentSpanBuffer : List UInt8 := []
  bytesReceived : UInt64 := 0
  bytesSent : UInt64 := 0
  deriving DecidableEq

inductive Event where
  | initNews
  | initSubmits (accepted : Bool)
  | sendNews (payload : List UInt8)
  | sendSubmits (index : Nat) (accepted : Bool)
  /-- `accepted` is the answer to WSARecv, where that is called. -/
  | work (accepted : Bool)
  | receive
  | readCompletes (index : Nat) (datagram : Option (List UInt8))
  | writeCompletes (index : Nat) (succeeded : Bool)
  | stop
  | wake
  deriving DecidableEq

abbrev Moved := State × List (Entry Nat)

namespace State

def newRead (s : State) : Context := ⟨s.allocated, true, []⟩

def newWrite (s : State) (payload : List UInt8) : Context :=
  ⟨s.allocated, false, payload.take bufferSize⟩

/-- The body of the loop once a completion has been taken. -/
def handle (s : State) (completion : Completion) : Moved :=
  if !s.running then ({ s with worker := .exited completion.overlapped }, [])
  else match completion.overlapped with
    | none => ({ s with worker := .looping }, [])
    | some ctx =>
      if !completion.res then ({ s with worker := .deleting ctx }, [])
      else if ctx.isRead ∧ 0 < ctx.buffer.length then
        ({ s with
            bytesReceived := s.bytesReceived + UInt64.ofNat ctx.buffer.length
            queue := s.queue ++ [ctx.buffer]
            worker := .rearming ctx }, [.use ctx.address])
      else ({ s with worker := .deleting ctx }, [.use ctx.address])

def work (s : State) (accepted : Bool) : Option Moved :=
  match s.worker with
  | .looping => some ({ s with worker := if s.running then .waiting else .exited none }, [])
  | .waiting =>
    match s.port with
    | [] => none
    | completion :: port => some ({ s with port, worker := .woken completion }, [])
  | .woken completion => some (s.handle completion)
  | .rearming ctx =>
    some ({ s with allocated := s.allocated + 1, worker := .reposting ctx s.newRead },
      [.acquire s.allocated])
  | .reposting ctx posted =>
    if accepted then
      some ({ s with reads := s.reads ++ [posted], worker := .deleting ctx }, [.use posted.address])
    else
      some ({ s with worker := .deleting ctx }, [.use posted.address, .release posted.address])
  | .deleting ctx => some ({ s with worker := .looping }, [.release ctx.address])
  | .exited _ => none

def sendSubmits (s : State) (index : Nat) (accepted : Bool) : Option Moved :=
  match s.sending[index]? with
  | none => none
  | some ctx =>
    let s := { s with sending := s.sending.eraseIdx index }
    if accepted then
      some ({ s with
        writes := s.writes ++ [ctx]
        bytesSent := s.bytesSent + UInt64.ofNat ctx.buffer.length }, [.use ctx.address])
    else some (s, [.use ctx.address, .release ctx.address])

/-- The kernel writes the context until it has completed it. -/
def readCompletes (s : State) (index : Nat) (datagram : Option (List UInt8)) : Option Moved :=
  match s.reads[index]? with
  | none => none
  | some ctx =>
    let s := { s with reads := s.reads.eraseIdx index }
    match datagram with
    | none =>
      some ({ s with port := s.port ++ [⟨false, some { ctx with buffer := [] }⟩] },
        [.use ctx.address])
    | some data =>
      if bufferSize < data.length then none
      else
        some ({ s with port := s.port ++ [⟨true, some { ctx with buffer := data }⟩] },
          [.use ctx.address])

def writeCompletes (s : State) (index : Nat) (succeeded : Bool) : Option Moved :=
  match s.writes[index]? with
  | none => none
  | some ctx =>
    some ({ s with
      writes := s.writes.eraseIdx index
      port := s.port ++ [⟨succeeded, some ctx⟩] }, [.use ctx.address])

def move (s : State) : Event → Option Moved
  | .initNews =>
    if s.initReturned ∨ s.posting.isSome then none
    else
      some ({ s with allocated := s.allocated + 1, posting := some s.newRead },
        [.acquire s.allocated])
  | .initSubmits accepted =>
    match s.posting with
    | none => none
    | some ctx =>
      let s := { s with posting := none, initReturned := true }
      if accepted then some ({ s with reads := s.reads ++ [ctx] }, [.use ctx.address])
      else some (s, [.use ctx.address, .release ctx.address])
  | .sendNews payload =>
    some ({ s with allocated := s.allocated + 1, sending := s.sending ++ [s.newWrite payload] },
      [.acquire s.allocated, .use s.allocated])
  | .sendSubmits index accepted => s.sendSubmits index accepted
  | .work accepted => s.work accepted
  | .receive =>
    match s.queue with
    | [] => none
    | data :: queue => some ({ s with queue, currentSpanBuffer := data }, [])
  | .readCompletes index datagram => s.readCompletes index datagram
  | .writeCompletes index succeeded => s.writeCompletes index succeeded
  | .stop => some ({ s with running := false }, [])
  | .wake =>
    if s.running then none else some ({ s with port := s.port ++ [⟨true, none⟩] }, [])

end State

def step (s : State) (e : Event) : Option State := (s.move e).map Prod.fst

def Worker.hand : Worker → List Context
  | .looping | .waiting => []
  | .woken completion => completion.overlapped.toList
  | .rearming ctx | .deleting ctx => [ctx]
  | .reposting ctx posted => [ctx, posted]
  | .exited abandoned => abandoned.toList

namespace State

def contexts (s : State) : List Context :=
  s.posting.toList ++ s.sending ++ s.reads ++ s.writes ++ s.port.filterMap Completion.overlapped ++
    s.worker.hand

def owned (s : State) : List Nat := s.contexts.map Context.address

end State

variable {s t : State} {entries : List (Entry Nat)} {index : Nat} {ctx : Context}

/-- What a step does to the heap, and how that changes who owns what. -/
inductive Changes (s : State) (entries : List (Entry Nat)) (t : State) : Prop where
  | moves (owned : t.owned.Perm s.owned) (allocated : t.allocated = s.allocated)
      (uses : ∀ entry ∈ entries, ∃ address ∈ s.owned, entry = .use address)
  | news (owned : t.owned.Perm (s.allocated :: s.owned)) (allocated : t.allocated = s.allocated + 1)
      (more : List (Entry Nat)) (acquires : entries = .acquire s.allocated :: more)
      (uses : ∀ entry ∈ more, entry = .use s.allocated)
  | deletes (address : Nat) (owned : s.owned.Perm (address :: t.owned))
      (allocated : t.allocated = s.allocated) (more : List (Entry Nat))
      (releases : entries = more ++ [.release address])
      (uses : ∀ entry ∈ more, entry = .use address)

/-- Each context has one owner, and the next one is new. -/
structure Owned (s : State) : Prop where
  alone : s.owned.Nodup
  fresh : ∀ address ∈ s.owned, address < s.allocated

theorem Changes.leaves (changes : Changes s entries t) (inv : Owned s) :
    Owned t ∧ Leaves s.owned.toFinset entries t.owned.toFinset := by
  cases changes with
  | moves owned allocated uses =>
    refine ⟨⟨owned.nodup_iff.mpr inv.alone, ?_⟩, ?_⟩
    · intro address mem
      rw [allocated]
      exact inv.fresh address (owned.mem_iff.mp mem)
    · rw [List.toFinset_eq_of_perm _ _ owned]
      exact .uses (by simpa using uses)
  | news owned allocated more acquires uses =>
    have free : s.allocated ∉ s.owned := fun mem => Nat.lt_irrefl _ (inv.fresh _ mem)
    refine ⟨⟨owned.nodup_iff.mpr (List.nodup_cons.mpr ⟨free, inv.alone⟩), ?_⟩, ?_⟩
    · intro address mem
      rw [allocated]
      rcases List.mem_cons.mp (owned.mem_iff.mp mem) with rfl | mem
      · exact Nat.lt_succ_self _
      · exact Nat.lt_succ_of_lt (inv.fresh address mem)
    · rw [List.toFinset_eq_of_perm _ _ owned, List.toFinset_cons, acquires]
      refine .acquire (by simpa using free) (.uses fun entry mem => ?_)
      exact ⟨s.allocated, Finset.mem_insert_self .., uses entry mem⟩
  | deletes address owned allocated more releases uses =>
    obtain ⟨gone, alone⟩ := List.nodup_cons.mp (owned.nodup_iff.mp inv.alone)
    refine ⟨⟨alone, ?_⟩, ?_⟩
    · intro other mem
      rw [allocated]
      exact inv.fresh other (owned.mem_iff.mpr (List.mem_cons_of_mem _ mem))
    · rw [List.toFinset_eq_of_perm _ _ owned, List.toFinset_cons, releases]
      refine Leaves.append (.uses fun entry mem => ?_) (.release (Finset.mem_insert_self ..) ?_)
      · exact ⟨address, Finset.mem_insert_self .., uses entry mem⟩
      · rw [Finset.erase_insert (by simpa using gone)]
        exact .nil

def countAt (contexts : List Context) (address : Nat) : Nat :=
  (contexts.map Context.address).count address

@[simp] theorem countAt_nil (address : Nat) : countAt [] address = 0 := rfl

@[simp] theorem countAt_cons (ctx : Context) (rest : List Context) (address : Nat) :
    countAt (ctx :: rest) address = countAt rest address + if ctx.address = address then 1 else 0 := by
  simp [countAt, List.count_cons]

@[simp] theorem countAt_append (first rest : List Context) (address : Nat) :
    countAt (first ++ rest) address = countAt first address + countAt rest address := by
  simp [countAt]

theorem countAt_eraseIdx {contexts : List Context} (taken : contexts[index]? = some ctx)
    (address : Nat) : countAt contexts address =
      countAt (contexts.eraseIdx index) address + if ctx.address = address then 1 else 0 := by
  obtain ⟨bound, rfl⟩ := List.getElem?_eq_some_iff.mp taken
  have split := (List.getElem_cons_eraseIdx_perm bound).symm.map Context.address
  have counted := List.perm_iff_count.mp split address
  rw [List.map_cons, List.count_cons] at counted
  simpa [countAt] using counted

theorem owned_perm (same : ∀ address, countAt t.contexts address = countAt s.contexts address) :
    t.owned.Perm s.owned :=
  List.perm_iff_count.mpr same

theorem owned_perm_cons {new : Nat} (same : ∀ address, countAt t.contexts address =
      countAt s.contexts address + if new = address then 1 else 0) :
    t.owned.Perm (new :: s.owned) := by
  refine List.perm_iff_count.mpr fun address => ?_
  simp only [List.count_cons, beq_iff_eq]
  exact same address

theorem handle_changes (s : State) (completion : Completion) (woken : s.worker = .woken completion) :
    Changes s (s.handle completion).2 (s.handle completion).1 := by
  unfold State.handle
  split
  · refine .moves (owned_perm fun address => ?_) rfl (by simp)
    simp [State.contexts, woken, Worker.hand]
  · cases overlapped : completion.overlapped with
    | none =>
      refine .moves (owned_perm fun address => ?_) rfl (by simp)
      simp [State.contexts, woken, Worker.hand, overlapped]
    | some ctx =>
      have mine : ctx.address ∈ s.owned := by
        simp [State.owned, State.contexts, woken, Worker.hand, overlapped]
      dsimp only
      split
      · refine .moves (owned_perm fun address => ?_) rfl (by simp)
        simp [State.contexts, woken, Worker.hand, overlapped]
      · split
        · refine .moves (owned_perm fun address => ?_) rfl (by simpa using mine)
          simp [State.contexts, woken, Worker.hand, overlapped]
        · refine .moves (owned_perm fun address => ?_) rfl (by simpa using mine)
          simp [State.contexts, woken, Worker.hand, overlapped]

theorem work_changes (accepted : Bool) (moved : s.work accepted = some (t, entries)) :
    Changes s entries t := by
  unfold State.work at moved
  cases worker : s.worker with
  | looping =>
    simp only [worker] at moved
    cases Option.some.inj moved
    refine .moves (owned_perm fun address => ?_) rfl (by simp)
    cases s.running <;> simp [State.contexts, worker, Worker.hand]
  | waiting =>
    simp only [worker] at moved
    cases port : s.port with
    | nil => simp [port] at moved
    | cons completion rest =>
      simp only [port] at moved
      cases Option.some.inj moved
      refine .moves (owned_perm fun address => ?_) rfl (by simp)
      cases overlapped : completion.overlapped <;>
        simp [State.contexts, worker, port, overlapped, Worker.hand]
  | woken completion =>
    simp only [worker] at moved
    have handled := handle_changes s completion worker
    rw [Option.some.inj moved] at handled
    exact handled
  | rearming ctx =>
    simp only [worker] at moved
    cases Option.some.inj moved
    refine .news (owned_perm_cons fun address => ?_) rfl [] rfl (by simp)
    simp [State.contexts, worker, Worker.hand, State.newRead]
    omega
  | reposting ctx posted =>
    simp only [worker] at moved
    have mine : posted.address ∈ s.owned := by
      simp [State.owned, State.contexts, worker, Worker.hand]
    cases accepted with
    | true =>
      cases Option.some.inj moved
      refine .moves (owned_perm fun address => ?_) rfl (by simpa using mine)
      simp [State.contexts, worker, Worker.hand]
      omega
    | false =>
      cases Option.some.inj moved
      refine .deletes posted.address (owned_perm_cons fun address => ?_) rfl [.use posted.address] rfl
        (by simp)
      simp [State.contexts, worker, Worker.hand]
      omega
  | deleting ctx =>
    simp only [worker] at moved
    cases Option.some.inj moved
    refine .deletes ctx.address (owned_perm_cons fun address => ?_) rfl [] rfl (by simp)
    simp [State.contexts, worker, Worker.hand]
    omega
  | exited abandoned => simp [worker] at moved

theorem sendSubmits_changes (accepted : Bool)
    (moved : s.sendSubmits index accepted = some (t, entries)) : Changes s entries t := by
  unfold State.sendSubmits at moved
  cases taken : s.sending[index]? with
  | none => simp [taken] at moved
  | some ctx =>
    simp only [taken] at moved
    have counted := countAt_eraseIdx taken
    have mem := List.mem_of_getElem? taken
    have mine : ctx.address ∈ s.owned := List.mem_map_of_mem (by simp [State.contexts, mem])
    cases accepted with
    | true =>
      cases Option.some.inj moved
      refine .moves (owned_perm fun address => ?_) rfl (by simpa using mine)
      have here := counted address
      simp [State.contexts]
      omega
    | false =>
      cases Option.some.inj moved
      refine .deletes ctx.address (owned_perm_cons fun address => ?_) rfl [.use ctx.address] rfl
        (by simp)
      have here := counted address
      simp [State.contexts]
      omega

theorem readCompletes_changes (datagram : Option (List UInt8))
    (moved : s.readCompletes index datagram = some (t, entries)) : Changes s entries t := by
  unfold State.readCompletes at moved
  cases taken : s.reads[index]? with
  | none => simp [taken] at moved
  | some ctx =>
    simp only [taken] at moved
    have counted := countAt_eraseIdx taken
    have mem := List.mem_of_getElem? taken
    have mine : ctx.address ∈ s.owned := List.mem_map_of_mem (by simp [State.contexts, mem])
    cases datagram with
    | none =>
      cases Option.some.inj moved
      refine .moves (owned_perm fun address => ?_) rfl (by simpa using mine)
      have here := counted address
      simp [State.contexts]
      omega
    | some data =>
      dsimp only at moved
      split at moved
      case isTrue => cases moved
      case isFalse =>
        cases Option.some.inj moved
        refine .moves (owned_perm fun address => ?_) rfl (by simpa using mine)
        have here := counted address
        simp [State.contexts]
        omega

theorem writeCompletes_changes (succeeded : Bool)
    (moved : s.writeCompletes index succeeded = some (t, entries)) : Changes s entries t := by
  unfold State.writeCompletes at moved
  cases taken : s.writes[index]? with
  | none => simp [taken] at moved
  | some ctx =>
    simp only [taken] at moved
    have counted := countAt_eraseIdx taken
    have mem := List.mem_of_getElem? taken
    have mine : ctx.address ∈ s.owned := List.mem_map_of_mem (by simp [State.contexts, mem])
    cases Option.some.inj moved
    refine .moves (owned_perm fun address => ?_) rfl (by simpa using mine)
    have here := counted address
    simp [State.contexts]
    omega

theorem move_changes (e : Event) (moved : s.move e = some (t, entries)) : Changes s entries t := by
  cases e with
  | work accepted => exact work_changes accepted moved
  | sendSubmits index accepted => exact sendSubmits_changes accepted moved
  | readCompletes index datagram => exact readCompletes_changes datagram moved
  | writeCompletes index succeeded => exact writeCompletes_changes succeeded moved
  | initNews =>
    simp only [State.move] at moved
    split at moved
    case isTrue => cases moved
    case isFalse free =>
      cases Option.some.inj moved
      have none : s.posting = none := by simpa using (not_or.mp free).2
      refine .news (owned_perm_cons fun address => ?_) rfl [] rfl (by simp)
      simp [State.contexts, none, State.newRead]
  | initSubmits accepted =>
    simp only [State.move] at moved
    cases posting : s.posting with
    | none => simp [posting] at moved
    | some ctx =>
      simp only [posting] at moved
      have mine : ctx.address ∈ s.owned :=
        List.mem_map_of_mem (by simp [State.contexts, posting])
      cases accepted with
      | true =>
        cases Option.some.inj moved
        refine .moves (owned_perm fun address => ?_) rfl (by simpa using mine)
        simp [State.contexts, posting]
        omega
      | false =>
        cases Option.some.inj moved
        refine .deletes ctx.address (owned_perm_cons fun address => ?_) rfl [.use ctx.address] rfl
          (by simp)
        simp [State.contexts, posting]
  | sendNews payload =>
    cases Option.some.inj moved
    refine .news (owned_perm_cons fun address => ?_) rfl [.use s.allocated] rfl (by simp)
    simp [State.contexts, State.newWrite]
    omega
  | receive =>
    simp only [State.move] at moved
    split at moved
    · cases moved
    · cases Option.some.inj moved
      exact .moves (.refl _) rfl (by simp)
  | stop =>
    cases Option.some.inj moved
    exact .moves (.refl _) rfl (by simp)
  | wake =>
    simp only [State.move] at moved
    split at moved
    case isTrue => cases moved
    case isFalse =>
      cases Option.some.inj moved
      refine .moves (owned_perm fun address => ?_) rfl (by simp)
      simp [State.contexts]

/-- What nobody but the worker would give back. -/
def State.lost (s : State) : List Context :=
  s.reads ++ s.writes ++ s.port.filterMap Completion.overlapped ++ s.worker.hand

/-- Once the worker has exited, no context that the kernel, the port or the worker has is
deleted. -/
theorem move_lost {abandoned : Option Context} (exited : s.worker = .exited abandoned) (e : Event)
    (moved : s.move e = some (t, entries)) :
    t.worker = .exited abandoned ∧ ∀ address, countAt s.lost address ≤ countAt t.lost address := by
  cases e with
  | work accepted => simp [State.move, State.work, exited] at moved
  | sendNews | stop =>
    cases Option.some.inj moved
    exact ⟨exited, fun address => Nat.le_refl _⟩
  | initNews | receive | wake =>
    simp only [State.move] at moved
    split at moved <;> cases moved
    exact ⟨exited, fun address => by simp [State.lost]⟩
  | initSubmits accepted =>
    simp only [State.move] at moved
    cases posting : s.posting with
    | none => simp [posting] at moved
    | some ctx =>
      simp only [posting] at moved
      cases accepted <;> cases Option.some.inj moved
      · exact ⟨exited, fun address => Nat.le_refl _⟩
      · refine ⟨exited, fun address => ?_⟩
        simp [State.lost]
  | sendSubmits index accepted =>
    simp only [State.move, State.sendSubmits] at moved
    cases taken : s.sending[index]? with
    | none => simp [taken] at moved
    | some ctx =>
      simp only [taken] at moved
      cases accepted <;> cases Option.some.inj moved
      · exact ⟨exited, fun address => Nat.le_refl _⟩
      · refine ⟨exited, fun address => ?_⟩
        simp [State.lost]
  | readCompletes index datagram =>
    simp only [State.move, State.readCompletes] at moved
    cases taken : s.reads[index]? with
    | none => simp [taken] at moved
    | some ctx =>
      simp only [taken] at moved
      have counted := countAt_eraseIdx taken
      cases datagram with
      | none =>
        cases Option.some.inj moved
        refine ⟨exited, fun address => ?_⟩
        have here := counted address
        simp [State.lost]
        omega
      | some data =>
        dsimp only at moved
        split at moved
        case isTrue => cases moved
        case isFalse =>
          cases Option.some.inj moved
          refine ⟨exited, fun address => ?_⟩
          have here := counted address
          simp [State.lost]
          omega
  | writeCompletes index succeeded =>
    simp only [State.move, State.writeCompletes] at moved
    cases taken : s.writes[index]? with
    | none => simp [taken] at moved
    | some ctx =>
      simp only [taken] at moved
      have counted := countAt_eraseIdx taken
      cases Option.some.inj moved
      refine ⟨exited, fun address => ?_⟩
      have here := counted address
      simp [State.lost]
      omega

/-- What the heap has seen and what becomes of it. -/
structure Accounted (events : List Event) (t : State) : Prop where
  alone : t.owned.Nodup
  leaves : Leaves ∅ (traceOf State.move {} events) t.owned.toFinset
  lost : ∀ abandoned, t.worker = .exited abandoned → ∀ more u, run step t more = some u →
    ∀ ctx ∈ t.lost, ctx.address ∈ u.owned

theorem lost_owned {ctx : Context} (lost : 0 < countAt s.lost ctx.address) :
    ctx.address ∈ s.owned := by
  refine List.count_pos_iff.mp ?_
  have counted : countAt s.contexts ctx.address =
      countAt s.posting.toList ctx.address + countAt s.sending ctx.address +
        countAt s.lost ctx.address := by
    simp [State.contexts, State.lost]
    omega
  change 0 < countAt s.contexts ctx.address
  omega

/-- In every interleaving of the threads with the kernel each context is deleted once at
most, and used by nobody after that; those that are not deleted are with whoever is to
delete them, but for those that the worker leaves behind, which nobody does. -/
theorem contexts_accounted (events : List Event) (reached : run step {} events = some t) :
    Accounted events t := by
  have start : Owned {} := ⟨by simp [State.owned, State.contexts, Worker.hand], by
    simp [State.owned, State.contexts, Worker.hand]⟩
  have moves (s : State) (e : Event) (t : State) (entries : List (Entry Nat)) (inv : Owned s)
      (moved : s.move e = some (t, entries)) := (move_changes e moved).leaves inv
  obtain ⟨owned, leaves⟩ := traceOf_leaves moves start events reached
  refine ⟨owned.alone, leaves, ?_⟩
  intro abandoned exited more u later ctx mem
  have kept : u.worker = .exited abandoned ∧
      countAt t.lost ctx.address ≤ countAt u.lost ctx.address := by
    refine run_invariant (I := fun u => u.worker = .exited abandoned ∧
      countAt t.lost ctx.address ≤ countAt u.lost ctx.address) ?_ ⟨exited, Nat.le_refl _⟩ later
    rintro v e w ⟨exited, more⟩ stepped
    obtain ⟨⟨_, entries⟩, moved, rfl⟩ := Option.map_eq_some_iff.mp stepped
    obtain ⟨exited, grown⟩ := move_lost exited e moved
    exact ⟨exited, more.trans (grown _)⟩
  refine lost_owned (Nat.lt_of_lt_of_le ?_ kept.2)
  exact List.count_pos_iff.mpr (List.mem_map_of_mem mem)

/-- A datagram comes in and another is on its way out when the server is closed. -/
def closing : List Event :=
  [.initNews, .initSubmits true, .sendNews [1], .sendSubmits 0 true, .work true,
    .readCompletes 0 (some [7])] ++ List.replicate 6 (.work true) ++
    [.stop, .wake, .work true, .work true]

def closed : State where
  running := false
  initReturned := true
  allocated := 3
  reads := [⟨2, true, []⟩]
  writes := [⟨1, false, [1]⟩]
  worker := .exited none
  queue := [[7]]
  bytesReceived := 1
  bytesSent := 1

theorem contexts_accounted_closed : run step {} closing = some closed ∧ Accounted closing closed := by
  have reached : run step {} closing = some closed := by decide
  exact ⟨reached, contexts_accounted closing reached⟩

end UltraDisplay.ServerTransport.Contexts
