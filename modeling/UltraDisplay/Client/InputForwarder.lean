import UltraDisplay.Library.Ledger
import UltraDisplay.Shared.Result

/-! The devices of client/input/input_forwarder.cpp: which `init` opens, which it keeps for
`poll_loop` and what the destructor closes. -/
namespace UltraDisplay
open Ledger

namespace InputForwarder

/-- A device is told by the call of `init` and its place in the directory. -/
inductive Resource where
  | dir (call : Nat)
  | fd (device : Nat × Nat)
  | evdev (device : Nat × Nat)
  deriving DecidableEq

/-- What `libevdev_has_event_type` answers. -/
structure EventTypes where
  key : Bool
  rel : Bool
  abs : Bool
  deriving DecidableEq

/-- Keyboards, mice and gamepads. -/
def EventTypes.forwarded (types : EventTypes) : Bool := types.key || types.rel || types.abs

/-- A name in the directory, and what happens when it is opened. -/
structure DirEntry where
  name : String
  opens : Bool
  evdev : Option EventTypes
  deriving DecidableEq

def DirEntry.valid (entry : DirEntry) : Bool :=
  "event".isPrefixOf entry.name && entry.opens && entry.evdev.any EventTypes.forwarded

/-- The body of the loop, and whether it keeps the descriptor. -/
def readEntry (device : Nat × Nat) (entry : DirEntry) : List (Entry Resource) × Bool :=
  if !"event".isPrefixOf entry.name then ([], false)
  else if !entry.opens then ([], false)
  else
    let got : List (Entry Resource) := [.acquire (.fd device), .use (.fd device)]
    match entry.evdev with
    | none => (got ++ [.release (.fd device)], false)
    | some types =>
      let got := got ++ [.acquire (.evdev device), .use (.evdev device)]
      if types.forwarded then (got ++ [.release (.evdev device)], true)
      else (got ++ [.release (.fd device), .release (.evdev device)], false)

/-- The loop over the directory, from a place on: what it does and the descriptors it adds. -/
def readDir (call index : Nat) : List DirEntry → List (Entry Resource) × List (Nat × Nat)
  | [] => ([.use (.dir call)], [])
  | entry :: rest =>
    let (trace, kept) := readEntry (call, index) entry
    let (traces, fds) := readDir call (index + 1) rest
    (.use (.dir call) :: (trace ++ traces), if kept then (call, index) :: fds else fds)

end InputForwarder

structure InputForwarder where
  evdevFds : List (Nat × Nat) := []
  deriving DecidableEq

namespace InputForwarder

/-- `dir` is what `opendir` gives. -/
def init (s : InputForwarder) (call : Nat) (dir : Option (List DirEntry)) :
    InputForwarder × List (Entry Resource) × Result Unit :=
  match dir with
  | none => (s, [], .error (systemError "Cannot open /dev/input"))
  | some entries =>
    let (trace, fds) := readDir call 0 entries
    let s := { s with evdevFds := s.evdevFds ++ fds }
    (s, .acquire (.dir call) :: (trace ++ [.release (.dir call)]),
      if s.evdevFds.isEmpty then .error (systemError "No valid input devices found") else .ok ())

def destructor (s : InputForwarder) : List (Entry Resource) :=
  s.evdevFds.map fun device => .release (.fd device)

/-- The forwarder after calls of `init`, the first of them with the number given, and what
they do. -/
def inits (s : InputForwarder) (call : Nat) :
    List (Option (List DirEntry)) → InputForwarder × List (Entry Resource)
  | [] => (s, [])
  | dir :: dirs =>
    let (s, trace, _) := s.init call dir
    let (s, traces) := s.inits (call + 1) dirs
    (s, trace ++ traces)

def places (call index : Nat) (entries : List DirEntry) : List (Nat × Nat) :=
  (entries.zipIdx index).filterMap fun (entry, place) =>
    if entry.valid then some (call, place) else none

def owned (fds : List (Nat × Nat)) : Finset Resource := (fds.map Resource.fd).toFinset

@[simp] theorem mem_owned {resource : Resource} {fds : List (Nat × Nat)} :
    resource ∈ owned fds ↔ ∃ device ∈ fds, .fd device = resource := by
  simp [owned]

/-- The descriptors are those of earlier places. -/
def Before (call index : Nat) (fds : List (Nat × Nat)) : Prop :=
  ∀ device ∈ fds, device.1 < call ∨ device.1 = call ∧ device.2 < index

variable {call index : Nat} {fds : List (Nat × Nat)} {held : Finset Resource}

theorem readEntry_spec (device : Nat × Nat) (entry : DirEntry) (free : .fd device ∉ held)
    (free' : .evdev device ∉ held) :
    Leaves held (readEntry device entry).1
        (if entry.valid then insert (.fd device) held else held) ∧
      (readEntry device entry).2 = entry.valid := by
  obtain ⟨name, opens, evdev⟩ := entry
  unfold readEntry DirEntry.valid
  cases "event".isPrefixOf name with
  | false => simp
  | true =>
    cases opens with
    | false => simp
    | true =>
      cases evdev with
      | none => simp [free]
      | some types =>
        have evdev : .evdev device ∉ insert (.fd device) held := by simp [free']
        cases forwarded : types.forwarded with
        | false =>
          have closed : ((insert (.evdev device) (insert (.fd device) held)).erase
              (.fd device)).erase (.evdev device) = held := by
            rw [Finset.erase_right_comm, Finset.erase_insert evdev, Finset.erase_insert free]
          simpa [forwarded, free, free'] using closed
        | true => simp [forwarded, free, free']

theorem places_cons (entry : DirEntry) (rest : List DirEntry) :
    places call index (entry :: rest) =
      (if entry.valid then [(call, index)] else []) ++ places call (index + 1) rest := by
  unfold places
  rw [List.zipIdx_cons, List.filterMap_cons]
  cases valid : entry.valid <;> simp [valid]

theorem Before.append (before : Before call index fds) {more : List (Nat × Nat)}
    (here : ∀ device ∈ more, device = (call, index)) : Before call (index + 1) (fds ++ more) := by
  intro device mem
  rcases List.mem_append.mp mem with mem | mem
  · have earlier := before device mem
    omega
  · rw [here device mem]
    exact .inr ⟨rfl, Nat.lt_succ_self _⟩

theorem readDir_spec (entries : List DirEntry) (before : Before call index fds) :
    Leaves (insert (.dir call) (owned fds)) (readDir call index entries).1
        (insert (.dir call) (owned (fds ++ places call index entries))) ∧
      (readDir call index entries).2 = places call index entries := by
  induction entries generalizing index fds with
  | nil => simp [readDir, places]
  | cons entry rest ih =>
    have free : .fd (call, index) ∉ insert (.dir call) (owned fds) := by
      intro mem
      obtain ⟨device, mem, same⟩ : ∃ device ∈ fds, Resource.fd device = .fd (call, index) := by
        simpa using mem
      have earlier := before device mem
      cases same
      omega
    obtain ⟨first, kept⟩ := readEntry_spec (call, index) entry free (by simp)
    have next : (if entry.valid then insert (.fd (call, index)) (insert (.dir call) (owned fds))
        else insert (.dir call) (owned fds)) =
          insert (.dir call) (owned (fds ++ if entry.valid then [(call, index)] else [])) := by
      cases entry.valid with
      | false => simp
      | true =>
        ext resource
        simp only [owned, Finset.mem_insert, List.mem_toFinset, if_true, List.map_append,
          List.mem_append, List.map_cons, List.map_nil, List.mem_singleton]
        tauto
    have here : ∀ device ∈ (if entry.valid then [(call, index)] else []), device = (call, index) := by
      cases entry.valid <;> simp
    obtain ⟨later, fds'⟩ := ih (before.append here)
    rw [next] at first
    rw [places_cons, ← List.append_assoc]
    simp only [readDir, kept, fds']
    refine ⟨.use (Finset.mem_insert_self ..) (first.append later), ?_⟩
    cases entry.valid <;> rfl

def devices (call : Nat) (dirs : List (Option (List DirEntry))) : List (Nat × Nat) :=
  (dirs.zipIdx call).flatMap fun (dir, call) => places call 0 (dir.getD [])

theorem devices_cons (dir : Option (List DirEntry)) (dirs : List (Option (List DirEntry))) :
    devices call (dir :: dirs) = places call 0 (dir.getD []) ++ devices (call + 1) dirs := by
  simp [devices]

/-- At most one descriptor for each place. -/
theorem places_sublist (entries : List DirEntry) :
    (places call index entries).Sublist ((List.range' index entries.length).map (Prod.mk call)) := by
  induction entries generalizing index with
  | nil => exact .slnil
  | cons entry rest ih =>
    rw [places_cons, List.length_cons, List.range'_succ, List.map_cons]
    cases entry.valid with
    | false => exact .cons _ ih
    | true => exact .cons_cons _ ih

theorem places_mem {entries : List DirEntry} {device : Nat × Nat}
    (mem : device ∈ places call index entries) : device.1 = call := by
  obtain ⟨_, _, rfl⟩ := List.mem_map.mp ((places_sublist entries).subset mem)
  rfl

theorem devices_mem {dirs : List (Option (List DirEntry))} {device : Nat × Nat}
    (mem : device ∈ devices call dirs) : call ≤ device.1 := by
  obtain ⟨⟨dir, later⟩, zipped, mem⟩ := List.mem_flatMap.mp mem
  rw [places_mem mem]
  exact List.le_snd_of_mem_zipIdx zipped

theorem devices_nodup (call : Nat) (dirs : List (Option (List DirEntry))) :
    (devices call dirs).Nodup := by
  induction dirs generalizing call with
  | nil => exact List.nodup_nil
  | cons dir dirs ih =>
    rw [devices_cons]
    refine List.nodup_append.mpr ⟨?_, ih (call + 1), ?_⟩
    · refine (places_sublist _).nodup ((List.nodup_range' ..).map ?_)
      exact fun _ _ same => congrArg Prod.snd same
    · rintro device here _ later rfl
      have bound := devices_mem later
      rw [places_mem here] at bound
      omega

theorem init_spec (s : InputForwarder) (dir : Option (List DirEntry))
    (before : Before call 0 s.evdevFds) :
    (s.init call dir).1.evdevFds = s.evdevFds ++ places call 0 (dir.getD []) ∧
      Leaves (owned s.evdevFds) (s.init call dir).2.1 (owned (s.init call dir).1.evdevFds) := by
  cases dir with
  | none => exact ⟨(List.append_nil _).symm, .nil⟩
  | some entries =>
    obtain ⟨leaves, fds⟩ := readDir_spec entries before
    simp only [init, fds, Option.getD_some, true_and]
    refine .acquire (by simp) (leaves.append (.release (Finset.mem_insert_self ..) ?_))
    rw [Finset.erase_insert (by simp)]
    exact .nil

theorem inits_spec (s : InputForwarder) (dirs : List (Option (List DirEntry)))
    (before : Before call 0 s.evdevFds) :
    (s.inits call dirs).1.evdevFds = s.evdevFds ++ devices call dirs ∧
      Leaves (owned s.evdevFds) (s.inits call dirs).2 (owned (s.inits call dirs).1.evdevFds) := by
  induction dirs generalizing s call with
  | nil => simp [inits, devices]
  | cons dir dirs ih =>
    obtain ⟨fds, leaves⟩ := init_spec s dir before
    have later : Before (call + 1) 0 (s.init call dir).1.evdevFds := by
      intro device mem
      rw [fds] at mem
      rcases List.mem_append.mp mem with mem | mem
      · have earlier := before device mem
        omega
      · have here := places_mem mem
        omega
    obtain ⟨fds', leaves'⟩ := ih (s.init call dir).1 later
    refine ⟨?_, leaves.append leaves'⟩
    rw [devices_cons, ← List.append_assoc, ← fds]
    exact fds'

theorem destructor_leaves {s : InputForwarder} (distinct : s.evdevFds.Nodup) :
    Leaves (owned s.evdevFds) s.destructor ∅ := by
  unfold destructor
  generalize s.evdevFds = fds at distinct
  induction fds with
  | nil => exact .nil
  | cons device rest ih =>
    obtain ⟨absent, distinct⟩ := List.nodup_cons.mp distinct
    refine .release (by simp) ?_
    have left : (owned (device :: rest)).erase (.fd device) = owned rest := by
      rw [owned, List.map_cons, List.toFinset_cons]
      exact Finset.erase_insert (by simpa using absent)
    rw [left]
    exact ih distinct

/-- Whatever the directory holds in each call of `init`, and whatever of it can be opened:
`poll_loop` gets the keyboards, mice and gamepads of all of them in order, and each
descriptor that was opened is closed once, at the latest by the destructor, as is all
that `init` needs meanwhile. -/
theorem forwarder_accounts (dirs : List (Option (List DirEntry))) :
    (inits {} 0 dirs).1.evdevFds = devices 0 dirs ∧
      Leaves ∅ ((inits {} 0 dirs).2 ++ (inits {} 0 dirs).1.destructor) ∅ := by
  obtain ⟨fds, leaves⟩ := inits_spec {} dirs (fun device mem => by cases mem)
  refine ⟨fds, leaves.append (destructor_leaves ?_)⟩
  rw [fds]
  exact devices_nodup 0 dirs

end InputForwarder
end UltraDisplay
