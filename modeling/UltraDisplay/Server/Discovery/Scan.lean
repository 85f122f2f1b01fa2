import UltraDisplay.Server.Discovery.Records
import UltraDisplay.Library.ExpiringList
import UltraDisplay.Library.Transition

/-! The list of discovered clients over runs of the scan loop. Each access under the
mutex is an event, so that other threads may set the callback between any two. -/
namespace UltraDisplay.Discovery
open CheckedRead Transition ExpiringList

/-- `STALE_TIMEOUT`, ten seconds in nanoseconds. -/
def staleTimeout : Nat := 10 * 1000000000

/-- The client that a datagram of the sender announces, if any. -/
def accept (data sender : Bytes) (now : Nat) : Option DiscoveredClient :=
  if data = [] then none
  else
    match parseMdnsResponse data {} with
    | .ok (true, client) =>
      some { client with lastSeen := now, ip := if client.ip.isEmpty then sender else client.ip }
    | _ => none

/-- Update the entry of the address or add the client behind the others; the flag is
`changed`. -/
def mergeClient (client : DiscoveredClient) : List DiscoveredClient → List DiscoveredClient × Bool
  | [] => ([client], true)
  | entry :: entries =>
    if entry.ip = client.ip then
      let entry := { entry with lastSeen := client.lastSeen }
      if entry.name ≠ client.name ∨ entry.port ≠ client.port then
        ({ entry with name := client.name, port := client.port, fingerprint := client.fingerprint } ::
          entries, true)
      else (entry :: entries, false)
    else
      let (entries, changed) := mergeClient client entries
      (entry :: entries, changed)

/-- A steady clock does not run back, so the difference is not negative. -/
def pruneStaleClients (now : Nat) (clients : List DiscoveredClient) : List DiscoveredClient :=
  clients.filter fun client => ¬ now - client.lastSeen > staleTimeout

inductive Place where
  | receive
  | announce (changed : Bool)
  | measure
  | prune (oldSize : Nat)
  | compare (oldSize : Nat)
  deriving DecidableEq

/-- `now` is the last reading of the clock and `calls` counts the calls of the
callback. No action reads `began`, the list when the present step of the loop began,
nor `responses`, the accepted responses with their times. -/
structure Scan where
  clients : List DiscoveredClient := []
  callback : Bool := false
  place : Place := .receive
  now : Nat := 0
  calls : Nat := 0
  began : List DiscoveredClient := []
  responses : List (Bytes × Nat) := []

/-- An empty datagram stands for a receive that times out. -/
inductive Event where
  | setCallback (set : Bool)
  | receive (data sender : Bytes) (now : Nat)
  | announce
  | measure
  | prune (now : Nat)
  | compare
  deriving DecidableEq

namespace Scan

def step (scan : Scan) : Event → Option Scan
  | .setCallback set => some { scan with callback := set }
  | .receive data sender now =>
    if scan.place = .receive ∧ scan.now ≤ now then
      match accept data sender now with
      | none => some { scan with now, place := .measure }
      | some client =>
        let (clients, changed) := mergeClient client scan.clients
        some { scan with
          now, clients
          place := .announce changed
          began := scan.clients
          responses := scan.responses ++ [(client.ip, now)] }
    else none
  | .announce =>
    match scan.place with
    | .announce changed => some { scan with
        place := .measure
        calls := if changed && scan.callback then scan.calls + 1 else scan.calls }
    | _ => none
  | .measure =>
    if scan.place = .measure then
      some { scan with place := .prune scan.clients.length, began := scan.clients }
    else none
  | .prune now =>
    match scan.place with
    | .prune oldSize =>
      if scan.now ≤ now then
        some { scan with
          now
          clients := pruneStaleClients now scan.clients
          place := .compare oldSize }
      else none
    | _ => none
  | .compare =>
    match scan.place with
    | .compare oldSize => some { scan with
        place := .receive
        calls := if scan.clients.length ≠ oldSize ∧ scan.callback then scan.calls + 1 else scan.calls }
    | _ => none

end Scan

def apartFromLastSeen (clients : List DiscoveredClient) : List DiscoveredClient :=
  clients.map fun client => { client with lastSeen := 0 }

theorem mergeClient_refreshed (client : DiscoveredClient) {clients : List DiscoveredClient}
    (distinct : (clients.map DiscoveredClient.ip).Nodup) :
    Refreshed DiscoveredClient.ip DiscoveredClient.lastSeen clients client.ip client.lastSeen
      (mergeClient client clients).1 := by
  induction clients with
  | nil => exact ⟨by simp [mergeClient], by simp [mergeClient]⟩
  | cons entry entries ih =>
    obtain ⟨fresh, distinct⟩ := List.nodup_cons.mp distinct
    simp only [mergeClient]
    split
    case isTrue own =>
      have others : ∀ other ∈ entries, other.ip ≠ client.ip := fun other mem same =>
        fresh (own ▸ same ▸ List.mem_map_of_mem mem)
      split
      case isTrue =>
        refine ⟨by simp [own], ?_⟩
        intro other mem
        rcases List.mem_cons.mp mem with rfl | mem
        · exact .inl ⟨own, rfl⟩
        · exact .inr ⟨others other mem, List.mem_cons_of_mem _ mem⟩
      case isFalse =>
        refine ⟨by simp [own], ?_⟩
        intro other mem
        rcases List.mem_cons.mp mem with rfl | mem
        · exact .inl ⟨own, rfl⟩
        · exact .inr ⟨others other mem, List.mem_cons_of_mem _ mem⟩
    case isFalse foreign =>
      have merged := ih distinct
      refine ⟨?_, ?_⟩
      · have absent : client.ip ≠ entry.ip := fun same => foreign same.symm
        simp only [List.map_cons, merged.keys, List.mem_cons, absent, false_or]
        split
        case isTrue => rfl
        case isFalse => rfl
      · intro other mem
        rcases List.mem_cons.mp mem with rfl | mem
        · exact .inr ⟨foreign, List.mem_cons_self⟩
        · exact (merged.stamps other mem).imp_right fun ⟨differs, old⟩ =>
            ⟨differs, List.mem_cons_of_mem _ old⟩

theorem mergeClient_changed (client : DiscoveredClient) (clients : List DiscoveredClient) :
    (mergeClient client clients).2 = true ↔
      apartFromLastSeen (mergeClient client clients).1 ≠ apartFromLastSeen clients := by
  induction clients with
  | nil => simp [mergeClient, apartFromLastSeen]
  | cons entry entries ih =>
    simp only [mergeClient]
    split
    case isFalse => simpa [apartFromLastSeen] using ih
    case isTrue =>
      split
      case isTrue differs =>
        simp only [apartFromLastSeen, List.map_cons, true_iff]
        intro same
        have entrySame := (List.cons.inj same).1
        rcases differs with name | port
        · exact name (congrArg DiscoveredClient.name entrySame).symm
        · exact port (congrArg DiscoveredClient.port entrySame).symm
      case isFalse => simp [apartFromLastSeen]

theorem pruneStaleClients_eq_live (now : Nat) (clients : List DiscoveredClient) :
    pruneStaleClients now clients = live DiscoveredClient.lastSeen staleTimeout now clients := by
  simp only [pruneStaleClients, live, gt_iff_lt, Nat.not_lt]

theorem pruneStaleClients_changed (now : Nat) (clients : List DiscoveredClient) :
    (pruneStaleClients now clients).length ≠ clients.length ↔
      apartFromLastSeen (pruneStaleClients now clients) ≠ apartFromLastSeen clients := by
  rw [pruneStaleClients_eq_live]
  refine not_congr ⟨fun same => ?_, fun same => ?_⟩
  · rw [live_eq_iff_length.mpr same]
  · simpa [apartFromLastSeen] using congrArg List.length same

theorem accept_ip {data sender : Bytes} (accepted : accept data sender now = some client) :
    client.ip ≠ [] ∧ client.lastSeen = now := by
  simp only [accept] at accepted
  split at accepted
  case isTrue => cases accepted
  case isFalse =>
    split at accepted
    case h_2 => cases accepted
    case h_1 out parsed =>
      cases accepted
      have address := (accepted_eq_foldl parsed).2
      simp [address]

namespace Scan

/-- What each event does where the loop is ready for it. -/
inductive Stepped (scan : Scan) : Event → Scan → Prop where
  | setCallback {set : Bool} : Stepped scan (.setCallback set) { scan with callback := set }
  | rejected {data sender : Bytes} {now : Nat} (place : scan.place = .receive)
      (later : scan.now ≤ now) (ignored : accept data sender now = none) :
      Stepped scan (.receive data sender now) { scan with now, place := .measure }
  | accepted {data sender : Bytes} {now : Nat} {client : DiscoveredClient}
      (place : scan.place = .receive) (later : scan.now ≤ now)
      (announced : accept data sender now = some client) :
      Stepped scan (.receive data sender now) { scan with
        now
        clients := (mergeClient client scan.clients).1
        place := .announce (mergeClient client scan.clients).2
        began := scan.clients
        responses := scan.responses ++ [(client.ip, now)] }
  | announce {changed : Bool} (place : scan.place = .announce changed) :
      Stepped scan .announce { scan with
        place := .measure
        calls := if changed && scan.callback then scan.calls + 1 else scan.calls }
  | measure (place : scan.place = .measure) :
      Stepped scan .measure { scan with place := .prune scan.clients.length, began := scan.clients }
  | prune {oldSize now : Nat} (place : scan.place = .prune oldSize) (later : scan.now ≤ now) :
      Stepped scan (.prune now) { scan with
        now
        clients := pruneStaleClients now scan.clients
        place := .compare oldSize }
  | compare {oldSize : Nat} (place : scan.place = .compare oldSize) :
      Stepped scan .compare { scan with
        place := .receive
        calls := if scan.clients.length ≠ oldSize ∧ scan.callback then scan.calls + 1 else scan.calls }

variable {scan next : Scan} {event : Event} {now : Nat}

theorem step_cases (stepped : step scan event = some next) : Stepped scan event next := by
  cases event with
  | setCallback set =>
    cases stepped
    exact .setCallback
  | receive data sender now =>
    simp only [step] at stepped
    split at stepped
    case isFalse => cases stepped
    case isTrue ready =>
      split at stepped
      case h_1 ignored =>
        cases stepped
        exact .rejected ready.1 ready.2 ignored
      case h_2 client announced =>
        cases stepped
        exact .accepted ready.1 ready.2 announced
  | announce =>
    simp only [step] at stepped
    split at stepped
    case h_2 => cases stepped
    case h_1 place =>
      cases stepped
      exact .announce place
  | measure =>
    simp only [step] at stepped
    split at stepped
    case isFalse => cases stepped
    case isTrue place =>
      cases stepped
      exact .measure place
  | prune now =>
    simp only [step] at stepped
    split at stepped
    case h_2 => cases stepped
    case h_1 place =>
      split at stepped
      case isFalse => cases stepped
      case isTrue later =>
        cases stepped
        exact .prune place later
  | compare =>
    simp only [step] at stepped
    split at stepped
    case h_2 => cases stepped
    case h_1 place =>
      cases stepped
      exact .compare place

/-- The flag of the loop, or the size it compares, tells whether the present step
has changed the list. -/
def Tested (scan : Scan) : Prop :=
  match scan.place with
  | .announce changed =>
    changed = true ↔ apartFromLastSeen scan.clients ≠ apartFromLastSeen scan.began
  | .prune oldSize => oldSize = scan.clients.length ∧ scan.began = scan.clients
  | .compare oldSize =>
    scan.clients.length ≠ oldSize ↔ apartFromLastSeen scan.clients ≠ apartFromLastSeen scan.began
  | _ => True

structure Invariant (scan : Scan) : Prop where
  tracks : Tracks DiscoveredClient.ip DiscoveredClient.lastSeen staleTimeout scan.responses scan.now
    scan.clients
  nonempty : ∀ client ∈ scan.clients, client.ip ≠ []
  tested : Tested scan

theorem invariant_init : Invariant {} :=
  ⟨.empty, by simp, trivial⟩

theorem step_invariant (invariant : Invariant scan) (stepped : step scan event = some next) :
    Invariant next := by
  obtain ⟨tracks, nonempty, tested⟩ := invariant
  cases step_cases stepped with
  | setCallback => exact ⟨tracks, nonempty, tested⟩
  | rejected _ later => exact ⟨tracks.wait later, nonempty, trivial⟩
  | @accepted _ _ _ client _ later announced =>
    obtain ⟨address, stamped⟩ := accept_ip announced
    have refreshed := mergeClient_refreshed client tracks.distinct
    rw [stamped] at refreshed
    refine ⟨tracks.refresh later refreshed, ?_, mergeClient_changed client scan.clients⟩
    intro entry mem
    rcases refreshed.stamps entry mem with ⟨own, _⟩ | ⟨_, old⟩
    · exact own ▸ address
    · exact nonempty entry old
  | announce => exact ⟨tracks, nonempty, trivial⟩
  | measure => exact ⟨tracks, nonempty, rfl, rfl⟩
  | prune place later =>
    refine ⟨?_, fun client mem => nonempty client (List.mem_of_mem_filter mem), ?_⟩
    · rw [pruneStaleClients_eq_live]
      exact tracks.expire later
    · simp only [Tested, place] at tested ⊢
      rw [tested.1, tested.2]
      exact pruneStaleClients_changed _ _
  | compare => exact ⟨tracks, nonempty, trivial⟩

/-- The list after pruning at a time: one entry for each address with an accepted
response that is not older than the timeout. -/
structure Recent (now : Nat) (scan : Scan) : Prop where
  distinct : (scan.clients.map DiscoveredClient.ip).Nodup
  nonempty : ∀ client ∈ scan.clients, client.ip ≠ []
  listed : ∀ ip, (∃ client ∈ scan.clients, client.ip = ip) ↔
    ∃ seen, (ip, seen) ∈ scan.responses ∧ now - seen ≤ staleTimeout

/-- At the end of a step of the loop, and only there, a callback that is set is called
exactly when the step has changed more than the times. -/
def Notified (scan : Scan) (event : Event) (next : Scan) : Prop :=
  next.calls = scan.calls +
    if (event = .announce ∨ event = .compare) ∧ scan.callback = true ∧
      apartFromLastSeen scan.clients ≠ apartFromLastSeen scan.began then 1 else 0

theorem prune_recent (invariant : Invariant scan) (stepped : step scan (.prune now) = some next) :
    Recent now next := by
  have kept := step_invariant invariant stepped
  refine ⟨kept.tracks.distinct, kept.nonempty, fun ip => ?_⟩
  cases step_cases stepped with
  | prune place later =>
    rw [← invariant.tracks.expire_iff later ip, ← pruneStaleClients_eq_live, List.mem_map]

theorem step_notified (invariant : Invariant scan) (stepped : step scan event = some next) :
    Notified scan event next := by
  have tested := invariant.tested
  cases step_cases stepped with
  | announce place =>
    simp only [Tested, place] at tested
    simp only [Notified, true_or, true_and, ← tested, Bool.and_eq_true, and_comm]
    split <;> rfl
  | compare place =>
    simp only [Tested, place] at tested
    simp only [Notified, or_true, true_and, ← tested, and_comm]
    split <;> rfl
  | setCallback => rfl
  | rejected => rfl
  | accepted => rfl
  | measure => rfl
  | prune => rfl

/-- Whatever is received when and whenever the callback is set. -/
theorem run_recent_notified (events : List Event) :
    EveryStep step
      (fun scan event next => (∀ now, event = .prune now → Recent now next) ∧
        Notified scan event next) {} events := by
  refine everyStep_guarded (fun _ _ _ invariant _ => step_invariant invariant) ?_
    (Guarded.of_forall (p := fun _ => True) fun _ _ => trivial) invariant_init
  intro scan event next invariant _ stepped
  refine ⟨fun now same => ?_, step_notified invariant stepped⟩
  subst same
  exact prune_recent invariant stepped

end Scan

end UltraDisplay.Discovery
