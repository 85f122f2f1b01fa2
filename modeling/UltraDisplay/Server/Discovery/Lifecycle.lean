import UltraDisplay.Server.Discovery.Query
import UltraDisplay.Server.Discovery.Scan

/-! `start_scan` and `stop_scan` of server/gui/discovery.cpp with the scan thread that they
start and join. The window procedure calls both, so that one caller waits for the other
call to return; the thread goes on in between. It calls the callback with `mutex_` held,
which `get_clients` and `set_callback` lock. -/
namespace UltraDisplay.Discovery
open CheckedRead Transition

/-- `QUERY_INTERVAL`, two seconds in nanoseconds. -/
def queryInterval : Nat := 2 * 1000000000

/-- What the callback does: it returns, or it locks the mutex that its caller holds. -/
inductive Callback where
  | returns
  | locks
  deriving DecidableEq

/-- Where `scan_thread_func` is: at its sockets, at the test of `running_`, before the query,
in the rest of the loop's body, in a callback that does not return, at its end. `lastQuery`
is `last_query`. -/
inductive Stage where
  | opening
  | testing (lastQuery : Int)
  | asking (lastQuery : Int)
  | scanning (lastQuery : Int)
  | blocked
  | returned
  deriving DecidableEq

/-- `last_query`, in the loop. -/
def Stage.lastQuery? : Stage → Option Int
  | .testing lastQuery | .asking lastQuery | .scanning lastQuery => some lastQuery
  | .opening | .blocked | .returned => none

/-- The thread is in the part of the loop's body that `Scan` is about. -/
def Stage.inBody : Stage → Bool
  | .scanning _ | .blocked => true
  | .opening | .testing _ | .asking _ | .returned => false

/-- `thread` is the joinable thread of `thread_`, and `joining` says that `stop_scan` waits for
it. `locks` belongs to the callback that is set, `timed` to the socket: whether
`SO_RCVTIMEO` was accepted, which nobody asks. No action reads `asked`, the queries of the
latest scan with their times. -/
structure Scanner where
  running : Bool := false
  thread : Option Stage := none
  joining : Bool := false
  terminated : Bool := false
  locks : Bool := false
  timed : Bool := true
  scan : Scan := {}
  asked : List (Bytes × Nat) := []

theorem Scan.step_now {scan next : Scan} {event : Event} (stepped : scan.step event = some next) :
    scan.now ≤ next.now := by
  cases step_cases stepped with
  | rejected _ later | accepted _ later _ | prune _ later => exact later
  | _ => exact le_rfl

namespace Scanner

/-- An event of the loop's body is one of `Scan`: to receive takes a datagram of somebody,
or the end of the time. -/
inductive Event where
  | startScan
  | stopScan
  | join
  | setCallback (callback : Option Callback)
  | bind (bound timed : Bool) (now : Nat)
  | test
  | ask (now : Nat)
  | timeout (now : Nat)
  | scan (event : Discovery.Event)
  deriving DecidableEq

/-- A thread that is assigned to a joinable one ends the program. -/
def startScan (s : Scanner) : Scanner :=
  if s.running then s
  else if s.thread.isSome then { s with running := true, terminated := true }
  else { s with running := true, thread := some .opening }

def stopScan (s : Scanner) : Scanner :=
  { s with running := false, joining := s.thread.isSome }

/-- The query, if it is due. Whether it could be sent does not matter. -/
def ask (s : Scanner) (lastQuery : Int) (now : Nat) : Scanner :=
  if (queryInterval : Int) ≤ now - lastQuery then
    let asked := match sendMdnsQuery with
      | .ok (some pkt) => s.asked ++ [(pkt, now)]
      | _ => s.asked
    { s with thread := some (.scanning now), scan := { s.scan with now }, asked }
  else { s with thread := some (.scanning lastQuery), scan := { s.scan with now } }

/-- Where the thread is after an event of the loop's body: the mutex is held during the
call of the callback, and a second lock of it by the same thread never returns. -/
def stageAfter (s : Scanner) (event : Discovery.Event) (lastQuery : Int) (scan : Scan) : Stage :=
  if s.locks ∧ scan.calls ≠ s.scan.calls then .blocked
  else if event = .compare then .testing lastQuery
  else .scanning lastQuery

def body (s : Scanner) (event : Discovery.Event) : Option Scanner :=
  match s.thread, s.scan.step event with
  | some (.scanning lastQuery), some scan =>
    some { s with scan, thread := some (s.stageAfter event lastQuery scan) }
  | _, _ => none

def step (s : Scanner) : Event → Option Scanner
  | .startScan => if s.joining || s.terminated then none else some s.startScan
  | .stopScan => if s.joining || s.terminated then none else some s.stopScan
  | .join =>
    if s.joining ∧ s.thread = some .returned then some { s with joining := false, thread := none }
    else none
  | .setCallback callback =>
    if s.thread = some .blocked then none
    else some { s with
      scan := { s.scan with callback := callback.isSome }, locks := callback = some .locks }
  | .bind bound timed now =>
    if s.thread = some .opening ∧ s.scan.now ≤ now then
      if bound then some { s with
        thread := some (.testing (now - queryInterval)), scan := { s.scan with now }, asked := []
        timed }
      else some { s with thread := some .returned }
    else none
  | .test =>
    match s.thread with
    | some (.testing lastQuery) =>
      some { s with thread := some (if s.running then .asking lastQuery else .returned) }
    | _ => none
  | .ask now =>
    match s.thread with
    | some (.asking lastQuery) => if s.scan.now ≤ now then some (s.ask lastQuery now) else none
    | _ => none
  | .timeout now => if s.timed then s.body (.receive [] [] now) else none
  | .scan (.setCallback _) => none
  | .scan event => s.body event

inductive Stepped (s : Scanner) : Event → Scanner → Prop where
  | startScan (idle : s.joining = false) : Stepped s .startScan s.startScan
  | stopScan (idle : s.joining = false) : Stepped s .stopScan s.stopScan
  | join (waits : s.joining = true) (ended : s.thread = some .returned) :
      Stepped s .join { s with joining := false, thread := none }
  | setCallback {callback : Option Callback} (free : s.thread ≠ some .blocked) :
      Stepped s (.setCallback callback) { s with
        scan := { s.scan with callback := callback.isSome }, locks := callback = some .locks }
  | bound {timed : Bool} {now : Nat} (place : s.thread = some .opening) (later : s.scan.now ≤ now) :
      Stepped s (.bind true timed now) { s with
        thread := some (.testing (now - queryInterval)), scan := { s.scan with now }, asked := []
        timed }
  | unbound {timed : Bool} {now : Nat} (place : s.thread = some .opening) :
      Stepped s (.bind false timed now) { s with thread := some .returned }
  | test {lastQuery : Int} (place : s.thread = some (.testing lastQuery)) :
      Stepped s .test { s with thread := some (if s.running then .asking lastQuery else .returned) }
  | ask {lastQuery : Int} {now : Nat} (place : s.thread = some (.asking lastQuery))
      (later : s.scan.now ≤ now) : Stepped s (.ask now) (s.ask lastQuery now)
  | timeout {lastQuery : Int} {now : Nat} {scan : Scan} (timed : s.timed = true)
      (place : s.thread = some (.scanning lastQuery))
      (stepped : s.scan.step (.receive [] [] now) = some scan) :
      Stepped s (.timeout now) { s with
        scan, thread := some (s.stageAfter (.receive [] [] now) lastQuery scan) }
  | scan {event : Discovery.Event} {lastQuery : Int} {scan : Scan}
      (place : s.thread = some (.scanning lastQuery)) (stepped : s.scan.step event = some scan)
      (other : ∀ set, event ≠ .setCallback set) :
      Stepped s (.scan event) { s with scan, thread := some (s.stageAfter event lastQuery scan) }

variable {s t : Scanner} {e : Event}

theorem body_cases {event : Discovery.Event} (moved : s.body event = some t) :
    ∃ lastQuery scan, s.thread = some (.scanning lastQuery) ∧ s.scan.step event = some scan ∧
      t = { s with scan, thread := some (s.stageAfter event lastQuery scan) } := by
  unfold body at moved
  split at moved
  case h_2 => cases moved
  case h_1 place stepped =>
    cases moved
    exact ⟨_, _, place, stepped, rfl⟩

theorem step_cases (stepped : step s e = some t) : Stepped s e t := by
  cases e with
  | startScan =>
    simp only [step, Bool.or_eq_true] at stepped
    split at stepped
    case isTrue => cases stepped
    case isFalse idle =>
      cases stepped
      exact .startScan (by simpa using fun waits => idle (.inl waits))
  | stopScan =>
    simp only [step, Bool.or_eq_true] at stepped
    split at stepped
    case isTrue => cases stepped
    case isFalse idle =>
      cases stepped
      exact .stopScan (by simpa using fun waits => idle (.inl waits))
  | join =>
    simp only [step] at stepped
    split at stepped
    case isFalse => cases stepped
    case isTrue ready =>
      cases stepped
      exact .join ready.1 ready.2
  | setCallback callback =>
    simp only [step] at stepped
    split at stepped
    case isTrue => cases stepped
    case isFalse free =>
      cases stepped
      exact .setCallback free
  | bind bound timed now =>
    simp only [step] at stepped
    split at stepped
    case isFalse => cases stepped
    case isTrue ready =>
      cases bound with
      | true =>
        cases stepped
        exact .bound ready.1 ready.2
      | false =>
        cases stepped
        exact .unbound ready.1
  | test =>
    simp only [step] at stepped
    split at stepped
    case h_2 => cases stepped
    case h_1 place =>
      cases stepped
      exact .test place
  | ask now =>
    simp only [step] at stepped
    split at stepped
    case h_2 => cases stepped
    case h_1 place =>
      split at stepped
      case isFalse => cases stepped
      case isTrue later =>
        cases stepped
        exact .ask place later
  | timeout now =>
    simp only [step] at stepped
    split at stepped
    case isFalse => cases stepped
    case isTrue timed =>
      obtain ⟨lastQuery, scan, place, moved, rfl⟩ := body_cases stepped
      exact .timeout timed place moved
  | scan event =>
    cases event with
    | setCallback set => cases stepped
    | receive | announce | measure | prune | compare =>
      obtain ⟨lastQuery, scan, place, moved, rfl⟩ := body_cases stepped
      exact .scan place moved (by simp)

/-- The queries of a scan whose last one was sent at `lastQuery`, if any was. -/
structure Paced (asked : List (Bytes × Nat)) (now : Nat) (lastQuery : Int) : Prop where
  genuine : ∀ sent ∈ asked, sent.1 = query
  earlier : ∀ sent ∈ asked, (sent.2 : Int) ≤ lastQuery
  spaced : asked.Pairwise fun first second => first.2 + queryInterval ≤ second.2
  recent : lastQuery + queryInterval ≤ now ∨ ∃ sent ∈ asked, (sent.2 : Int) = lastQuery

structure Invariant (s : Scanner) : Prop where
  alive : s.terminated = false
  stopping : s.joining = true → s.running = false ∧ s.thread.isSome = true
  stopped : s.joining = false → s.running = false → s.thread = none
  scan : s.scan.Invariant
  rests : (∀ stage ∈ s.thread, stage.inBody = false) → s.scan.place = .receive
  paced : ∀ stage ∈ s.thread, ∀ lastQuery ∈ stage.lastQuery?, Paced s.asked s.scan.now lastQuery
  asked : ∃ lastQuery, Paced s.asked s.scan.now lastQuery

namespace Paced
variable {asked : List (Bytes × Nat)} {now later : Nat} {lastQuery : Int}

theorem first (now : Nat) : Paced [] now (now - queryInterval) :=
  ⟨by simp, by simp, .nil, .inl (by omega)⟩

theorem wait (paced : Paced asked now lastQuery) (after : now ≤ later) :
    Paced asked later lastQuery :=
  ⟨paced.genuine, paced.earlier, paced.spaced, paced.recent.imp_left (by omega)⟩

theorem send (paced : Paced asked now lastQuery)
    (due : (queryInterval : Int) ≤ later - lastQuery) :
    Paced (asked ++ [(query, later)]) later later := by
  have spacing : ∀ sent ∈ asked, sent.2 + queryInterval ≤ later := by
    intro sent mem
    have before := paced.earlier sent mem
    omega
  refine ⟨?_, ?_, ?_, .inr ⟨(query, later), by simp, rfl⟩⟩
  · simpa [or_imp, forall_and] using paced.genuine
  · intro sent mem
    rcases List.mem_append.mp mem with old | new
    · have before := spacing sent old
      omega
    · cases List.mem_singleton.mp new
      exact Int.le_refl _
  · exact List.pairwise_append.mpr ⟨paced.spaced, List.pairwise_singleton .., by simpa using spacing⟩

/-- Before the next query is due, the last one is less than an interval old. -/
theorem sent_recently (paced : Paced asked now lastQuery)
    (early : (now : Int) - lastQuery < queryInterval) :
    ∃ sent ∈ asked, now < sent.2 + queryInterval := by
  rcases paced.recent with due | ⟨sent, mem, same⟩
  · omega
  · exact ⟨sent, mem, by omega⟩

end Paced

theorem ask_eq (s : Scanner) (lastQuery : Int) (now : Nat) : s.ask lastQuery now =
    if (queryInterval : Int) ≤ now - lastQuery then
      { s with
        thread := some (.scanning now), scan := { s.scan with now }
        asked := s.asked ++ [(query, now)] }
    else { s with thread := some (.scanning lastQuery), scan := { s.scan with now } } := by
  rw [ask, sendMdnsQuery_eq]

theorem invariant_init : Invariant {} :=
  ⟨rfl, by simp, fun _ _ => rfl, Scan.invariant_init, fun _ => rfl, by simp, _, Paced.first 0⟩

theorem scan_later {scan : Scan} {now : Nat} (invariant : scan.Invariant)
    (rests : scan.place = .receive) (later : scan.now ≤ now) : Scan.Invariant { scan with now } := by
  obtain ⟨tracks, nonempty, _⟩ := invariant
  refine ⟨tracks.wait later, nonempty, ?_⟩
  simp only [Scan.Tested, rests]

/-- A step of the thread leaves to the caller what is the caller's. -/
theorem Invariant.move (invariant : Invariant s) {before after : Stage} {scan : Scan}
    {asked : List (Bytes × Nat)} {timed : Bool} (place : s.thread = some before) (scanned : scan.Invariant)
    (rests : after.inBody = false → scan.place = .receive)
    (paced : ∀ lastQuery ∈ after.lastQuery?, Paced asked scan.now lastQuery)
    (sent : ∃ lastQuery, Paced asked scan.now lastQuery) :
    Invariant { s with thread := some after, scan, asked, timed } := by
  have stopping : s.joining = true → s.running = false ∧ (some after).isSome = true :=
    fun joins => ⟨(invariant.stopping joins).1, rfl⟩
  refine ⟨invariant.alive, stopping, ?_, scanned, ?_, ?_, sent⟩
  · intro idle off
    have none := invariant.stopped idle off
    simp [place] at none
  · exact fun outside => rests (outside after rfl)
  · intro stage here
    cases Option.some.inj here
    exact paced

theorem Invariant.body (invariant : Invariant s) {event : Discovery.Event} {lastQuery : Int}
    {scan : Scan} (place : s.thread = some (.scanning lastQuery))
    (moved : s.scan.step event = some scan) :
    Invariant { s with scan, thread := some (s.stageAfter event lastQuery scan) } := by
  have here := (invariant.paced _ place lastQuery rfl).wait (Scan.step_now moved)
  refine invariant.move place (Scan.step_invariant invariant.scan moved) ?_ ?_ ⟨_, here⟩
  · unfold stageAfter
    intro outside
    split at outside
    case isTrue => simp [Stage.inBody] at outside
    case isFalse =>
      split at outside
      case isTrue last =>
        subst last
        cases Scan.step_cases moved with
        | compare => rfl
      case isFalse => simp [Stage.inBody] at outside
  · unfold stageAfter
    split
    · simp [Stage.lastQuery?]
    · split <;> simpa [Stage.lastQuery?] using here

theorem step_invariant (invariant : Invariant s) (stepped : step s e = some t) : Invariant t := by
  obtain ⟨alive, stopping, stopped, scan, rests, paced, asked⟩ := id invariant
  cases step_cases stepped with
  | startScan idle =>
    unfold startScan
    split
    case isTrue => exact invariant
    case isFalse off =>
      have none : s.thread = none := stopped idle (by simpa using off)
      have resting := rests (by simp [none])
      rw [none]
      exact ⟨alive, by simp [idle], by simp, scan, fun _ => resting, by simp [Stage.lastQuery?],
        asked⟩
  | stopScan idle =>
    refine ⟨alive, fun joins => ⟨rfl, joins⟩, ?_, scan, rests, paced, asked⟩
    intro none _
    simpa [stopScan] using none
  | join waits ended =>
    have resting := rests (by simp [ended, Stage.inBody])
    exact ⟨alive, by simp, fun _ _ => rfl, scan, fun _ => resting, by simp, asked⟩
  | @setCallback callback free =>
    have kept : s.scan.step (.setCallback callback.isSome) =
        some { s.scan with callback := callback.isSome } := rfl
    exact ⟨alive, stopping, stopped, Scan.step_invariant scan kept, rests, paced, asked⟩
  | @bound timed now place later =>
    have resting : s.scan.place = .receive := rests (by simp [place, Stage.inBody])
    refine invariant.move place (scan_later scan resting later) (fun _ => resting) ?_ ⟨_, .first now⟩
    simpa [Stage.lastQuery?] using Paced.first now
  | unbound place =>
    have resting : s.scan.place = .receive := rests (by simp [place, Stage.inBody])
    exact invariant.move place scan (fun _ => resting) (by simp [Stage.lastQuery?]) asked
  | @test lastQuery place =>
    have here := paced _ place lastQuery rfl
    have resting : s.scan.place = .receive := rests (by simp [place, Stage.inBody])
    refine invariant.move place scan (fun _ => resting) ?_ asked
    split
    · simpa [Stage.lastQuery?] using here
    · simp [Stage.lastQuery?]
  | @ask lastQuery now place later =>
    have here := paced _ place lastQuery rfl
    have kept := scan_later scan (rests (by simp [place, Stage.inBody])) later
    rw [ask_eq]
    split
    case isTrue due =>
      have sent := here.send due
      exact invariant.move place kept (by simp [Stage.inBody]) (by simpa [Stage.lastQuery?] using sent)
        ⟨_, sent⟩
    case isFalse =>
      have waited := here.wait later
      exact invariant.move place kept (by simp [Stage.inBody])
        (by simpa [Stage.lastQuery?] using waited) ⟨_, waited⟩
  | timeout timed place moved => exact invariant.body place moved
  | scan place moved => exact invariant.body place moved

/-- What the two calls and the thread do at each step: a thread is never assigned to a
joinable one, none is left when `stop_scan` has returned, the list that `get_clients` copies
has an address once and after pruning is what the responses of all scans make it, and the
queries ask for the service, are one interval apart, the last of them younger than that,
and are heard as no client. -/
structure Behaves (s : Scanner) (e : Event) (t : Scanner) : Prop where
  alive : t.terminated = false
  joined : t.joining = false → t.running = false → t.thread = none
  snapshot : (t.scan.clients.map DiscoveredClient.ip).Nodup ∧
    ∀ client ∈ t.scan.clients, client.ip ≠ []
  listed : ∀ now, e = .scan (.prune now) → Scan.Recent now t.scan
  asks : ∀ sent ∈ t.asked, AsksForService sent.1
  prompt : ∀ now, e = .ask now → ∃ sent ∈ t.asked, now < sent.2 + queryInterval
  spaced : t.asked.Pairwise fun first second => first.2 + queryInterval ≤ second.2
  unheard : ∀ sent ∈ s.asked, ∀ sender now, e = .scan (.receive sent.1 sender now) →
    t.scan.clients = s.scan.clients

theorem accept_query (sender : Bytes) (now : Nat) : accept query sender now = none := by
  have nonempty : query ≠ [] := by simp [query, header]
  rw [accept, if_neg nonempty, parseMdnsResponse_query]

theorem step_behaves (invariant : Invariant s) (stepped : step s e = some t) : Behaves s e t := by
  obtain ⟨alive, _, joined, scan, _, _, _, paced⟩ := step_invariant invariant stepped
  refine ⟨alive, joined, ⟨scan.tracks.distinct, scan.nonempty⟩, ?_, ?_, ?_, paced.spaced, ?_⟩
  · rintro now rfl
    cases step_cases stepped with
    | scan place moved => exact Scan.prune_recent invariant.scan moved
  · intro sent mem
    rw [paced.genuine sent mem]
    exact query_question
  · rintro now rfl
    cases step_cases stepped with
    | @ask lastQuery _ place later =>
      have here := (invariant.paced _ place lastQuery rfl).wait later
      rw [ask_eq]
      split
      case isTrue => exact ⟨(query, now), by simp, by simp [queryInterval]⟩
      case isFalse early => exact here.sent_recently (by omega)
  · rintro sent mem sender now rfl
    obtain ⟨_, asked⟩ := invariant.asked
    cases step_cases stepped with
    | scan place moved =>
      rw [asked.genuine _ mem] at moved
      cases Scan.step_cases moved with
      | rejected => rfl
      | accepted _ _ announced =>
        rw [accept_query] at announced
        cases announced

end Scanner
end UltraDisplay.Discovery
