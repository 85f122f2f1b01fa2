import UltraDisplay.Server.Discovery.Scan

/-! What the list shows for a client that announces itself again. Only a change of
the name or of the port makes the loop copy the fields of the response. -/
namespace UltraDisplay.Discovery
open CheckedRead

def entryOf (ip : Bytes) (clients : List DiscoveredClient) : Option DiscoveredClient :=
  clients.find? fun entry => entry.ip = ip

def updated (client entry : DiscoveredClient) : DiscoveredClient :=
  if entry.name ≠ client.name ∨ entry.port ≠ client.port then
    { entry with
      name := client.name
      port := client.port
      fingerprint := client.fingerprint
      lastSeen := client.lastSeen }
  else { entry with lastSeen := client.lastSeen }

theorem entryOf_mergeClient (client : DiscoveredClient) (clients : List DiscoveredClient) :
    entryOf client.ip (mergeClient client clients).1 =
      some (match entryOf client.ip clients with
        | none => client
        | some entry => updated client entry) := by
  induction clients with
  | nil => simp [mergeClient, entryOf]
  | cons entry entries ih =>
    simp only [mergeClient]
    split
    case isFalse foreign =>
      simp only [entryOf, List.find?_cons, foreign, decide_false] at ih ⊢
      exact ih
    case isTrue own =>
      simp only [entryOf, List.find?_cons, own, decide_true, updated]
      split
      case isTrue => simp only [List.find?_cons, decide_true]
      case isFalse => simp only [List.find?_cons, decide_true]

/-- The entry of the client's address has what the client announced. -/
def Shows (clients : List DiscoveredClient) (client : DiscoveredClient) : Prop :=
  ∃ entry, entryOf client.ip clients = some entry ∧ entry.name = client.name ∧
    entry.port = client.port ∧ entry.fingerprint = client.fingerprint

/-- The listed entry has the name and the port of the client and another fingerprint. -/
def OnlyFingerprintDiffers (clients : List DiscoveredClient) (client : DiscoveredClient) : Prop :=
  ∃ entry, entryOf client.ip clients = some entry ∧ entry.name = client.name ∧
    entry.port = client.port ∧ entry.fingerprint ≠ client.fingerprint

theorem shows_mergeClient_iff (client : DiscoveredClient) (clients : List DiscoveredClient) :
    Shows (mergeClient client clients).1 client ↔ ¬ OnlyFingerprintDiffers clients client := by
  simp only [Shows, OnlyFingerprintDiffers, entryOf_mergeClient, Option.some.injEq, exists_eq_left']
  cases listed : entryOf client.ip clients with
  | none => simp
  | some entry =>
    simp only [updated, Option.some.injEq, exists_eq_left']
    split
    case isTrue differs =>
      simp only [and_self, true_iff]
      rintro ⟨name, port, _⟩
      exact differs.elim (absurd name) (absurd port)
    case isFalse same =>
      rw [not_or, not_not, not_not] at same
      simp only [same, true_and, not_not]

/-- After an accepted response has been merged the list shows it, unless the entry it
finds differs in the fingerprint alone. -/
theorem latest_announcement_shown_iff {scan next : Scan} {data sender : Bytes} {now : Nat}
    {client : DiscoveredClient} (announced : accept data sender now = some client)
    (stepped : scan.step (.receive data sender now) = some next) :
    Shows next.clients client ↔ ¬ OnlyFingerprintDiffers scan.clients client := by
  cases Scan.step_cases stepped with
  | rejected _ _ ignored =>
    rw [ignored] at announced
    cases announced
  | accepted _ _ accepted =>
    cases Option.some.inj (accepted.symm.trans announced)
    exact shows_mergeClient_iff client scan.clients

def announced : DiscoveredClient where
  name := text ['t', 'v']
  ip := text ['1', '0', '.', '0', '.', '0', '.', '7']
  port := 9000
  fingerprint := text ['a', 'b']
  lastSeen := 5

theorem accept_loneDevice : accept loneDevice [] 5 = some announced := by
  decide +kernel

theorem receive_loneDevice (clients : List DiscoveredClient) :
    ∃ next, ({ clients } : Scan).step (.receive loneDevice [] 5) = some next ∧
      next.clients = (mergeClient announced clients).1 := by
  simp only [Scan.step, accept_loneDevice]
  exact ⟨_, rfl, rfl⟩

theorem latest_announcement_shown_iff_first :
    let old := { announced with name := text ['p', 'c'], fingerprint := text ['o', 'l', 'd'] }
    ∃ next, ({ clients := [old] } : Scan).step (.receive loneDevice [] 5) = some next ∧
      (Shows next.clients announced ↔ ¬ OnlyFingerprintDiffers [old] announced) := by
  intro old
  obtain ⟨next, stepped, _⟩ := receive_loneDevice [old]
  exact ⟨next, stepped, latest_announcement_shown_iff accept_loneDevice stepped⟩

/-- The device has a new key and the list keeps the old one. -/
theorem rekeyed_device_keeps_old_key :
    let old := { announced with fingerprint := text ['o', 'l', 'd'] }
    ∃ next, ({ clients := [old] } : Scan).step (.receive loneDevice [] 5) = some next ∧
      accept loneDevice [] 5 = some announced ∧ ¬ Shows next.clients announced := by
  intro old
  obtain ⟨next, stepped, merged⟩ := receive_loneDevice [old]
  refine ⟨next, stepped, accept_loneDevice, ?_⟩
  rw [merged, shows_mergeClient_iff, not_not]
  exact ⟨old, by decide, rfl, rfl, by decide⟩

end UltraDisplay.Discovery
