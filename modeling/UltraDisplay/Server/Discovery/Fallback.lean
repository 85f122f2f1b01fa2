import UltraDisplay.Server.Discovery.Scan
import UltraDisplay.Server.Discovery.WireFormat

/-! Responses without an address. The scan loop has the address of their sender ready
for them, but the parser accepts no response without an A record. -/
namespace UltraDisplay.Discovery
open CheckedRead Scan

/-- The response has a PTR record for the service, but no A record. -/
structure Addressless (m : Message) : Prop where
  serves : ∃ record ∈ m.records, record.owner = serviceLabels ∧ record.rdata.rrType = dnsTypePtr
  noAddress : ∀ record ∈ m.records, record.rdata.rrType ≠ dnsTypeA

/-- An entry of the address was made or refreshed at the time. -/
def SeenAt (clients : List DiscoveredClient) (address : Bytes) (now : Nat) : Prop :=
  ∃ client ∈ clients, client.ip = address ∧ client.lastSeen = now

theorem Addressless.not_announces {m : Message} (addressless : Addressless m) :
    m.announces = false := by
  have without : ∀ record ∈ m.records, record.rdata.address?.isSome = false := by
    intro record member
    have other := addressless.noAddress record member
    cases data : record.rdata with
    | a b0 b1 b2 b3 =>
      rw [data] at other
      exact absurd rfl other
    | ptr | srv | txt | other => rfl
  have nowhere : (m.records.any fun record => record.rdata.address?.isSome) = false := by
    rw [List.any_eq_false]
    intro record member
    rw [without record member]
    exact Bool.false_ne_true
  rw [Message.announces, nowhere, Bool.and_false]

/-- The branch with the sender's address is never reached by a response that needs it. -/
theorem accept_addressless {pkt : Bytes} {m : Message} (rendered : Renders pkt m)
    (addressless : Addressless m) (sender : Bytes) (now : Nat) : accept pkt sender now = none := by
  have long := rendered.fields.1
  have filled : pkt ≠ [] := List.ne_nil_of_length_pos (by omega)
  rw [accept, if_neg filled, rendered.parses, addressless.not_announces]

/-- A response without an address records nothing: its sender is listed as seen now
only if it was before. -/
theorem sender_recorded_iff (scan : Scan) {pkt : Bytes} {m : Message} (rendered : Renders pkt m)
    (addressless : Addressless m) (sender : Bytes) (now : Nat) (ready : scan.place = .receive)
    (later : scan.now ≤ now) :
    ∃ next, step scan (.receive pkt sender now) = some next ∧ next.clients = scan.clients ∧
      (SeenAt next.clients sender now ↔ SeenAt scan.clients sender now) := by
  refine ⟨{ scan with now, place := .measure }, ?_, rfl, Iff.rfl⟩
  simp only [step, ready, later, and_self, if_true, accept_addressless rendered addressless]

/-- `tv._ultradisplay._udp.local`, and nothing about its host. -/
def unaddressed : Bytes :=
  [0, 0, 0x84, 0, 0, 0, 0, 1, 0, 0, 0, 0] ++
  encodeRecord (encodeLabel ['_', 'u', 'l', 't', 'r', 'a', 'd', 'i', 's', 'p', 'l', 'a', 'y'] ++
      encodeLabel ['_', 'u', 'd', 'p'] ++ encodeLabel ['l', 'o', 'c', 'a', 'l'] ++ [0])
    12 (encodeLabel ['t', 'v'] ++ [0xC0, 12])

def unaddressedMessage : Message :=
  { id := 0, flags := 0x8400, questions := [], authority := [], additional := []
    answers := [⟨serviceLabels, 1, 120, .ptr (text ['t', 'v'] :: serviceLabels)⟩] }

theorem unaddressed_renders : Renders unaddressed unaddressedMessage where
  size := by decide
  response := by decide
  header := by decide +kernel
  body := by
    have service : NameAt unaddressed 12 serviceLabels 38 0 :=
      .label (by decide) (by decide) (by decide +kernel)
        (.label (by decide) (by decide) (by decide +kernel)
          (.label (by decide) (by decide) (by decide +kernel) (.root (by decide +kernel))))
    have inst : NameAt unaddressed 48 (text ['t', 'v'] :: serviceLabels) 53 1 :=
      .label (by decide) (by decide) (by decide +kernel)
        (.pointer (by decide) (by decide +kernel) service)
    have ptr : RecordAt unaddressed 12 unaddressedMessage.records[0] 53 :=
      ⟨38, 5, ⟨0, by decide, service⟩, by decide +kernel, ⟨1, by decide, inst⟩, rfl⟩
    exact ⟨12, .nil, .cons ptr .nil⟩

theorem unaddressed_addressless : Addressless unaddressedMessage := by
  constructor
  · exact ⟨_, List.mem_singleton_self _, rfl, rfl⟩
  · intro record member
    rw [List.mem_singleton.mp member]
    decide

theorem sender_recorded_iff_unaddressed :
    let sender := text ['1', '0', '.', '0', '.', '0', '.', '7']
    ∃ next, step {} (.receive unaddressed sender 5) = some next ∧
      next.clients = ({} : Scan).clients ∧
      (SeenAt next.clients sender 5 ↔ SeenAt ({} : Scan).clients sender 5) :=
  sender_recorded_iff {} unaddressed_renders unaddressed_addressless _ 5 rfl (Nat.zero_le _)

/-- With nothing listed, nothing is listed afterwards. -/
theorem sender_not_recorded : ¬ ∀ (scan next : Scan) (pkt : Bytes) (m : Message) (sender : Bytes)
    (now : Nat), Renders pkt m → Addressless m →
    step scan (.receive pkt sender now) = some next → SeenAt next.clients sender now := by
  intro claim
  have missed := accept_addressless unaddressed_renders unaddressed_addressless
    (text ['1', '0', '.', '0', '.', '0', '.', '7']) 5
  have stepped : step {} (.receive unaddressed (text ['1', '0', '.', '0', '.', '0', '.', '7']) 5) =
      some { now := 5, place := .measure } := by
    simp only [step, missed, Nat.zero_le, and_self, if_true]
  obtain ⟨client, member, _⟩ :=
    claim _ _ _ _ _ _ unaddressed_renders unaddressed_addressless stepped
  exact absurd member List.not_mem_nil

end UltraDisplay.Discovery
