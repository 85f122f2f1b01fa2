import UltraDisplay.Server.Discovery.Bounds
import UltraDisplay.Library.LastWrite

/-! Which records of a packet the fields of a reported client come from. The parser
looks at no owner name, so each field is what the last record of its type carries. -/
namespace UltraDisplay.Discovery
open CheckedRead LastWrite

def nameAt (pkt : Bytes) (offset : Nat) : Bytes := (valueOr ([], 0) (decodeDnsName pkt offset)).1
def byteAt (pkt : Bytes) (index : Nat) : UInt8 := valueOr 0 (read pkt index)
def u16At (pkt : Bytes) (index : Nat) : UInt16 := valueOr 0 (readU16 pkt index)

theorem decodeDnsName_eq_nameAt (pkt : Bytes) (offset : Nat) :
    ∃ next, decodeDnsName pkt offset = .ok (nameAt pkt offset, next) :=
  ⟨_, (decodeDnsName_succeeds pkt offset).eq_valueOr ([], 0)⟩

theorem read_eq_byteAt {pkt : Bytes} (inside : index < pkt.length) :
    read pkt index = .ok (byteAt pkt index) :=
  (read_succeeds inside).eq_valueOr 0

theorem readU16_eq_u16At {pkt : Bytes} (inside : index + 2 ≤ pkt.length) :
    readU16 pkt index = .ok (u16At pkt index) :=
  (readU16_succeeds inside).eq_valueOr 0

/-- The records that the loop of `parse_mdns_response` visits. -/
def recordsFrom (pkt : Bytes) : (count offset : Nat) → List Record
  | 0, _ => []
  | count + 1, offset =>
    if offset < pkt.length then
      match valueOr none (readRecord pkt offset) with
      | none => []
      | some record => record :: recordsFrom pkt count (record.rdStart + record.rdLen)
    else []

def records (pkt : Bytes) : List Record :=
  match valueOr none (skipQuestions pkt (u16At pkt 4).toNat 12) with
  | none => []
  | some offset => recordsFrom pkt (u16At pkt 6 + u16At pkt 10 + u16At pkt 8).toNat offset

namespace Record

def pointsTo? (pkt : Bytes) (record : Record) : Option Bytes :=
  if record.rrType = dnsTypePtr then some (nameAt pkt record.rdStart) else none

def service? (pkt : Bytes) (record : Record) : Option (UInt16 × Bytes) :=
  if record.rrType = dnsTypeSrv ∧ 6 ≤ record.rdLen then
    some (u16At pkt (record.rdStart + 4), nameAt pkt (record.rdStart + 6))
  else none

def fingerprint? (pkt : Bytes) (record : Record) : Option Bytes :=
  if record.rrType = dnsTypeTxt then
    valueOr none (readTxt pkt (record.rdStart + record.rdLen) (record.rdLen + 1) record.rdStart none)
  else none

def address? (pkt : Bytes) (record : Record) : Option Bytes :=
  if record.rrType = dnsTypeA ∧ record.rdLen = 4 then
    some (dottedQuad (byteAt pkt record.rdStart) (byteAt pkt (record.rdStart + 1))
      (byteAt pkt (record.rdStart + 2)) (byteAt pkt (record.rdStart + 3)))
  else none

end Record

/-- What a record makes of the variables of the loop. -/
def applied (pkt : Bytes) (parse : Parse) (record : Record) : Parse where
  out := { parse.out with
    name := ((record.pointsTo? pkt).map beforeDot).getD parse.out.name
    port := ((record.service? pkt).map Prod.fst).getD parse.out.port
    fingerprint := (record.fingerprint? pkt).getD parse.out.fingerprint
    ip := (record.address? pkt).getD parse.out.ip }
  foundService := parse.foundService || (record.pointsTo? pkt).isSome
  srvTarget := ((record.service? pkt).map Prod.snd).getD parse.srvTarget

theorem takeRecord_eq_applied {pkt : Bytes} {record : Record} (parse : Parse)
    (inside : record.rdStart + record.rdLen ≤ pkt.length) :
    takeRecord pkt record parse = .ok (applied pkt parse record) := by
  simp only [takeRecord, applied, Record.pointsTo?, Record.service?, Record.fingerprint?,
    Record.address?]
  split
  case isTrue ptr =>
    obtain ⟨next, decodes⟩ := decodeDnsName_eq_nameAt pkt record.rdStart
    simp only [ptr, decodes, Option.isSome_some, Bool.or_true]
    rfl
  case isFalse notPtr =>
    split
    case isTrue srv =>
      split
      case isFalse short =>
        simp only [srv, short, Option.isSome_none, Bool.or_false]
        rfl
      case isTrue long =>
        have port : record.rdStart + 4 + 2 ≤ pkt.length := by omega
        obtain ⟨next, decodes⟩ := decodeDnsName_eq_nameAt pkt (record.rdStart + 6)
        simp only [srv, long, readU16_eq_u16At port, decodes, Option.isSome_none, Bool.or_false]
        rfl
    case isFalse notSrv =>
      split
      case isTrue txt =>
        obtain ⟨fingerprint, reads, _⟩ :=
          readTxt_succeeds inside (record.rdLen + 1) record.rdStart none (by omega)
        simp only [txt, reads, Option.isSome_none, Bool.or_false]
        rfl
      case isFalse notTxt =>
        split
        case isFalse notA =>
          simp only [notSrv, notA, Option.isSome_none, Bool.or_false]
          rfl
        case isTrue a =>
          split
          case isFalse notFour =>
            simp only [a, notFour, Option.isSome_none, Bool.or_false]
            rfl
          case isTrue four =>
            have b0 : record.rdStart < pkt.length := by omega
            have b1 : record.rdStart + 1 < pkt.length := by omega
            have b2 : record.rdStart + 2 < pkt.length := by omega
            have b3 : record.rdStart + 3 < pkt.length := by omega
            simp only [a, four, read_eq_byteAt b0, read_eq_byteAt b1, read_eq_byteAt b2,
              read_eq_byteAt b3, Option.isSome_none, Bool.or_false]
            rfl

theorem readRecords_eq_foldl (pkt : Bytes) (count offset : Nat) (parse : Parse) :
    readRecords pkt count offset parse =
      .ok ((recordsFrom pkt count offset).foldl (applied pkt) parse) := by
  induction count generalizing offset parse with
  | zero => rfl
  | succ count ih =>
    simp only [readRecords, recordsFrom]
    split
    case isFalse => rfl
    case isTrue =>
      obtain ⟨found, same, inside⟩ := readRecord_succeeds pkt offset
      rw [same]
      cases found with
      | none => rfl
      | some record =>
        simp only [bind, Except.bind, valueOr, takeRecord_eq_applied parse (inside record rfl)]
        exact ih _ _

attribute [ext] DiscoveredClient

theorem foldl_applied_out (pkt : Bytes) (founds : List Record) :
    (founds.foldl (applied pkt) { out := {} }).out =
      { name := ((last (Record.pointsTo? pkt) founds).map beforeDot).getD []
        port := ((last (Record.service? pkt) founds).map Prod.fst).getD 0
        fingerprint := (last (Record.fingerprint? pkt) founds).getD []
        ip := (last (Record.address? pkt) founds).getD [] } := by
  rw [← last_map, ← last_map]
  ext1
  case name => exact field_foldl (fun parse : Parse => parse.out.name) (fun _ _ => rfl) _ _
  case ip => exact field_foldl (fun parse : Parse => parse.out.ip) (fun _ _ => rfl) _ _
  case port => exact field_foldl (fun parse : Parse => parse.out.port) (fun _ _ => rfl) _ _
  case fingerprint =>
    exact field_foldl (fun parse : Parse => parse.out.fingerprint) (fun _ _ => rfl) _ _
  case lastSeen =>
    have keeps (parse : Parse) (record : Record) :
        (applied pkt parse record).out.lastSeen = parse.out.lastSeen := rfl
    exact field_foldl_kept (fun parse : Parse => parse.out.lastSeen) keeps founds _

theorem foldl_applied_foundService (pkt : Bytes) (founds : List Record) :
    (founds.foldl (applied pkt) { out := {} }).foundService =
      founds.any fun record => (record.pointsTo? pkt).isSome :=
  flag_foldl Parse.foundService (fun _ _ => rfl) founds { out := {} }

/-- An accepted packet reports what its records make of a fresh client. -/
theorem accepted_eq_foldl {pkt : Bytes} {out : DiscoveredClient}
    (accepted : parseMdnsResponse pkt {} = .ok (true, out)) :
    ((records pkt).foldl (applied pkt) { out := {} }).out = out ∧ out.ip ≠ [] := by
  simp only [parseMdnsResponse] at accepted
  split at accepted
  case isTrue => cases accepted
  case isFalse long =>
    obtain ⟨flags, _, accepted⟩ := bind_eq_ok.mp accepted
    split at accepted
    case isTrue => cases accepted
    case isFalse =>
      obtain ⟨qdCount, qd, accepted⟩ := bind_eq_ok.mp accepted
      obtain ⟨anCount, an, accepted⟩ := bind_eq_ok.mp accepted
      obtain ⟨arCount, ar, accepted⟩ := bind_eq_ok.mp accepted
      obtain ⟨skipped, skips, accepted⟩ := bind_eq_ok.mp accepted
      cases skipped with
      | none => cases accepted
      | some offset =>
        obtain ⟨nsCount, ns, accepted⟩ := bind_eq_ok.mp accepted
        rw [readRecords_eq_foldl] at accepted
        simp only [records, u16At, qd, an, ar, ns, valueOr, skips]
        simp only [bind, Except.bind, pure, Except.pure, Except.ok.injEq, Prod.mk.injEq,
          Bool.and_eq_true, Bool.not_eq_true', List.isEmpty_eq_false_iff] at accepted
        obtain ⟨⟨_, address⟩, rfl⟩ := accepted
        exact ⟨rfl, address⟩

/-- The packet has a PTR record of the service that points to the instance. -/
def Announces (pkt inst : Bytes) : Prop :=
  ∃ ptr ∈ records pkt, ptr.rrName = serviceName ∧ ptr.pointsTo? pkt = some inst

/-- Each field that is set is the instance's: the port of an SRV record it owns, the
address of the target of that record, the fingerprint of a TXT record it owns. -/
structure Belongs (pkt inst : Bytes) (client : DiscoveredClient) : Prop where
  name : client.name = beforeDot inst
  service : ∃ srv ∈ records pkt, srv.rrName = inst ∧
    ∃ port target, srv.service? pkt = some (port, target) ∧ (client.port ≠ 0 → client.port = port) ∧
      ∃ a ∈ records pkt, a.rrName = target ∧ a.address? pkt = some client.ip
  fingerprint : client.fingerprint ≠ [] → ∃ txt ∈ records pkt, txt.rrName = inst ∧
    txt.fingerprint? pkt = some client.fingerprint

/-- The last PTR record has the first label of the instance, and what the last SRV,
A and TXT records carry is also carried by records that belong to the instance. -/
structure LastRecordsAgree (pkt inst : Bytes) : Prop where
  ptr : ∀ target, last (Record.pointsTo? pkt) (records pkt) = some target →
    beforeDot target = beforeDot inst
  srv : ∃ srv ∈ records pkt, srv.rrName = inst ∧
    ∃ port target, srv.service? pkt = some (port, target) ∧
      (∀ lastPort lastTarget,
        last (Record.service? pkt) (records pkt) = some (lastPort, lastTarget) →
          lastPort ≠ 0 → lastPort = port) ∧
      ∃ a ∈ records pkt, a.rrName = target ∧
        ∃ ip, a.address? pkt = some ip ∧ last (Record.address? pkt) (records pkt) = some ip
  txt : ∀ fingerprint, last (Record.fingerprint? pkt) (records pkt) = some fingerprint →
    fingerprint ≠ [] → ∃ txt ∈ records pkt, txt.rrName = inst ∧
      txt.fingerprint? pkt = some fingerprint

section Accepted
variable {pkt : Bytes} {out : DiscoveredClient}

theorem accepted_name (accepted : parseMdnsResponse pkt {} = .ok (true, out)) :
    out.name = ((last (Record.pointsTo? pkt) (records pkt)).map beforeDot).getD [] := by
  rw [← (accepted_eq_foldl accepted).1, foldl_applied_out]

theorem accepted_port (accepted : parseMdnsResponse pkt {} = .ok (true, out)) :
    out.port = ((last (Record.service? pkt) (records pkt)).map Prod.fst).getD 0 := by
  rw [← (accepted_eq_foldl accepted).1, foldl_applied_out]

theorem accepted_fingerprint (accepted : parseMdnsResponse pkt {} = .ok (true, out)) :
    out.fingerprint = (last (Record.fingerprint? pkt) (records pkt)).getD [] := by
  rw [← (accepted_eq_foldl accepted).1, foldl_applied_out]

theorem accepted_ip (accepted : parseMdnsResponse pkt {} = .ok (true, out)) :
    last (Record.address? pkt) (records pkt) = some out.ip := by
  have written : out.ip = (last (Record.address? pkt) (records pkt)).getD [] := by
    conv => lhs; rw [← (accepted_eq_foldl accepted).1, foldl_applied_out]
  have address := (accepted_eq_foldl accepted).2
  cases found : last (Record.address? pkt) (records pkt) with
  | none =>
    rw [found] at written
    exact absurd written address
  | some ip =>
    rw [found] at written
    exact congrArg some written.symm

/-- What the client shows is what the last records carry. -/
theorem Belongs.agree {inst : Bytes} (accepted : parseMdnsResponse pkt {} = .ok (true, out))
    (belongs : Belongs pkt inst out) : LastRecordsAgree pkt inst where
  ptr := by
    intro target found
    rw [← belongs.name, accepted_name accepted, found]
    rfl
  srv := by
    obtain ⟨srv, mem, owned, port, target, carries, same, a, aMem, aOwned, ip⟩ := belongs.service
    refine ⟨srv, mem, owned, port, target, carries, ?_, a, aMem, aOwned, _, ip, accepted_ip accepted⟩
    intro lastPort lastTarget found nonzero
    have reported : out.port = lastPort := by
      rw [accepted_port accepted, found]
      rfl
    rw [← reported] at nonzero ⊢
    exact same nonzero
  txt := by
    intro carried found nonempty
    have reported : out.fingerprint = carried := by
      rw [accepted_fingerprint accepted, found]
      rfl
    rw [← reported] at nonempty ⊢
    exact belongs.fingerprint nonempty

/-- Each field of the client comes from a last record, and an announced instance has
some PTR and SRV record for there to be a last one. -/
theorem LastRecordsAgree.belongs {inst : Bytes}
    (accepted : parseMdnsResponse pkt {} = .ok (true, out)) (announced : Announces pkt inst)
    (agree : LastRecordsAgree pkt inst) : Belongs pkt inst out where
  name := by
    obtain ⟨ptr, mem, _, points⟩ := announced
    obtain ⟨target, found⟩ := last_of_exists mem points
    rw [accepted_name accepted, found]
    exact agree.ptr target found
  service := by
    obtain ⟨srv, mem, owned, port, target, carries, same, a, aMem, aOwned, ip, carried, lastIp⟩ :=
      agree.srv
    obtain rfl : ip = out.ip := Option.some.inj (lastIp.symm.trans (accepted_ip accepted))
    refine ⟨srv, mem, owned, port, target, carries, ?_, a, aMem, aOwned, carried⟩
    intro nonzero
    obtain ⟨⟨lastPort, lastTarget⟩, found⟩ := last_of_exists mem carries
    have reported : out.port = lastPort := by
      rw [accepted_port accepted, found]
      rfl
    rw [reported] at nonzero ⊢
    exact same lastPort lastTarget found nonzero
  fingerprint := by
    intro nonempty
    have reported := accepted_fingerprint accepted
    cases found : last (Record.fingerprint? pkt) (records pkt) with
    | none =>
      rw [found] at reported
      exact absurd reported nonempty
    | some carried =>
      rw [found] at reported
      obtain rfl : out.fingerprint = carried := reported
      exact agree.txt _ found nonempty

/-- An accepted packet is reported as one announced instance exactly when its last
records agree with such an instance. -/
theorem parseMdnsResponse_consistent_iff
    (accepted : parseMdnsResponse pkt {} = .ok (true, out)) :
    (∃ inst, Announces pkt inst ∧ Belongs pkt inst out) ↔
      ∃ inst, Announces pkt inst ∧ LastRecordsAgree pkt inst := by
  constructor
  case mp =>
    rintro ⟨inst, announced, belongs⟩
    exact ⟨inst, announced, belongs.agree accepted⟩
  case mpr =>
    rintro ⟨inst, announced, agree⟩
    exact ⟨inst, announced, agree.belongs accepted announced⟩

end Accepted

/-- A resource record with a time to live of two minutes. -/
def encodeRecord (owner : Bytes) (rrType : UInt8) (data : Bytes) : Bytes :=
  owner ++ [0, rrType, 0, 1, 0, 0, 0, 120, 0, UInt8.ofNat data.length] ++ data

def encodeLabel (chars : List Char) : Bytes := UInt8.ofNat chars.length :: text chars

/-- The response of one device: `tv._ultradisplay._udp.local` on port 9000 of
`tv.local`, which is 10.0.0.7. -/
def loneDevice : Bytes :=
  [0, 0, 0x84, 0, 0, 0, 0, 1, 0, 0, 0, 3] ++
  encodeRecord (encodeLabel ['_', 'u', 'l', 't', 'r', 'a', 'd', 'i', 's', 'p', 'l', 'a', 'y'] ++
      encodeLabel ['_', 'u', 'd', 'p'] ++ encodeLabel ['l', 'o', 'c', 'a', 'l'] ++ [0])
    12 (encodeLabel ['t', 'v'] ++ [0xC0, 12]) ++
  encodeRecord [0xC0, 48] 33 ([0, 0, 0, 0, 0x23, 0x28] ++ encodeLabel ['t', 'v'] ++ [0xC0, 31]) ++
  encodeRecord [0xC0, 48] 16 (encodeLabel ['f', 'p', '=', 'a', 'b']) ++
  encodeRecord [0xC0, 71] 1 [10, 0, 0, 7]

theorem parseMdnsResponse_consistent_iff_loneDevice :
    let out : DiscoveredClient :=
      { name := text ['t', 'v'], ip := text ['1', '0', '.', '0', '.', '0', '.', '7'], port := 9000,
        fingerprint := text ['a', 'b'] }
    (∃ inst, Announces loneDevice inst ∧ Belongs loneDevice inst out) ↔
      ∃ inst, Announces loneDevice inst ∧ LastRecordsAgree loneDevice inst :=
  parseMdnsResponse_consistent_iff (by decide +kernel)

/-- The response of a printer, `lp._ipp._tcp.local`, with the address of its host. -/
def foreignDevice : Bytes :=
  [0, 0, 0x84, 0, 0, 0, 0, 1, 0, 0, 0, 1] ++
  encodeRecord (encodeLabel ['_', 'i', 'p', 'p'] ++ encodeLabel ['_', 't', 'c', 'p'] ++
      encodeLabel ['l', 'o', 'c', 'a', 'l'] ++ [0])
    12 (encodeLabel ['l', 'p'] ++ [0xC0, 12]) ++
  encodeRecord (encodeLabel ['l', 'p'] ++ [0xC0, 22]) 1 [10, 0, 0, 9]

theorem foreign_device_accepted :
    ∃ out, parseMdnsResponse foreignDevice {} = .ok (true, out) ∧
      ¬ ∃ inst, Announces foreignDevice inst ∧ Belongs foreignDevice inst out := by
  refine ⟨{ name := text ['l', 'p'], ip := text ['1', '0', '.', '0', '.', '0', '.', '9'] },
    by decide +kernel, ?_⟩
  rintro ⟨inst, ⟨ptr, mem, owner, _⟩, _⟩
  have foreign : ∀ record ∈ records foreignDevice, record.rrName ≠ serviceName := by decide +kernel
  exact foreign ptr mem owner

end UltraDisplay.Discovery
