import UltraDisplay.Server.Discovery.Encoding

/-! `send_mdns_query` of server/gui/discovery.cpp: the packet it builds, read as a
message. The scan thread has joined the group it asks, so it hears its own packet. -/
namespace UltraDisplay.Discovery
open CheckedRead CheckedWrite

def dnsClassIn : UInt16 := 1

def writeU16 (p : Bytes) (index : Nat) (v : UInt16) : Writer Bytes :=
  writeAll p index (bytesU16 v)

/-- Transaction ID, flags and the four counts. -/
def writeHeader (pkt : Bytes) : Writer Bytes := do
  let pkt ← writeU16 pkt 0 0
  let pkt ← writeU16 pkt 2 0
  let pkt ← writeU16 pkt 4 1
  let pkt ← writeU16 pkt 6 0
  let pkt ← writeU16 pkt 8 0
  writeU16 pkt 10 0

/-- The packet that is built in the buffer, unless the name does not fit. -/
def buildQuery (pkt : Bytes) : Writer (Option Bytes) := do
  let pkt ← writeHeader pkt
  let (name, nameLen) ← encodeDnsName serviceName (pkt.drop 12) (pkt.length - 12)
  if nameLen < 0 then return none
  else
    let pos := 12 + nameLen.toNat
    let pkt ← writeU16 (pkt.take 12 ++ name) pos dnsTypePtr
    let pkt ← writeU16 pkt (pos + 2) dnsClassIn
    return some (pkt.take (pos + 4))

/-- What is handed to `sendto`. -/
def sendMdnsQuery : Writer (Option Bytes) := buildQuery (List.replicate 512 0)

def header : Bytes := [0, 0, 0, 0, 0, 1, 0, 0, 0, 0, 0, 0]

def query : Bytes :=
  header ++ wireForm serviceLabels ++
    (bytesU16 dnsTypePtr ++ bytesU16 dnsClassIn)

theorem serviceLabels_valid : ∀ label ∈ serviceLabels, ValidLabel label := by
  simp only [serviceLabels, List.forall_mem_cons, List.not_mem_nil, false_implies, implies_true,
    and_true]
  exact ⟨⟨by decide, by decide, by decide, by decide⟩, ⟨by decide, by decide, by decide, by decide⟩,
    ⟨by decide, by decide, by decide, by decide⟩⟩

theorem counted_of_room {bufSize : Int} {labels : List Bytes}
    (valid : ∀ label ∈ labels, ValidLabel label) (room : bufSize + 63 ≤ intMax) (pos : Nat) :
    Counted bufSize pos labels := by
  intro front label back same inside
  have short := (valid label (by simp [same])).short
  omega

theorem encodeDnsName_fits {bufSize : Int} {labels : List Bytes}
    (valid : ∀ label ∈ labels, ValidLabel label) (room : bufSize + 63 ≤ intMax)
    {buf : Bytes} (size : buf.length = bufSize.toNat) (fits : (wireForm labels).length ≤ bufSize) :
    encodeDnsName (dotted labels) buf bufSize =
      .ok (wireForm labels ++ buf.drop (wireForm labels).length, (wireForm labels).length) := by
  obtain ⟨written, result, outcome, _, _, whole⟩ :=
    (encodeDnsName_iff valid (by omega) size).mpr (counted_of_room valid room 0)
  obtain ⟨length, same⟩ := whole fits
  rw [outcome, length, same]

theorem serviceName_eq_dotted : serviceName = dotted serviceLabels := rfl

theorem writeHeader_eq (rest : Bytes) :
    writeHeader (List.replicate 12 0 ++ rest) = .ok (header ++ rest) := by
  simp [writeHeader, writeU16, writeAll, write, bytesU16, header, bind, Except.bind, List.replicate]

theorem writeU16_behind {front back : Bytes} (index : Nat) (here : front.length = index)
    (fits : 2 ≤ back.length) (v : UInt16) :
    writeU16 (front ++ back) index v = .ok (front ++ bytesU16 v ++ back.drop 2) := by
  subst here
  exact writeAll_append  fits

theorem buildQuery_eq {rest : Bytes} (fits : 30 ≤ rest.length) (room : rest.length + 63 ≤ intMax) :
    buildQuery (List.replicate 12 0 ++ rest) = .ok (some query) := by
  have wire : (wireForm serviceLabels).length = 26 := rfl
  have size : ((header ++ rest).length : Int) - 12 = rest.length := by
    have length : (header ++ rest).length = 12 + rest.length := List.length_append
    omega
  have encoded : encodeDnsName serviceName rest rest.length =
      .ok (wireForm serviceLabels ++ rest.drop 26, 26) :=
    encodeDnsName_fits serviceLabels_valid (by omega) (by simp) (by omega)
  have asked : writeU16 (header ++ (wireForm serviceLabels ++ rest.drop 26)) 38 dnsTypePtr =
      .ok (header ++ wireForm serviceLabels ++ bytesU16 dnsTypePtr ++ (rest.drop 26).drop 2) := by
    rw [← List.append_assoc]
    exact writeU16_behind 38 rfl (by rw [List.length_drop]; omega) dnsTypePtr
  have whole : writeU16 (header ++ wireForm serviceLabels ++ bytesU16 dnsTypePtr ++
      (rest.drop 26).drop 2) 40 dnsClassIn = .ok (header ++ wireForm serviceLabels ++
        bytesU16 dnsTypePtr ++ bytesU16 dnsClassIn ++ ((rest.drop 26).drop 2).drop 2) :=
    writeU16_behind 40 rfl (by rw [List.length_drop, List.length_drop]; omega) dnsClassIn
  have cut : (header ++ wireForm serviceLabels ++ bytesU16 dnsTypePtr ++ bytesU16 dnsClassIn ++
      ((rest.drop 26).drop 2).drop 2).take 42 = query := List.take_left' rfl
  have here : (header ++ rest).drop 12 = rest := rfl
  have front : (header ++ rest).take 12 = header := rfl
  have taken : ¬(26 : Int) < 0 := by decide
  simp only [buildQuery, writeHeader_eq, bind, Except.bind, size, here, front, encoded, if_neg taken]
  change (writeU16 (header ++ (wireForm serviceLabels ++ rest.drop 26)) 38 dnsTypePtr >>= fun pkt =>
    writeU16 pkt 40 dnsClassIn >>= fun pkt => .ok (some (pkt.take 42))) = _
  rw [asked]
  change (writeU16 _ 40 dnsClassIn >>= _) = _
  rw [whole, ← cut]
  rfl

theorem sendMdnsQuery_eq : sendMdnsQuery = .ok (some query) := by
  have size : (List.replicate 500 (0 : UInt8)).length = 500 := List.length_replicate
  have whole : List.replicate 512 (0 : UInt8) = List.replicate 12 0 ++ List.replicate 500 0 :=
    (List.replicate_append_replicate (n := 12) (m := 500)).symm
  rw [sendMdnsQuery, whole]
  exact buildQuery_eq (by omega) (by rw [size]; decide)

/-- The packet asks one question: who serves `_ultradisplay._udp.local`. -/
def AsksForService (pkt : Bytes) : Prop :=
  Has pkt 0 (bytesU16 0 ++ bytesU16 0 ++ bytesU16 1 ++ bytesU16 0 ++ bytesU16 0 ++ bytesU16 0) ∧
    Laid (QuestionAt pkt) 12 [⟨serviceLabels, dnsTypePtr, dnsClassIn⟩] pkt.length

theorem query_question : AsksForService query := by
  have name : NameAt query 12 serviceLabels 38 0 :=
    .label (by decide) (by decide) (by decide +kernel)
      (.label (by decide) (by decide) (by decide +kernel)
        (.label (by decide) (by decide) (by decide +kernel) (.root (by decide +kernel))))
  have question : QuestionAt query 12 ⟨serviceLabels, dnsTypePtr, dnsClassIn⟩ query.length :=
    ⟨38, ⟨0, by decide, name⟩, by decide +kernel, by decide⟩
  exact ⟨by decide +kernel, .cons question .nil⟩

/-- The response bit of its flags is not set, so that its own parser turns it down. -/
theorem parseMdnsResponse_query : parseMdnsResponse query {} = .ok (false, {}) := by
  rfl

end UltraDisplay.Discovery
