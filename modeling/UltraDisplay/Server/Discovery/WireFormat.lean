import UltraDisplay.Server.Discovery.Records

/-! DNS messages in the wire format, whatever way their names are compressed, and
what `parse_mdns_response` makes of them. A relation says what stands where in
the packet, since a pointer may lead to any other place of it. -/
namespace UltraDisplay.Discovery
open CheckedRead LastWrite

/-- A name, as its labels, from an offset on: where it ends, and how many
pointers are followed to its root. -/
inductive NameAt (pkt : Bytes) :
    (offset : Nat) → (labels : List Bytes) → (next pointers : Nat) → Prop where
  | root (here : Has pkt offset [0]) : NameAt pkt offset [] (offset + 1) 0
  | label (nonempty : 1 ≤ label.length) (short : label.length ≤ 63)
      (here : Has pkt offset (UInt8.ofNat label.length :: label))
      (rest : NameAt pkt (offset + 1 + label.length) labels next pointers) :
      NameAt pkt offset (label :: labels) next pointers
  | pointer (near : target < 16384)
      (here : Has pkt offset [UInt8.ofNat (0xC0 + target / 256), UInt8.ofNat (target % 256)])
      (name : NameAt pkt target labels elsewhere pointers) :
      NameAt pkt offset labels (offset + 2) (pointers + 1)

def DomainName (pkt : Bytes) (offset : Nat) (labels : List Bytes) (next : Nat) : Prop :=
  ∃ pointers ≤ 10, NameAt pkt offset labels next pointers

structure Question where
  qname : List Bytes
  qtype : UInt16
  qclass : UInt16

inductive RData where
  | ptr (target : List Bytes)
  | srv (priority weight port : UInt16) (target : List Bytes)
  | txt (strings : List Bytes)
  | a (b0 b1 b2 b3 : UInt8)
  | other (rrType : UInt16) (data : Bytes)

structure ResourceRecord where
  owner : List Bytes
  rrClass : UInt16
  ttl : UInt32
  rdata : RData

structure Message where
  id : UInt16
  flags : UInt16
  questions : List Question
  answers : List ResourceRecord
  authority : List ResourceRecord
  additional : List ResourceRecord

def Message.records (m : Message) : List ResourceRecord := m.answers ++ m.authority ++ m.additional

def RData.rrType : RData → UInt16
  | .ptr _ => dnsTypePtr
  | .srv _ _ _ _ => dnsTypeSrv
  | .txt _ => dnsTypeTxt
  | .a _ _ _ _ => dnsTypeA
  | .other rrType _ => rrType

/-- Strings of at most 255 bytes, each behind its length. -/
def characterStrings (strings : List Bytes) : Bytes :=
  strings.flatMap fun string => UInt8.ofNat string.length :: string

def RDataAt (pkt : Bytes) (start : Nat) (next : Nat) : RData → Prop
  | .ptr target => DomainName pkt start target next
  | .srv priority weight port target =>
    Has pkt start (bytesU16 priority ++ bytesU16 weight ++ bytesU16 port) ∧
      DomainName pkt (start + 6) target next
  | .txt strings => (∀ string ∈ strings, string.length ≤ 255) ∧
      Has pkt start (characterStrings strings) ∧ next = start + (characterStrings strings).length
  | .a b0 b1 b2 b3 => Has pkt start [b0, b1, b2, b3] ∧ next = start + 4
  | .other rrType data => rrType ∉ [dnsTypePtr, dnsTypeSrv, dnsTypeTxt, dnsTypeA] ∧
      Has pkt start data ∧ next = start + data.length

def QuestionAt (pkt : Bytes) (offset : Nat) (question : Question) (next : Nat) : Prop :=
  ∃ after, DomainName pkt offset question.qname after ∧
    Has pkt after (bytesU16 question.qtype ++ bytesU16 question.qclass) ∧ next = after + 4

def RecordAt (pkt : Bytes) (offset : Nat) (record : ResourceRecord) (next : Nat) : Prop :=
  ∃ after, ∃ rdLength : UInt16, DomainName pkt offset record.owner after ∧
    Has pkt after (bytesU16 record.rdata.rrType ++ bytesU16 record.rrClass ++ bytesU32 record.ttl ++
      bytesU16 rdLength) ∧
    RDataAt pkt (after + 10) next record.rdata ∧ next = after + 10 + rdLength.toNat

/-- Items laid out one behind the other. -/
inductive Laid (At : Nat → α → Nat → Prop) : Nat → List α → Nat → Prop where
  | nil : Laid At offset [] offset
  | cons (first : At offset item middle) (rest : Laid At middle items next) :
      Laid At offset (item :: items) next

/-- The packet is the message and nothing else. -/
structure Renders (pkt : Bytes) (m : Message) : Prop where
  size : pkt.length ≤ 4096
  response : m.flags &&& 0x8000 ≠ 0
  header : Has pkt 0 (bytesU16 m.id ++ bytesU16 m.flags ++
    bytesU16 (UInt16.ofNat m.questions.length) ++ bytesU16 (UInt16.ofNat m.answers.length) ++
    bytesU16 (UInt16.ofNat m.authority.length) ++ bytesU16 (UInt16.ofNat m.additional.length))
  body : ∃ middle, Laid (QuestionAt pkt) 12 m.questions middle ∧
    Laid (RecordAt pkt) middle m.records pkt.length

def dotted : List Bytes → Bytes
  | [] => []
  | label :: labels => label ++ labels.flatMap fun label => text ['.'] ++ label

namespace RData

def target? : RData → Option (List Bytes)
  | .ptr target => some target
  | _ => none

def port? : RData → Option UInt16
  | .srv _ _ port _ => some port
  | _ => none

def strings : RData → List Bytes
  | .txt strings => strings
  | _ => []

def address? : RData → Option Bytes
  | .a b0 b1 b2 b3 => some (dotted ([b0, b1, b2, b3].map fun b => text (Nat.toDigits 10 b.toNat)))
  | _ => none

end RData

def fingerprint? (string : Bytes) : Option Bytes :=
  if (text ['f', 'p', '=']).isPrefixOf string then some (string.drop 3) else none

/-- The message announces a client: it has a PTR and an A record. -/
def Message.announces (m : Message) : Bool :=
  (m.records.any fun record => record.rdata.target?.isSome) &&
    m.records.any fun record => record.rdata.address?.isSome

/-- The client it announces: what the last PTR, SRV and A records carry, and the
last fingerprint of all strings. -/
def Message.client (m : Message) : DiscoveredClient where
  name := ((last (fun record => record.rdata.target?) m.records).map fun target =>
    beforeDot (dotted target)).getD []
  port := (last (fun record => record.rdata.port?) m.records).getD 0
  fingerprint := (last fingerprint? (m.records.flatMap fun record => record.rdata.strings)).getD []
  ip := (last (fun record => record.rdata.address?) m.records).getD []

/-- How `decode_dns_name` extends the name it has. -/
def joinLabel (result label : Bytes) : Bytes :=
  if result.isEmpty then label else result ++ text ['.'] ++ label

theorem foldl_joinLabel (labels : List Bytes) {result : Bytes} (started : result ≠ []) :
    labels.foldl joinLabel result = result ++ labels.flatMap fun label => text ['.'] ++ label := by
  induction labels generalizing result with
  | nil => simp
  | cons label labels ih =>
    have joined : joinLabel result label = result ++ text ['.'] ++ label := by
      simp [joinLabel, started]
    rw [List.foldl_cons, joined, ih (by simp [started])]
    simp

theorem foldl_joinLabel_eq_dotted {labels : List Bytes} (nonempty : ∀ label ∈ labels, label ≠ []) :
    labels.foldl joinLabel [] = dotted labels := by
  cases labels with
  | nil => rfl
  | cons label labels =>
    have started : label ≠ [] := nonempty label (by simp)
    exact foldl_joinLabel labels started

/-- The byte before a label neither ends the name nor marks a pointer. -/
theorem length_byte (nonempty : 1 ≤ length) (short : length ≤ 63) :
    UInt8.ofNat length ≠ 0 ∧ UInt8.ofNat length &&& 0xC0 ≠ 0xC0 ∧
      (UInt8.ofNat length).toNat = length := by
  have all : ∀ n < 64, 1 ≤ n → UInt8.ofNat n ≠ 0 ∧ UInt8.ofNat n &&& 0xC0 ≠ 0xC0 ∧
      (UInt8.ofNat n).toNat = n := by decide
  exact all length (by omega) nonempty

theorem pointer_byte (small : high < 64) :
    UInt8.ofNat (0xC0 + high) ≠ 0 ∧ UInt8.ofNat (0xC0 + high) &&& 0xC0 = 0xC0 ∧
      (UInt8.ofNat (0xC0 + high) &&& 0x3F).toNat = high := by
  have all : ∀ n < 64, UInt8.ofNat (0xC0 + n) ≠ 0 ∧ UInt8.ofNat (0xC0 + n) &&& 0xC0 = 0xC0 ∧
      (UInt8.ofNat (0xC0 + n) &&& 0x3F).toNat = n := by decide
  exact all high small

theorem pointer_joined (target : Nat) :
    (target / 256) <<< 8 ||| (UInt8.ofNat (target % 256)).toNat = target := by
  have low : target % 256 < 2 ^ 8 := Nat.mod_lt _ (by decide)
  have joined := Nat.two_pow_add_eq_or_of_lt low (target / 256)
  rw [UInt8.toNat_ofNat', Nat.mod_eq_of_lt low, Nat.shiftLeft_eq, Nat.mul_comm, ← joined]
  omega

section Loop
variable {pkt : Bytes} {offset turns jumps : Nat} {result : Bytes} {resume : Option Nat}

theorem decodeLoop_root (here : Has pkt offset [0]) :
    decodeLoop pkt (turns + 1) offset result resume jumps =
      .ok (result, resume.getD (offset + 1)) := by
  rw [decodeLoop, if_pos here.inside, here.read]
  rfl

theorem decodeLoop_label {label : Bytes} (nonempty : 1 ≤ label.length) (short : label.length ≤ 63)
    (here : Has pkt offset (UInt8.ofNat label.length :: label)) :
    decodeLoop pkt (turns + 1) offset result resume jumps =
      decodeLoop pkt turns (offset + 1 + label.length) (joinLabel result label) resume jumps := by
  obtain ⟨nonzero, noPointer, length⟩ := length_byte nonempty short
  have fits : ¬pkt.length < offset + 1 + label.length :=
    Nat.not_lt.mpr (here.2.bound here.inside)
  rw [decodeLoop, if_pos here.inside, here.read]
  simp only [bind, Except.bind, if_neg nonzero, if_neg noPointer, length, if_neg fits,
    here.2.readBytes]
  rfl

theorem decodeLoop_pointer {target : Nat} (near : target < 16384)
    (here : Has pkt offset [UInt8.ofNat (0xC0 + target / 256), UInt8.ofNat (target % 256)])
    (again : jumps + 1 ≤ 10) :
    decodeLoop pkt (turns + 1) offset result resume jumps =
      decodeLoop pkt turns target result (some (resume.getD (offset + 2))) (jumps + 1) := by
  have small : target / 256 < 64 := by omega
  obtain ⟨nonzero, marked, high⟩ := pointer_byte small
  have more : ¬pkt.length ≤ offset + 1 := Nat.not_le.mpr here.2.inside
  rw [decodeLoop, if_pos here.inside, here.read]
  simp only [bind, Except.bind, if_neg nonzero, if_pos marked, if_neg more, here.2.read, high,
    pointer_joined, if_neg (Nat.not_lt.mpr again)]

end Loop

namespace NameAt
variable {pkt : Bytes} {labels : List Bytes} {offset next pointers : Nat}

theorem nonempty (name : NameAt pkt offset labels next pointers) : ∀ label ∈ labels, label ≠ [] := by
  induction name with
  | root => simp
  | label nonempty _ _ _ ih =>
    intro label mem
    obtain rfl | later := List.mem_cons.mp mem
    case inl => exact List.ne_nil_of_length_pos nonempty
    case inr => exact ih label later
  | pointer _ _ _ ih => exact ih

/-- A name takes a byte at least, and stands inside the packet. -/
theorem bounds (name : NameAt pkt offset labels next pointers) :
    offset < next ∧ next ≤ pkt.length := by
  induction name with
  | root here => exact ⟨Nat.lt_succ_self _, here.inside⟩
  | label _ _ _ _ ih => exact ⟨by omega, ih.2⟩
  | pointer _ here _ _ => exact ⟨by omega, here.2.inside⟩

theorem inside (name : NameAt pkt offset labels next pointers) : offset < pkt.length :=
  Nat.lt_of_lt_of_le name.bounds.1 name.bounds.2

/-- The loop reads the labels and resumes behind the name, or behind the first
pointer it followed. -/
theorem decodeLoop (name : NameAt pkt offset labels next pointers) :
    ∀ (turns : Nat) (result : Bytes) (resume : Option Nat) (jumps : Nat),
      jumps + pointers ≤ 10 → turnsNeeded pkt offset jumps ≤ turns →
      Discovery.decodeLoop pkt turns offset result resume jumps =
        .ok (labels.foldl joinLabel result, resume.getD next) := by
  induction name with
  | root here =>
    intro turns result resume jumps _ enough
    cases turns with
    | zero => simp [turnsNeeded] at enough
    | succ turns => exact decodeLoop_root here
  | @label offset label labels next pointers nonempty short here rest ih =>
    intro turns result resume jumps few enough
    have inside := (NameAt.label nonempty short here rest).inside
    cases turns with
    | zero => simp [turnsNeeded] at enough
    | succ turns =>
      have fewer : turnsNeeded pkt (offset + 1 + label.length) jumps ≤ turns := by
        simp only [turnsNeeded] at enough ⊢
        omega
      rw [decodeLoop_label nonempty short here]
      exact ih turns (joinLabel result label) resume jumps few fewer
  | @pointer target offset labels elsewhere pointers near here name ih =>
    intro turns result resume jumps few enough
    cases turns with
    | zero => simp [turnsNeeded] at enough
    | succ turns =>
      have again : jumps + 1 ≤ 10 := by omega
      have fewer := turnsNeeded_jump pkt offset target again
      rw [decodeLoop_pointer near here again, ih turns result _ (jumps + 1) (by omega) (by omega)]
      rfl

end NameAt

/-- `decode_dns_name` reads a name back and leaves the cursor behind it. -/
theorem DomainName.decodes {pkt : Bytes} (name : DomainName pkt offset labels next) :
    decodeDnsName pkt offset = .ok (dotted labels, next) := by
  obtain ⟨pointers, few, name⟩ := name
  have enough : turnsNeeded pkt offset 0 ≤ 12 * (pkt.length + 2) := by
    simp only [turnsNeeded]
    omega
  rw [decodeDnsName, name.decodeLoop _ [] none 0 (by omega) enough,
    foldl_joinLabel_eq_dotted name.nonempty]
  rfl

theorem DomainName.bounds {pkt : Bytes} (name : DomainName pkt offset labels next) :
    offset < next ∧ next ≤ pkt.length := by
  obtain ⟨_, _, name⟩ := name
  exact name.bounds

theorem DomainName.nameAt {pkt : Bytes} (name : DomainName pkt offset labels next) :
    nameAt pkt offset = dotted labels := by
  simp only [Discovery.nameAt, name.decodes, valueOr]

theorem Laid.length_le {At : Nat → α → Nat → Prop} {size : Nat}
    (large : ∀ offset item next, At offset item next → offset + size ≤ next)
    (laid : Laid At offset items next) : offset + size * items.length ≤ next := by
  induction laid with
  | nil => simp
  | cons first _ ih =>
    have here := large _ _ _ first
    rw [List.length_cons, Nat.mul_succ]
    omega

theorem QuestionAt.bounds {pkt : Bytes} (here : QuestionAt pkt offset question next) :
    offset + 5 ≤ next ∧ next ≤ pkt.length := by
  obtain ⟨after, name, fixed, rfl⟩ := here
  have inside := fixed.bound name.bounds.2
  rw [List.length_append, bytesU16_length, bytesU16_length] at inside
  have forward := name.bounds.1
  omega

theorem skipQuestions_laid {pkt : Bytes} (laid : Laid (QuestionAt pkt) offset questions next) :
    skipQuestions pkt questions.length offset = .ok (some next) := by
  induction laid with
  | nil => rfl
  | cons first _ ih =>
    have bounds := first.bounds
    obtain ⟨after, name, _, rfl⟩ := first
    have inside : ¬pkt.length < after + 4 := Nat.not_lt.mpr bounds.2
    rw [List.length_cons, skipQuestions, if_pos (by omega), name.decodes]
    simp only [bind, Except.bind, if_neg inside]
    exact ih

theorem characterStrings_cons (string : Bytes) (strings : List Bytes) :
    characterStrings (string :: strings) =
      UInt8.ofNat string.length :: string ++ characterStrings strings := rfl

theorem readTxt_string {pkt string : Bytes} (short : string.length ≤ 255)
    (here : Has pkt offset (UInt8.ofNat string.length :: string))
    (inside : offset + 1 + string.length ≤ limit) (fingerprint : Option Bytes) :
    readTxt pkt limit (turns + 1) offset fingerprint =
      readTxt pkt limit turns (offset + 1 + string.length)
        ((fingerprint? string).or fingerprint) := by
  have length : (UInt8.ofNat string.length).toNat = string.length :=
    UInt8.toNat_ofNat_of_lt' (Nat.lt_succ_of_le short)
  rw [readTxt, if_pos (by omega), here.read]
  simp only [bind, Except.bind, length, if_neg (Nat.not_lt.mpr inside), here.2.readBytes]
  congr 1
  cases starts : (text ['f', 'p', '=']).isPrefixOf string with
  | true => simp [fingerprint?, starts]
  | false => simp [fingerprint?, starts]

theorem readTxt_characterStrings {pkt : Bytes} (strings : List Bytes) :
    ∀ (turns offset : Nat) (fingerprint : Option Bytes),
      (∀ string ∈ strings, string.length ≤ 255) → Has pkt offset (characterStrings strings) →
      (characterStrings strings).length < turns →
      readTxt pkt (offset + (characterStrings strings).length) turns offset fingerprint =
        .ok ((last fingerprint? strings).or fingerprint) := by
  induction strings with
  | nil =>
    intro turns offset fingerprint _ _ enough
    cases turns with
    | zero => omega
    | succ turns => simp [readTxt, characterStrings, last, pure, Except.pure]
  | cons string strings ih =>
    intro turns offset fingerprint short here enough
    rw [characterStrings_cons] at here enough ⊢
    obtain ⟨first, later⟩ := Has.append_iff.mp here
    rw [List.length_append, List.length_cons] at enough ⊢
    have after : offset + (string.length + 1) = offset + 1 + string.length := by omega
    rw [List.length_cons, after] at later
    cases turns with
    | zero => omega
    | succ turns =>
      have place : offset + (string.length + 1 + (characterStrings strings).length) =
          offset + 1 + string.length + (characterStrings strings).length := by omega
      rw [place, readTxt_string (short string List.mem_cons_self) first (by omega),
        ih turns _ _ (fun other mem => short other (List.mem_cons_of_mem _ mem)) later (by omega),
        last_cons, Option.or_assoc]

theorem decimal_eq_toDigits (byte : UInt8) : decimal byte = text (Nat.toDigits 10 byte.toNat) := by
  have all : ∀ n < 256, decimal (UInt8.ofNat n) = text (Nat.toDigits 10 n) := by decide +kernel
  have same := all byte.toNat byte.toNat_lt
  rwa [UInt8.ofNat_toNat] at same

theorem dottedQuad_eq_dotted (b0 b1 b2 b3 : UInt8) :
    dottedQuad b0 b1 b2 b3 =
      dotted ([b0, b1, b2, b3].map fun b => text (Nat.toDigits 10 b.toNat)) := by
  simp only [dottedQuad, decimal_eq_toDigits, dotted, List.map_cons, List.map_nil,
    List.flatMap_cons, List.flatMap_nil, List.append_nil, List.append_assoc]

theorem RDataAt.other_type {pkt : Bytes} (here : RDataAt pkt start next (.other rrType data)) :
    rrType ≠ dnsTypePtr ∧ rrType ≠ dnsTypeSrv ∧ rrType ≠ dnsTypeTxt ∧ rrType ≠ dnsTypeA := by
  simpa using here.1

/-- A record read from the packet and the data it is to carry: its type is that of
the data, which stand in its place. -/
structure Holds (pkt : Bytes) (found : Record) (rdata : RData) : Prop where
  rrType : found.rrType = rdata.rrType
  data : RDataAt pkt found.rdStart (found.rdStart + found.rdLen) rdata

namespace Holds
variable {pkt : Bytes} {found : Record} {rdata : RData}

theorem pointsTo? (holds : Holds pkt found rdata) :
    found.pointsTo? pkt = rdata.target?.map dotted := by
  obtain ⟨rrType, data⟩ := holds
  rw [Record.pointsTo?, rrType]
  cases rdata with
  | ptr target => exact congrArg some data.nameAt
  | other kind bytes => exact if_neg data.other_type.1
  | srv | txt | a => rfl

theorem port? (holds : Holds pkt found rdata) :
    (found.service? pkt).map Prod.fst = rdata.port? := by
  obtain ⟨rrType, data⟩ := holds
  rw [Record.service?, rrType]
  cases rdata with
  | srv priority weight port target =>
    obtain ⟨fixed, name⟩ := data
    have long : 6 ≤ found.rdLen := by have := name.bounds; omega
    have here : Has pkt (found.rdStart + 4) (bytesU16 port) := (Has.append_iff.mp fixed).2
    rw [if_pos ⟨rfl, long⟩]
    simp only [Option.map_some, u16At, here.readU16, valueOr]
    rfl
  | other kind bytes =>
    rw [if_neg fun srv => data.other_type.2.1 srv.1]
    rfl
  | ptr | txt | a => rfl

theorem fingerprint? (holds : Holds pkt found rdata) :
    found.fingerprint? pkt = last Discovery.fingerprint? rdata.strings := by
  obtain ⟨rrType, data⟩ := holds
  rw [Record.fingerprint?, rrType]
  cases rdata with
  | txt strings =>
    obtain ⟨short, here, length⟩ := data
    obtain length : found.rdLen = (characterStrings strings).length := by omega
    rw [length, readTxt_characterStrings strings _ _ none short here (by omega), Option.or_none]
    rfl
  | other kind bytes => exact if_neg data.other_type.2.2.1
  | ptr | srv | a => rfl

theorem address? (holds : Holds pkt found rdata) : found.address? pkt = rdata.address? := by
  obtain ⟨rrType, data⟩ := holds
  rw [Record.address?, rrType]
  cases rdata with
  | a b0 b1 b2 b3 =>
    obtain ⟨here, length⟩ := data
    have four : found.rdLen = 4 := by omega
    rw [if_pos ⟨rfl, four⟩]
    simp only [byteAt, here.read, here.2.read, here.2.2.read, here.2.2.2.read, valueOr,
      dottedQuad_eq_dotted]
    rfl
  | other kind bytes => exact if_neg fun a => data.other_type.2.2.2 a.1
  | ptr | srv | txt => rfl

end Holds

theorem RDataAt.inside {pkt : Bytes} {rdata : RData} (here : RDataAt pkt start next rdata)
    (begins : start ≤ pkt.length) : next ≤ pkt.length := by
  cases rdata with
  | ptr target => exact DomainName.bounds here |>.2
  | srv priority weight port target => exact here.2.bounds.2
  | txt strings =>
    obtain ⟨_, bytes, rfl⟩ := here
    exact bytes.bound begins
  | a b0 b1 b2 b3 =>
    obtain ⟨bytes, rfl⟩ := here
    exact bytes.bound begins
  | other rrType data =>
    obtain ⟨_, bytes, rfl⟩ := here
    exact bytes.bound begins

theorem RecordAt.bounds {pkt : Bytes} (here : RecordAt pkt offset record next) :
    offset + 11 ≤ next ∧ next ≤ pkt.length := by
  obtain ⟨after, rdLength, name, fixed, data, rfl⟩ := here
  have begins : after + 10 ≤ pkt.length := fixed.bound name.bounds.2
  have forward := name.bounds.1
  exact ⟨by omega, data.inside begins⟩

theorem RecordAt.reads {pkt : Bytes} (here : RecordAt pkt offset record next) :
    ∃ found, readRecord pkt offset = .ok (some found) ∧ found.rdStart + found.rdLen = next ∧
      Holds pkt found record.rdata := by
  have inside := here.bounds.2
  obtain ⟨after, rdLength, name, fixed, data, rfl⟩ := here
  obtain ⟨fixed, length⟩ := Has.append_iff.mp fixed
  obtain ⟨fixed, _⟩ := Has.append_iff.mp fixed
  obtain ⟨rrType, rrClass⟩ := Has.append_iff.mp fixed
  have length : Has pkt (after + 8) (bytesU16 rdLength) := length
  have rrClass : Has pkt (after + 2) (bytesU16 record.rrClass) := rrClass
  obtain ⟨ttl, reads, _⟩ : Succeeds (readU32 pkt (after + 4)) fun _ => True :=
    readU32_succeeds (by omega)
  refine ⟨⟨dotted record.owner, record.rdata.rrType, after + 10, rdLength.toNat⟩, ?_, rfl, rfl, data⟩
  have header : ¬pkt.length < after + 10 := by omega
  simp only [readRecord, name.decodes, bind, Except.bind, if_neg header, rrType.readU16,
    rrClass.readU16, reads, length.readU16, if_neg (Nat.not_lt.mpr inside)]
  rfl

theorem recordsFrom_laid {pkt : Bytes} (laid : Laid (RecordAt pkt) offset items next) :
    List.Forall₂ (fun found item => Holds pkt found item.rdata)
      (recordsFrom pkt items.length offset) items := by
  induction laid with
  | nil => exact .nil
  | cons first _ ih =>
    have bounds := first.bounds
    obtain ⟨found, reads, behind, holds⟩ := first.reads
    rw [List.length_cons, recordsFrom, if_pos (by omega), reads]
    rw [← behind] at ih
    exact .cons holds ih

theorem RData.address_nonempty {rdata : RData} (carried : rdata.address? = some ip) : ip ≠ [] := by
  cases rdata with
  | a b0 b1 b2 b3 =>
    obtain rfl := Option.some.inj carried
    simp [dotted, text]
  | ptr | srv | txt | other => cases carried

theorem RData.address_isSome (items : List ResourceRecord) :
    (!((last (fun item => item.rdata.address?) items).getD []).isEmpty) =
      items.any fun item => item.rdata.address?.isSome := by
  rw [← last_isSome]
  cases found : last (fun item : ResourceRecord => item.rdata.address?) items with
  | none => rfl
  | some ip =>
    obtain ⟨item, _, carried⟩ := last_mem found
    simp [address_nonempty carried]

section Records
variable {pkt : Bytes} {m : Message}

/-- The client that the loop makes of the records of the message. -/
theorem reported_client (laid : Laid (RecordAt pkt) offset m.records next) :
    ((recordsFrom pkt m.records.length offset).foldl (applied pkt) { out := {} }).out = m.client := by
  have held := recordsFrom_laid laid
  have targets := (last_congr (fun _ _ holds => holds.pointsTo?) held).trans (last_map _ dotted _)
  have ports := (last_map _ Prod.fst _).symm.trans (last_congr (fun _ _ holds => holds.port?) held)
  rw [foldl_applied_out, Message.client, targets, ports,
    last_congr (fun _ _ holds => holds.fingerprint?) held,
    last_congr (fun _ _ holds => holds.address?) held, last_flatMap, Option.map_map]
  rfl

theorem found_service (laid : Laid (RecordAt pkt) offset m.records next) :
    ((recordsFrom pkt m.records.length offset).foldl (applied pkt) { out := {} }).foundService =
      m.records.any fun record => record.rdata.target?.isSome := by
  have held := recordsFrom_laid laid
  rw [foldl_applied_foundService, ← last_isSome,
    last_congr (fun _ _ holds => holds.pointsTo?) held, last_map, Option.isSome_map, last_isSome]

/-- What the loop makes of the records, for a fresh client. -/
theorem readRecords_laid (laid : Laid (RecordAt pkt) offset m.records next) :
    ∃ parse, readRecords pkt m.records.length offset { out := {} } = .ok parse ∧
      parse.out = m.client ∧ (parse.foundService && !parse.out.ip.isEmpty) = m.announces := by
  refine ⟨_, readRecords_eq_foldl pkt _ offset _, reported_client laid, ?_⟩
  rw [found_service laid, reported_client laid]
  exact congrArg (_ && ·) (RData.address_isSome m.records)

end Records

theorem Renders.fields {pkt : Bytes} {m : Message} (rendered : Renders pkt m) :
    12 ≤ pkt.length ∧ Has pkt 2 (bytesU16 m.flags) ∧
      Has pkt 4 (bytesU16 (UInt16.ofNat m.questions.length)) ∧
      Has pkt 6 (bytesU16 (UInt16.ofNat m.answers.length)) ∧
      Has pkt 8 (bytesU16 (UInt16.ofNat m.authority.length)) ∧
      Has pkt 10 (bytesU16 (UInt16.ofNat m.additional.length)) := by
  have header := rendered.header
  have long : 12 ≤ pkt.length := header.bound (Nat.zero_le _)
  simp only [Has.append_iff] at header
  obtain ⟨⟨⟨⟨⟨_, flags⟩, questions⟩, answers⟩, authority⟩, additional⟩ := header
  exact ⟨long, flags, questions, answers, authority, additional⟩

theorem Renders.counts {pkt : Bytes} {m : Message} (rendered : Renders pkt m) :
    (UInt16.ofNat m.questions.length).toNat = m.questions.length ∧
      (UInt16.ofNat m.answers.length + UInt16.ofNat m.additional.length +
        UInt16.ofNat m.authority.length).toNat = m.records.length := by
  obtain ⟨middle, questions, records⟩ := rendered.body
  have size := rendered.size
  have asked := questions.length_le fun _ _ _ here => here.bounds.1
  have carried := records.length_le fun _ _ _ here => here.bounds.1
  have total : m.records.length = m.answers.length + m.authority.length + m.additional.length := by
    simp [Message.records, Nat.add_assoc]
  constructor
  case left => exact UInt16.toNat_ofNat_of_lt' (Nat.lt_of_le_of_lt (by omega) (by decide : 4096 < _))
  case right =>
    simp only [UInt16.toNat_add, UInt16.toNat_ofNat']
    omega

theorem Renders.parses {pkt : Bytes} {m : Message} (rendered : Renders pkt m) :
    parseMdnsResponse pkt {} = .ok (m.announces, m.client) := by
  obtain ⟨long, flags, questions, answers, authority, additional⟩ := rendered.fields
  obtain ⟨questionCount, recordCount⟩ := rendered.counts
  obtain ⟨middle, asked, carried⟩ := rendered.body
  obtain ⟨parse, reads, client, announces⟩ := readRecords_laid carried
  rw [parseMdnsResponse, if_neg (by omega), flags.readU16]
  simp only [bind, Except.bind, if_neg rendered.response, questions.readU16, answers.readU16,
    additional.readU16, authority.readU16, questionCount, skipQuestions_laid asked, recordCount,
    reads]
  rw [announces, client]
  rfl

/-- Every well-formed response is read back: it is accepted if it announces a client,
and the client is the one it announces. -/
theorem parseMdnsResponse_renders {pkt : Bytes} {m : Message} (rendered : Renders pkt m) :
    parseMdnsResponse pkt {} = .ok (m.announces, m.client) :=
  rendered.parses

def serviceLabels : List Bytes :=
  [text ['_', 'u', 'l', 't', 'r', 'a', 'd', 'i', 's', 'p', 'l', 'a', 'y'], text ['_', 'u', 'd', 'p'],
    text ['l', 'o', 'c', 'a', 'l']]

/-- What `loneDevice` says. -/
def loneMessage : Message :=
  let inst := text ['t', 'v'] :: serviceLabels
  let host := [text ['t', 'v'], text ['l', 'o', 'c', 'a', 'l']]
  { id := 0, flags := 0x8400, questions := [], authority := []
    answers := [⟨serviceLabels, 1, 120, .ptr inst⟩]
    additional := [⟨inst, 1, 120, .srv 0 0 9000 host⟩,
      ⟨inst, 1, 120, .txt [text ['f', 'p', '=', 'a', 'b']]⟩, ⟨host, 1, 120, .a 10 0 0 7⟩] }

theorem loneMessage_renders : Renders loneDevice loneMessage where
  size := by decide
  response := by decide
  header := by decide +kernel
  body := by
    have zone : NameAt loneDevice 31 [text ['l', 'o', 'c', 'a', 'l']] 38 0 :=
      .label (by decide) (by decide) (by decide +kernel) (.root (by decide +kernel))
    have service : NameAt loneDevice 12 serviceLabels 38 0 :=
      .label (by decide) (by decide) (by decide +kernel)
        (.label (by decide) (by decide) (by decide +kernel) zone)
    have inst : NameAt loneDevice 48 (text ['t', 'v'] :: serviceLabels) 53 1 :=
      .label (by decide) (by decide) (by decide +kernel)
        (.pointer (by decide) (by decide +kernel) service)
    have host : NameAt loneDevice 71 [text ['t', 'v'], text ['l', 'o', 'c', 'a', 'l']] 76 1 :=
      .label (by decide) (by decide) (by decide +kernel)
        (.pointer (by decide) (by decide +kernel) zone)
    have owner (offset : Nat)
        (here : Has loneDevice offset [UInt8.ofNat (0xC0 + 48 / 256), UInt8.ofNat (48 % 256)]) :
        DomainName loneDevice offset (text ['t', 'v'] :: serviceLabels) (offset + 2) :=
      ⟨2, by decide, .pointer (by decide) here inst⟩
    have hostOwner : DomainName loneDevice 94 [text ['t', 'v'], text ['l', 'o', 'c', 'a', 'l']] 96 :=
      ⟨2, by decide, .pointer (by decide) (by decide +kernel) host⟩
    have ptr : RecordAt loneDevice 12 loneMessage.records[0] 53 :=
      ⟨38, 5, ⟨0, by decide, service⟩, by decide +kernel, ⟨1, by decide, inst⟩, rfl⟩
    have srv : RecordAt loneDevice 53 loneMessage.records[1] 76 :=
      ⟨55, 11, owner 53 (by decide +kernel), by decide +kernel,
        ⟨by decide +kernel, ⟨1, by decide, host⟩⟩, rfl⟩
    have txt : RecordAt loneDevice 76 loneMessage.records[2] 94 :=
      ⟨78, 6, owner 76 (by decide +kernel), by decide +kernel,
        ⟨by decide, by decide +kernel, rfl⟩, rfl⟩
    have a : RecordAt loneDevice 94 loneMessage.records[3] 110 :=
      ⟨96, 4, hostOwner, by decide +kernel, ⟨by decide +kernel, rfl⟩, rfl⟩
    exact ⟨12, .nil, .cons ptr (.cons srv (.cons txt (.cons a .nil)))⟩

theorem parseMdnsResponse_renders_loneDevice :
    Renders loneDevice loneMessage ∧
      parseMdnsResponse loneDevice {} = .ok (loneMessage.announces, loneMessage.client) :=
  ⟨loneMessage_renders, parseMdnsResponse_renders loneMessage_renders⟩

end UltraDisplay.Discovery
