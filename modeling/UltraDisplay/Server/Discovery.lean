import UltraDisplay.Library.CheckedRead

/-! The mDNS responses that server/gui/discovery.cpp reads. A string is the list of
its bytes and a packet the list of the bytes received, so that reading past it is
a fault. -/
namespace UltraDisplay
open CheckedRead

/-- `lastSeen` is a reading of the steady clock in nanoseconds. -/
structure DiscoveredClient where
  name : Bytes := []
  ip : Bytes := []
  port : UInt16 := 0
  fingerprint : Bytes := []
  lastSeen : Nat := 0
  deriving DecidableEq

namespace Discovery

def text (chars : List Char) : Bytes := chars.map fun c => UInt8.ofNat c.toNat

/-- `_ultradisplay._udp.local` -/
def serviceName : Bytes :=
  text ['_', 'u', 'l', 't', 'r', 'a', 'd', 'i', 's', 'p', 'l', 'a', 'y', '.',
    '_', 'u', 'd', 'p', '.', 'l', 'o', 'c', 'a', 'l']

def dnsTypePtr : UInt16 := 12
def dnsTypeSrv : UInt16 := 33
def dnsTypeTxt : UInt16 := 16
def dnsTypeA : UInt16 := 1

/-- The loop of `decode_dns_name`. `resume` is `original_offset` once a pointer has
been followed. The result is the name and the offset after it. -/
def decodeLoop (pkt : Bytes) : (turns offset : Nat) → (result : Bytes) → (resume : Option Nat) →
    (jumps : Nat) → Reader (Bytes × Nat)
  | 0, _, _, _, _ => .error .exhausted
  | turns + 1, offset, result, resume, jumps =>
    if offset < pkt.length then do
      let len ← read pkt offset
      if len = 0 then
        return (result, resume.getD (offset + 1))
      else if len &&& 0xC0 = 0xC0 then
        if pkt.length ≤ offset + 1 then
          return (result, resume.getD offset)
        else
          let low ← read pkt (offset + 1)
          let ptr := (len &&& 0x3F).toNat <<< 8 ||| low.toNat
          let resume := resume.getD (offset + 2)
          if 10 < jumps + 1 then
            return (result, resume)
          else decodeLoop pkt turns ptr result (some resume) (jumps + 1)
      else
        let offset := offset + 1
        if pkt.length < offset + len.toNat then
          return (result, resume.getD offset)
        else
          let label ← readBytes pkt offset len.toNat
          let result := if result.isEmpty then label else result ++ text ['.'] ++ label
          decodeLoop pkt turns (offset + len.toNat) result resume jumps
    else return (result, resume.getD offset)

/-- Eleven jumps, each followed by a walk through the packet, take fewer turns. -/
def decodeDnsName (pkt : Bytes) (offset : Nat) : Reader (Bytes × Nat) :=
  decodeLoop pkt (12 * (pkt.length + 2)) offset [] none 0

/-- Skip the questions; without a result the packet is rejected. -/
def skipQuestions (pkt : Bytes) : (count offset : Nat) → Reader (Option Nat)
  | 0, offset => return some offset
  | count + 1, offset =>
    if offset < pkt.length then do
      let (_, offset) ← decodeDnsName pkt offset
      let offset := offset + 4
      if pkt.length < offset then return none
      else skipQuestions pkt count offset
    else return some offset

/-- The fixed part of a resource record, with the place of its data. -/
structure Record where
  rrName : Bytes
  rrType : UInt16
  rdStart : Nat
  rdLen : Nat
  deriving DecidableEq

/-- Read up to the data of a record; without a result the loop breaks. -/
def readRecord (pkt : Bytes) (offset : Nat) : Reader (Option Record) := do
  let (rrName, offset) ← decodeDnsName pkt offset
  if pkt.length < offset + 10 then return none
  else
    let rrType ← readU16 pkt offset
    let _rrClass ← readU16 pkt (offset + 2)
    let _rrTtl ← readU32 pkt (offset + 4)
    let rdLen ← readU16 pkt (offset + 8)
    if pkt.length < offset + 10 + rdLen.toNat then return none
    else return some { rrName, rrType, rdStart := offset + 10, rdLen := rdLen.toNat }

def beforeDot (name : Bytes) : Bytes := name.takeWhile fun byte => byte ≠ 46

/-- The loop over the strings of a TXT record: what follows the last `fp=`. -/
def readTxt (pkt : Bytes) (limit : Nat) : (turns offset : Nat) → Option Bytes →
    Reader (Option Bytes)
  | 0, _, _ => .error .exhausted
  | turns + 1, offset, fingerprint =>
    if offset < limit then do
      let len ← read pkt offset
      let offset := offset + 1
      if limit < offset + len.toNat then return fingerprint
      else
        let txt ← readBytes pkt offset len.toNat
        let fingerprint := if (text ['f', 'p', '=']).isPrefixOf txt then some (txt.drop 3) else fingerprint
        readTxt pkt limit turns (offset + len.toNat) fingerprint
    else return fingerprint

def decimal (byte : UInt8) : Bytes :=
  let digit (n : Nat) : UInt8 := UInt8.ofNat (48 + n % 10)
  let n := byte.toNat
  (if 100 ≤ n then [digit (n / 100)] else []) ++ (if 10 ≤ n then [digit (n / 10)] else []) ++ [digit n]

/-- `%u.%u.%u.%u` -/
def dottedQuad (b0 b1 b2 b3 : UInt8) : Bytes :=
  decimal b0 ++ text ['.'] ++ decimal b1 ++ text ['.'] ++ decimal b2 ++ text ['.'] ++ decimal b3

structure Parse where
  out : DiscoveredClient
  foundService : Bool := false
  srvTarget : Bytes := []
  deriving DecidableEq

/-- The switch over the type of a record. -/
def takeRecord (pkt : Bytes) (record : Record) (parse : Parse) : Reader Parse :=
  if record.rrType = dnsTypePtr then do
    let (target, _) ← decodeDnsName pkt record.rdStart
    return { parse with out := { parse.out with name := beforeDot target }, foundService := true }
  else if record.rrType = dnsTypeSrv then
    if 6 ≤ record.rdLen then do
      let port ← readU16 pkt (record.rdStart + 4)
      let (srvTarget, _) ← decodeDnsName pkt (record.rdStart + 6)
      return { parse with out := { parse.out with port }, srvTarget }
    else return parse
  else if record.rrType = dnsTypeTxt then do
    let fingerprint ← readTxt pkt (record.rdStart + record.rdLen) (record.rdLen + 1) record.rdStart none
    return { parse with
      out := { parse.out with fingerprint := fingerprint.getD parse.out.fingerprint } }
  else if record.rrType = dnsTypeA then
    if record.rdLen = 4 then do
      let b0 ← read pkt record.rdStart
      let b1 ← read pkt (record.rdStart + 1)
      let b2 ← read pkt (record.rdStart + 2)
      let b3 ← read pkt (record.rdStart + 3)
      return { parse with out := { parse.out with ip := dottedQuad b0 b1 b2 b3 } }
    else return parse
  else return parse

def readRecords (pkt : Bytes) : (count offset : Nat) → Parse → Reader Parse
  | 0, _, parse => return parse
  | count + 1, offset, parse =>
    if offset < pkt.length then do
      match ← readRecord pkt offset with
      | none => return parse
      | some record =>
        let parse ← takeRecord pkt record parse
        readRecords pkt count (record.rdStart + record.rdLen) parse
    else return parse

/-- The sum of the three counts wraps modulo 2^16. -/
def parseMdnsResponse (pkt : Bytes) (out : DiscoveredClient) : Reader (Bool × DiscoveredClient) :=
  if pkt.length < 12 then return (false, out)
  else do
    let flags ← readU16 pkt 2
    if flags &&& 0x8000 = 0 then return (false, out)
    else
      let qdCount ← readU16 pkt 4
      let anCount ← readU16 pkt 6
      let arCount ← readU16 pkt 10
      match ← skipQuestions pkt qdCount.toNat 12 with
      | none => return (false, out)
      | some offset =>
        let nsCount ← readU16 pkt 8
        let totalRr := anCount + arCount + nsCount
        let parse ← readRecords pkt totalRr.toNat offset { out }
        return (parse.foundService && !parse.out.ip.isEmpty, parse.out)

end Discovery
end UltraDisplay
