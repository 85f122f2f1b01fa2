import UltraDisplay.Server.Discovery

/-! Every packet is parsed to an end without a read outside it. A walk over labels
moves towards the end of the packet, a pointer starts a new walk, and no more than
eleven pointers are followed. -/
namespace UltraDisplay.Discovery
open CheckedRead

/-- The turns a walk needs at most: one for each byte left and a packet's worth for
each pointer that may still be followed. -/
def turnsNeeded (pkt : Bytes) (offset jumps : Nat) : Nat :=
  (10 - jumps) * (pkt.length + 2) + (pkt.length - offset) + 1

theorem turnsNeeded_jump (pkt : Bytes) (offset ptr : Nat) (again : jumps + 1 ≤ 10) :
    turnsNeeded pkt ptr (jumps + 1) < turnsNeeded pkt offset jumps := by
  have fewer : 10 - jumps = (10 - (jumps + 1)) + 1 := by omega
  have product : (10 - jumps) * (pkt.length + 2) =
      (10 - (jumps + 1)) * (pkt.length + 2) + (pkt.length + 2) := by
    rw [fewer, Nat.succ_mul]
  simp only [turnsNeeded, product]
  omega

theorem decodeLoop_succeeds {pkt : Bytes} {bound : Nat} (room : pkt.length ≤ bound) (turns : Nat) :
    ∀ (offset : Nat) (result : Bytes) (resume : Option Nat) (jumps : Nat),
      jumps ≤ 10 → turnsNeeded pkt offset jumps ≤ turns →
      (∀ back, resume = some back → back ≤ bound) → (resume = none → offset ≤ bound) →
      Succeeds (decodeLoop pkt turns offset result resume jumps) fun decoded => decoded.2 ≤ bound := by
  induction turns with
  | zero =>
    intro offset result resume jumps _ enough
    simp [turnsNeeded] at enough
  | succ turns ih =>
    intro offset result resume jumps few enough back start
    have stop : ∀ next : Nat, (resume = none → next ≤ bound) → resume.getD next ≤ bound := by
      intro next here
      cases resume with
      | none => exact here rfl
      | some back' => exact back back' rfl
    simp only [decodeLoop]
    split
    case isFalse => exact .pure (stop offset start)
    case isTrue inside =>
      refine (read_succeeds inside).bind fun len _ _ => ?_
      split
      case isTrue => exact .pure (stop _ fun _ => by omega)
      case isFalse nonzero =>
        split
        case isTrue =>
          split
          case isTrue => exact .pure (stop _ fun _ => by omega)
          case isFalse more =>
            refine (read_succeeds (by omega)).bind fun low _ _ => ?_
            have resumed : resume.getD (offset + 2) ≤ bound := stop _ fun _ => by omega
            split
            case isTrue => exact .pure resumed
            case isFalse again =>
              refine ih _ result _ (jumps + 1) (by omega) ?_ ?_ (by simp)
              · have fewer := turnsNeeded_jump pkt offset
                  ((len &&& 0x3F).toNat <<< 8 ||| low.toNat) (Nat.le_of_not_lt again)
                omega
              · intro back' same
                exact Option.some.inj same ▸ resumed
        case isFalse =>
          split
          case isTrue => exact .pure (stop _ fun _ => by omega)
          case isFalse fits =>
            refine (readBytes_succeeds (Nat.le_of_not_lt fits)).bind fun label _ _ => ?_
            refine ih _ _ resume jumps few ?_ back fun _ => by omega
            simp only [turnsNeeded] at enough ⊢
            omega

/-- A pointer may aim past the packet, but the cursor after a name never does
unless it did before. -/
theorem decodeDnsName_succeeds (pkt : Bytes) (offset : Nat) :
    Succeeds (decodeDnsName pkt offset) fun decoded => decoded.2 ≤ max offset pkt.length := by
  refine decodeLoop_succeeds (by omega) _ offset [] none 0 (by omega) ?_ (by simp) (by omega)
  simp only [turnsNeeded]
  omega

theorem skipQuestions_succeeds (pkt : Bytes) (count offset : Nat) :
    Succeeds (skipQuestions pkt count offset) fun _ => True := by
  induction count generalizing offset with
  | zero => exact .pure trivial
  | succ count ih =>
    simp only [skipQuestions]
    split
    case isFalse => exact .pure trivial
    case isTrue =>
      refine (decodeDnsName_succeeds pkt offset).bind fun decoded _ _ => ?_
      split
      case isTrue => exact .pure trivial
      case isFalse => exact ih _

theorem readRecord_succeeds (pkt : Bytes) (offset : Nat) :
    Succeeds (readRecord pkt offset) fun record =>
      ∀ found, record = some found → found.rdStart + found.rdLen ≤ pkt.length := by
  refine (decodeDnsName_succeeds pkt offset).bind fun decoded _ _ => ?_
  dsimp only
  split
  case isTrue => exact .pure (by simp)
  case isFalse header =>
    refine (readU16_succeeds (by omega)).bind fun rrType _ _ => ?_
    refine (readU16_succeeds (by omega)).bind fun _ _ _ => ?_
    refine (readU32_succeeds (by omega)).bind fun _ _ _ => ?_
    refine (readU16_succeeds (by omega)).bind fun rdLen _ _ => ?_
    split
    case isTrue => exact .pure (by simp)
    case isFalse inside =>
      refine .pure fun found same => ?_
      obtain rfl := Option.some.inj same
      exact Nat.le_of_not_lt inside

theorem readTxt_succeeds {pkt : Bytes} {limit : Nat} (inside : limit ≤ pkt.length) (turns : Nat) :
    ∀ (offset : Nat) (fingerprint : Option Bytes), limit - offset < turns →
      Succeeds (readTxt pkt limit turns offset fingerprint) fun _ => True := by
  induction turns with
  | zero => intro offset fingerprint enough; omega
  | succ turns ih =>
    intro offset fingerprint enough
    simp only [readTxt]
    split
    case isFalse => exact .pure trivial
    case isTrue more =>
      refine (read_succeeds (by omega)).bind fun len _ _ => ?_
      split
      case isTrue => exact .pure trivial
      case isFalse fits =>
        refine (readBytes_succeeds (by omega)).bind fun txt _ _ => ?_
        exact ih _ _ (by omega)

theorem takeRecord_succeeds {pkt : Bytes} {record : Record} (parse : Parse)
    (inside : record.rdStart + record.rdLen ≤ pkt.length) :
    Succeeds (takeRecord pkt record parse) fun _ => True := by
  simp only [takeRecord]
  split
  case isTrue =>
    exact (decodeDnsName_succeeds pkt record.rdStart).bind fun _ _ _ => .pure trivial
  case isFalse =>
    split
    case isTrue =>
      split
      case isFalse => exact .pure trivial
      case isTrue long =>
        refine (readU16_succeeds (by omega)).bind fun port _ _ => ?_
        exact (decodeDnsName_succeeds pkt _).bind fun _ _ _ => .pure trivial
    case isFalse =>
      split
      case isTrue =>
        refine (readTxt_succeeds inside _ _ _ (by omega)).bind fun _ _ _ => .pure trivial
      case isFalse =>
        split
        case isFalse => exact .pure trivial
        case isTrue =>
          split
          case isFalse => exact .pure trivial
          case isTrue four =>
            refine (read_succeeds (by omega)).bind fun _ _ _ => ?_
            refine (read_succeeds (by omega)).bind fun _ _ _ => ?_
            refine (read_succeeds (by omega)).bind fun _ _ _ => ?_
            exact (read_succeeds (by omega)).bind fun _ _ _ => .pure trivial

theorem readRecords_succeeds (pkt : Bytes) (count offset : Nat) (parse : Parse) :
    Succeeds (readRecords pkt count offset parse) fun _ => True := by
  induction count generalizing offset parse with
  | zero => exact .pure trivial
  | succ count ih =>
    simp only [readRecords]
    split
    case isFalse => exact .pure trivial
    case isTrue =>
      refine (readRecord_succeeds pkt offset).bind fun record _ inside => ?_
      cases record with
      | none => exact .pure trivial
      | some record =>
        exact (takeRecord_succeeds parse (inside record rfl)).bind fun _ _ _ => ih _ _

/-- Whatever the packet and whatever its pointers, counts and lengths, parsing it and
decoding a name at any place of it come to an end, and no read is outside it. -/
theorem parseMdnsResponse_terminates_inside (pkt : Bytes) :
    (∀ out, ∃ result, parseMdnsResponse pkt out = .ok result) ∧
      ∀ offset, ∃ decoded, decodeDnsName pkt offset = .ok decoded := by
  constructor
  case right =>
    intro offset
    obtain ⟨decoded, same, _⟩ := decodeDnsName_succeeds pkt offset
    exact ⟨decoded, same⟩
  case left =>
    intro out
    suffices succeeds : Succeeds (parseMdnsResponse pkt out) fun _ => True by
      obtain ⟨result, same, _⟩ := succeeds
      exact ⟨result, same⟩
    simp only [parseMdnsResponse]
    split
    case isTrue => exact .pure trivial
    case isFalse long =>
      refine (readU16_succeeds (by omega)).bind fun flags _ _ => ?_
      split
      case isTrue => exact .pure trivial
      case isFalse =>
        refine (readU16_succeeds (by omega)).bind fun qdCount _ _ => ?_
        refine (readU16_succeeds (by omega)).bind fun anCount _ _ => ?_
        refine (readU16_succeeds (by omega)).bind fun arCount _ _ => ?_
        refine (skipQuestions_succeeds pkt _ _).bind fun skipped _ _ => ?_
        cases skipped with
        | none => exact .pure trivial
        | some offset =>
          refine (readU16_succeeds (by omega)).bind fun nsCount _ _ => ?_
          exact (readRecords_succeeds pkt _ _ _).bind fun _ _ _ => .pure trivial

end UltraDisplay.Discovery
