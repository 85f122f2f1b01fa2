import UltraDisplay.Library.CheckedWrite
import UltraDisplay.Library.Lines
import UltraDisplay.Server.Discovery.WireFormat

/-! The encoder of domain names in server/gui/discovery.cpp, and the names that the
decoder reads back. -/
namespace UltraDisplay.Discovery
open CheckedRead CheckedWrite

def intMax : Nat := 2147483647

/-- The loop of `encode_dns_name`, `p` being what is left of the name. Without a position
it returns -1. A label longer than an `int` holds is not followed further. -/
def encodeLoop (bufSize : Int) (p buf : Bytes) (pos : Nat) : Writer (Bytes × Option Nat) :=
  if p = [] then .ok (buf, some pos)
  else do
    let label := beforeDot p
    let labelStart ← add intMax pos 1
    let labelEnd ← add intMax labelStart label.length
    if bufSize ≤ labelEnd then return (buf, none)
    else
      let buf ← write buf pos (UInt8.ofNat label.length)
      let buf ← writeAll buf labelStart label
      match _dot : p.drop label.length with
      | [] => return (buf, some labelEnd)
      | _ :: rest => encodeLoop bufSize rest buf labelEnd
termination_by p.length
decreasing_by
  have length := congrArg List.length _dot
  rw [List.length_drop, List.length_cons] at length
  omega

def terminate (bufSize : Int) : Bytes × Option Nat → Writer (Bytes × Int)
  | (buf, none) => return (buf, -1)
  | (buf, some pos) =>
    if bufSize ≤ pos then return (buf, -1)
    else do
      let buf ← write buf pos 0
      let pos ← add intMax pos 1
      return (buf, pos)

/-- The buffer afterwards, and the result. -/
def encodeDnsName (name buf : Bytes) (bufSize : Int) : Writer (Bytes × Int) :=
  encodeLoop bufSize (name.takeWhile fun byte => byte ≠ 0) buf 0 >>= terminate bufSize

/-- A label that a name can be made of. -/
structure ValidLabel (label : Bytes) : Prop where
  nonempty : 1 ≤ label.length
  short : label.length ≤ 63
  dotless : 46 ∉ label
  nulFree : 0 ∉ label

def wireForm (labels : List Bytes) : Bytes := characterStrings labels ++ [0]

/-- No write is out of bounds, and the result is -1 precisely when the wire form is longer
than the buffer. Otherwise it is its length, and the wire form stands at the front of the
buffer, with nothing changed behind it. -/
def Encoded (bufSize : Int) (wire buf : Bytes) (outcome : Writer (Bytes × Int)) : Prop :=
  ∃ written result, outcome = .ok (written, result) ∧ written.length = buf.length ∧
    (result = -1 ↔ bufSize < wire.length) ∧
    (wire.length ≤ bufSize → result = wire.length ∧ written = wire ++ buf.drop wire.length)

/-- Every label that begins inside of the buffer ends where an `int` still counts. -/
def Counted (bufSize : Int) (pos : Nat) (labels : List Bytes) : Prop :=
  ∀ front label back, labels = front ++ label :: back →
    (pos + (characterStrings front).length : Nat) < bufSize →
    pos + (characterStrings front).length + 1 + label.length ≤ intMax

/-- The wire form of a name at an offset, or that of a leading part with a pointer to the
rest. -/
inductive EncodedAt (pkt : Bytes) : (offset : Nat) → (labels : List Bytes) →
    (next pointers : Nat) → Prop where
  | whole (here : Has pkt offset (wireForm labels)) :
      EncodedAt pkt offset labels (offset + (wireForm labels).length) 0
  | compressed (near : target < 16384)
      (here : Has pkt offset (characterStrings front ++
        [UInt8.ofNat (0xC0 + target / 256), UInt8.ofNat (target % 256)]))
      (rest : EncodedAt pkt target back elsewhere pointers) :
      EncodedAt pkt offset (front ++ back) (offset + (characterStrings front).length + 2)
        (pointers + 1)

/-- What the two functions have to do with a name and a buffer. -/
def RoundTrips (labels : List Bytes) (bufSize : Int) (buf : Bytes) : Prop :=
  Encoded bufSize (wireForm labels) buf (encodeDnsName (dotted labels) buf bufSize) ∧
    ∀ (pkt : Bytes) (offset next pointers : Nat), EncodedAt pkt offset labels next pointers →
      pointers ≤ 10 → decodeDnsName pkt offset = .ok (dotted labels, next)

section Decoding
variable {pkt : Bytes} {labels front back : List Bytes} {offset next pointers : Nat}

theorem NameAt.prepend (valid : ∀ label ∈ front, ValidLabel label)
    (here : Has pkt offset (characterStrings front))
    (rest : NameAt pkt (offset + (characterStrings front).length) back next pointers) :
    NameAt pkt offset (front ++ back) next pointers := by
  induction front generalizing offset with
  | nil => exact rest
  | cons label front ih =>
    obtain ⟨first, later⟩ := List.forall_mem_cons.mp valid
    rw [characterStrings_cons] at here rest
    obtain ⟨string, strings⟩ := Has.append_iff.mp here
    have length : offset + (UInt8.ofNat label.length :: label).length =
        offset + 1 + label.length := by
      rw [List.length_cons]
      omega
    rw [List.length_append, ← Nat.add_assoc, length] at rest
    rw [length] at strings
    exact .label first.nonempty first.short string (ih later strings rest)

theorem EncodedAt.nameAt (encoded : EncodedAt pkt offset labels next pointers)
    (valid : ∀ label ∈ labels, ValidLabel label) : NameAt pkt offset labels next pointers := by
  induction encoded with
  | @whole offset labels here =>
    obtain ⟨strings, zero⟩ := Has.append_iff.mp here
    have root := NameAt.root zero
    rw [wireForm, List.length_append, ← Nat.add_assoc]
    have name := NameAt.prepend valid strings root
    rwa [List.append_nil] at name
  | compressed near here _ ih =>
    obtain ⟨valid_front, valid_back⟩ := List.forall_mem_append.mp valid
    obtain ⟨strings, pointer⟩ := Has.append_iff.mp here
    exact NameAt.prepend valid_front strings (.pointer near pointer (ih valid_back))

end Decoding

section Encoding
variable {bufSize : Int} {label front back : Bytes} {labels : List Bytes}

theorem beforeDot_dotless (dotless : 46 ∉ label) : beforeDot label = label :=
  Lines.takeWhile_fresh dotless

theorem dotted_split (dotless : 46 ∉ label) (labels : List Bytes) :
    beforeDot (dotted (label :: labels)) = label ∧
      (dotted (label :: labels)).drop label.length =
        match labels with
        | [] => []
        | _ :: _ => 46 :: dotted labels := by
  cases labels with
  | nil => simp [dotted, beforeDot_dotless dotless]
  | cons next labels =>
    have split : dotted (label :: next :: labels) = label ++ 46 :: dotted (next :: labels) := by
      simp [dotted, text]
    have dot : beforeDot (46 :: dotted (next :: labels)) = [] := by simp [beforeDot]
    rw [split, List.drop_left]
    refine ⟨?_, rfl⟩
    have whole := beforeDot_dotless dotless
    rw [beforeDot, List.takeWhile_eq_self_iff] at whole
    rw [beforeDot, List.takeWhile_append_of_pos whole]
    exact (congrArg (label ++ ·) dot).trans (List.append_nil _)

theorem dotted_ne_nil (valid : ValidLabel label) (labels : List Bytes) :
    dotted (label :: labels) ≠ [] := by
  have some := List.ne_nil_of_length_pos valid.nonempty
  simp [dotted, some]

theorem encodeLoop_overflow (valid : ValidLabel label) (buf : Bytes) {pos : Nat}
    (beyond : intMax < pos + 1 + label.length) :
    encodeLoop bufSize (dotted (label :: labels)) buf pos = .error .overflow := by
  rw [encodeLoop, if_neg (dotted_ne_nil valid labels), (dotted_split valid.dotless labels).1]
  by_cases first : pos + 1 ≤ intMax
  · simp only [add, if_pos first, bind, Except.bind, if_neg (Nat.not_le.mpr beyond)]
  · simp only [add, if_neg first, bind, Except.bind]

theorem encodeLoop_full (valid : ValidLabel label) (buf : Bytes) {pos : Nat}
    (counted : pos + 1 + label.length ≤ intMax) (full : bufSize ≤ (pos + 1 + label.length : Nat)) :
    encodeLoop bufSize (dotted (label :: labels)) buf pos = .ok (buf, none) := by
  have first : pos + 1 ≤ intMax := by omega
  rw [encodeLoop, if_neg (dotted_ne_nil valid labels), (dotted_split valid.dotless labels).1]
  simp only [add, if_pos first, bind, Except.bind, if_pos counted, if_pos full]
  rfl

theorem encodeLoop_label (valid : ValidLabel label)
    (counted : front.length + 1 + label.length ≤ intMax)
    (room : (front.length + 1 + label.length : Nat) < bufSize)
    (fits : label.length + 1 ≤ back.length) :
    encodeLoop bufSize (dotted (label :: labels)) (front ++ back) front.length =
      encodeLoop bufSize (dotted labels)
        (front ++ (UInt8.ofNat label.length :: label) ++ back.drop (label.length + 1))
        (front.length + 1 + label.length) := by
  have first : front.length + 1 ≤ intMax := by omega
  obtain ⟨head, rest⟩ := dotted_split valid.dotless labels
  have written := @writeAll_append _ front back (UInt8.ofNat label.length :: label) fits
  rw [writeAll] at written
  rw [encodeLoop, if_neg (dotted_ne_nil valid labels), head]
  simp only [add, if_pos first, bind, Except.bind, if_pos counted, if_neg (Int.not_le.mpr room)]
  cases length : write (front ++ back) front.length (UInt8.ofNat label.length) with
  | error _ =>
    rw [length] at written
    cases written
  | ok buf =>
    rw [length] at written
    simp only [bind, Except.bind] at written
    simp only [written, List.length_cons]
    split
    case h_1 last =>
      cases labels with
      | nil =>
        rw [dotted, encodeLoop, if_pos rfl]
        rfl
      | cons => cases rest.symm.trans last
    case h_2 dot =>
      cases labels with
      | nil => cases rest.symm.trans dot
      | cons =>
        cases rest.symm.trans dot
        rfl

theorem encoded_nil (small : bufSize ≤ intMax) (size : front.length + back.length = bufSize.toNat) :
    Encoded bufSize (front ++ wireForm []) (front ++ back)
      (encodeLoop bufSize (dotted []) (front ++ back) front.length >>= terminate bufSize) := by
  have length : (front ++ wireForm []).length = front.length + 1 := by
    simp [wireForm, characterStrings]
  have done : encodeLoop bufSize (dotted []) (front ++ back) front.length =
      .ok (front ++ back, some front.length) := by
    rw [dotted, encodeLoop, if_pos rfl]
  rw [done]
  by_cases full : bufSize ≤ front.length
  · refine ⟨front ++ back, -1, ?_, rfl, ?_, ?_⟩
    · simp [bind, Except.bind, terminate, full, pure, Except.pure]
    · simp only [true_iff]
      omega
    · intro fits
      omega
  · obtain ⟨old, back, rfl⟩ := List.exists_cons_of_length_pos (l := back) (by omega)
    have counted : front.length + 1 ≤ intMax := by omega
    refine ⟨front ++ 0 :: back, (front.length + 1 : Nat), ?_, by simp, ?_, ?_⟩
    · simp [bind, Except.bind, terminate, full, write_append, add, counted, pure, Except.pure]
    · rw [length]
      omega
    · intro _
      rw [length]
      exact ⟨rfl, by simp [wireForm, characterStrings]⟩

theorem counted_cons (label : Bytes) (labels : List Bytes) (pos : Nat) :
    Counted bufSize pos (label :: labels) ↔
      ((pos : Int) < bufSize → pos + 1 + label.length ≤ intMax) ∧
        Counted bufSize (pos + 1 + label.length) labels := by
  have longer (front : List Bytes) : pos + (characterStrings (label :: front)).length =
      pos + 1 + label.length + (characterStrings front).length := by
    rw [characterStrings_cons, List.length_append, List.length_cons]
    omega
  constructor
  · intro counted
    refine ⟨fun inside => counted [] label labels rfl inside, ?_⟩
    intro front next back same inside
    have here := counted (label :: front) next back (by rw [same, List.cons_append])
    rw [longer] at here
    exact here inside
  · rintro ⟨first, later⟩ front next back same
    cases front with
    | nil =>
      cases same
      exact first
    | cons _ front =>
      cases same
      rw [longer]
      exact later front next back rfl

theorem counted_behind {pos : Nat} (behind : bufSize ≤ pos) (labels : List Bytes) :
    Counted bufSize pos labels := by
  intro front label back _ inside
  omega

theorem Encoded.congr {wire buf other : Bytes} {outcome : Writer (Bytes × Int)}
    (length : buf.length = other.length) (same : buf.drop wire.length = other.drop wire.length) :
    Encoded bufSize wire buf outcome ↔ Encoded bufSize wire other outcome := by
  simp only [Encoded, length, same]

/-- Once a label is written, the rest of the name is to be encoded behind it. -/
theorem encoded_label (valid : ValidLabel label)
    (counted : front.length + 1 + label.length ≤ intMax)
    (room : (front.length + 1 + label.length : Nat) < bufSize)
    (fits : label.length + 1 ≤ back.length) :
    let string := UInt8.ofNat label.length :: label
    let left := back.drop string.length
    Encoded bufSize (front ++ wireForm (label :: labels)) (front ++ back)
        (encodeLoop bufSize (dotted (label :: labels)) (front ++ back) front.length >>=
          terminate bufSize) ↔
      Encoded bufSize (front ++ string ++ wireForm labels) (front ++ string ++ left)
        (encodeLoop bufSize (dotted labels) (front ++ string ++ left) (front ++ string).length >>=
          terminate bufSize) := by
  intro string left
  have moved : front ++ wireForm (label :: labels) = front ++ string ++ wireForm labels := by
    simp [wireForm, characterStrings_cons, string]
  have size : string.length = label.length + 1 := rfl
  have length : (front ++ string).length = front.length + 1 + label.length := by
    rw [List.length_append, size]
    omega
  have kept : left.length = back.length - string.length := List.length_drop
  have same : (front ++ back).length = (front ++ string ++ left).length := by
    rw [List.length_append, List.length_append, length, kept, size]
    omega
  have behind : front.length + string.length ≤ (front ++ string ++ wireForm labels).length := by
    rw [List.length_append, List.length_append]
    omega
  rw [moved, encodeLoop_label valid counted room fits, length]
  exact Encoded.congr same (drop_written front string back behind).symm

/-- The induction is on the labels, with those written so far at the front. -/
theorem encoded_iff (valid : ∀ label ∈ labels, ValidLabel label) (small : bufSize ≤ intMax)
    (size : front.length + back.length = bufSize.toNat)
    (start : front.length = 0 ∨ (front.length : Int) < bufSize) :
    Encoded bufSize (front ++ wireForm labels) (front ++ back)
        (encodeLoop bufSize (dotted labels) (front ++ back) front.length >>= terminate bufSize) ↔
      Counted bufSize front.length labels := by
  induction labels generalizing front back with
  | nil =>
    refine iff_of_true (encoded_nil small size) ?_
    rintro before label after same
    simp at same
  | cons label labels ih =>
    obtain ⟨first, later⟩ := List.forall_mem_cons.mp valid
    have short := first.short
    rw [counted_cons]
    by_cases counted : front.length + 1 + label.length ≤ intMax
    · by_cases full : bufSize ≤ (front.length + 1 + label.length : Nat)
      · rw [encodeLoop_full first _ counted full]
        refine iff_of_true ⟨front ++ back, -1, rfl, rfl, ?_, ?_⟩
          ⟨fun _ => counted, counted_behind full labels⟩
        · simp [wireForm, characterStrings_cons]
          omega
        · intro fits
          simp [wireForm, characterStrings_cons] at fits
          omega
      · have room : (front.length + 1 + label.length : Nat) < bufSize := Int.not_le.mp full
        have length : (front ++ UInt8.ofNat label.length :: label).length =
            front.length + 1 + label.length := by
          rw [List.length_append, List.length_cons]
          omega
        have left : (back.drop (label.length + 1)).length = back.length - (label.length + 1) :=
          List.length_drop
        have rest := @ih (front ++ UInt8.ofNat label.length :: label) (back.drop (label.length + 1))
          later (by omega) (Or.inr (by omega))
        refine (encoded_label first counted room (by omega)).trans (rest.trans ?_)
        rw [length]
        exact ⟨fun counts => ⟨fun _ => counted, counts⟩, And.right⟩
    · refine iff_of_false ?_ ?_
      · rw [encodeLoop_overflow first _ (Nat.not_le.mp counted)]
        rintro ⟨_, _, same, _⟩
        cases same
      · rintro ⟨inside, _⟩
        have some : intMax = 2147483647 := rfl
        omega

theorem dotted_nulFree (valid : ∀ label ∈ labels, ValidLabel label) : 0 ∉ dotted labels := by
  cases labels with
  | nil => simp [dotted]
  | cons label labels =>
    obtain ⟨first, later⟩ := List.forall_mem_cons.mp valid
    simp only [dotted, List.mem_append, List.mem_flatMap, not_or, not_exists, not_and]
    refine ⟨first.nulFree, ?_⟩
    intro next member
    exact ⟨by simp [text], (later next member).nulFree⟩

theorem encodeDnsName_iff (valid : ∀ label ∈ labels, ValidLabel label) (small : bufSize ≤ intMax)
    {buf : Bytes} (size : buf.length = bufSize.toNat) :
    Encoded bufSize (wireForm labels) buf (encodeDnsName (dotted labels) buf bufSize) ↔
      Counted bufSize 0 labels := by
  have whole : (dotted labels).takeWhile (fun byte => byte ≠ 0) = dotted labels :=
    Lines.takeWhile_fresh (dotted_nulFree valid)
  have encodes := @encoded_iff bufSize [] buf labels valid small (by simpa using size) (Or.inl rfl)
  rw [List.nil_append, List.nil_append, List.length_nil] at encodes
  rw [encodeDnsName, whole, encodes]

/-- For every name of valid labels and every buffer: the encoder is right, and the decoder
reads every encoding back, precisely when an `int` counts to the end of each label that
begins inside of the buffer. -/
theorem roundTrips_iff (valid : ∀ label ∈ labels, ValidLabel label) (small : bufSize ≤ intMax)
    (buf : Bytes) (size : buf.length = bufSize.toNat) :
    RoundTrips labels bufSize buf ↔ Counted bufSize 0 labels := by
  rw [RoundTrips, encodeDnsName_iff valid small size, and_iff_left_iff_imp]
  intro _ pkt offset next pointers encoded few
  exact DomainName.decodes ⟨pointers, few, encoded.nameAt valid⟩

/-- A name of two labels and a buffer of eight bytes. -/
theorem roundTrips_iff_eight :
    RoundTrips [text ['a', 'b'], text ['c']] 8 (List.replicate 8 0) ↔
      Counted 8 0 [text ['a', 'b'], text ['c']] := by
  refine roundTrips_iff ?_ (by decide) _ (by decide)
  intro label member
  rcases List.mem_cons.mp member with rfl | member
  · exact ⟨by decide, by decide, by decide, by decide⟩
  · rw [List.mem_singleton.mp member]
    exact ⟨by decide, by decide, by decide, by decide⟩

theorem validLabel_longest : ValidLabel (List.replicate 63 97) :=
  ⟨by decide, by decide, by decide, by decide⟩

theorem characterStrings_replicate (count : Nat) :
    (characterStrings (List.replicate count (List.replicate 63 97))).length = 64 * count := by
  induction count with
  | zero => rfl
  | succ count ih =>
    rw [List.replicate_succ, characterStrings_cons, List.length_append, ih, List.length_cons,
      List.length_replicate]
    omega

/-- The last of so many labels ends behind what an `int` counts. -/
theorem longest_overflows {count : Nat} (size : count = 33554431) :
    ¬Counted 2147483647 0 (List.replicate (count + 1) (List.replicate 63 97)) := by
  intro counted
  have same : List.replicate (count + 1) (List.replicate 63 (97 : UInt8)) =
      List.replicate count (List.replicate 63 97) ++ List.replicate 63 97 :: [] :=
    List.replicate_succ'
  have last := counted _ _ _ same
  rw [characterStrings_replicate, List.length_replicate] at last
  have most : intMax = 2147483647 := rfl
  omega

/-- A name of 33554432 labels of 63 bytes, in a buffer of the largest size. -/
theorem long_name_overflows : ¬ ∀ (labels : List Bytes) (bufSize : Int) (buf : Bytes),
    (∀ label ∈ labels, ValidLabel label) → bufSize ≤ intMax → buf.length = bufSize.toNat →
    RoundTrips labels bufSize buf := by
  intro claim
  obtain ⟨count, size⟩ : ∃ count, count = 33554431 := ⟨_, rfl⟩
  have valid : ∀ label ∈ List.replicate (count + 1) (List.replicate 63 97), ValidLabel label := by
    intro label member
    rw [List.eq_of_mem_replicate member]
    exact validLabel_longest
  obtain ⟨buf, length⟩ : ∃ buf : Bytes, buf.length = (2147483647 : Int).toNat :=
    ⟨List.replicate _ 0, List.length_replicate⟩
  have encoded := (claim _ 2147483647 buf valid (by decide) length).1
  exact longest_overflows size ((encodeDnsName_iff valid (by decide) length).mp encoded)

end Encoding
end UltraDisplay.Discovery
