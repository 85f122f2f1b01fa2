import Mathlib.Data.List.Forall2
import UltraDisplay.Library.LittleEndian
import UltraDisplay.Shared.AudioPipeline
import UltraDisplay.Shared.Result

/-! The loopback capture of server/audio/wasapi_capture.cpp. `init` takes the format of
the mix as it is, and `read_frames` converts samples of 16 and 32 bits. What a sample
means is left to the conversions; a packet's data are the memory at their address. -/
namespace UltraDisplay

structure WasapiCapture where
  format : AudioFormat := {}
  captureClient : Bool := false
  eventHandle : Bool := false
  isCapturing : Bool := false
  deriving DecidableEq

namespace WasapiCapture

inductive SubFormat where
  | ieeeFloat
  | pcm
  | other
  deriving DecidableEq

/-- `subFormat` is there in the extensible form only. -/
structure MixFormat where
  formatTag : UInt16
  subFormat : SubFormat
  bitsPerSample : UInt16
  samplesPerSec : UInt32
  channels : UInt16
  deriving DecidableEq

def waveFormatExtensible : UInt16 := 0xFFFE

/-- Which calls of `init` succeed, and the format of the mix if it can be had. -/
structure Setup where
  enumerator : Bool
  endpoint : Bool
  client : Bool
  mixFormat : Option MixFormat
  initializes : Bool
  event : Bool
  setsEvent : Bool
  service : Bool
  deriving DecidableEq

/-- The bit depth taken from the mix, unless it is unsupported. -/
def MixFormat.bitDepth? (mix : MixFormat) : Option UInt8 :=
  if mix.formatTag = waveFormatExtensible then
    match mix.subFormat with
    | .ieeeFloat => some 32
    | .pcm => some mix.bitsPerSample.toUInt8
    | .other => none
  else some mix.bitsPerSample.toUInt8

def init (capture : WasapiCapture) (setup : Setup) : WasapiCapture × Result Unit :=
  if !setup.enumerator then (capture, .error (systemError "Failed to create IMMDeviceEnumerator"))
  else if !setup.endpoint then
    (capture, .error (systemError "Failed to get default audio endpoint"))
  else if !setup.client then (capture, .error (systemError "Failed to activate IAudioClient"))
  else
    match setup.mixFormat with
    | none => (capture, .error (systemError "Failed to get mix format"))
    | some mix =>
      match mix.bitDepth? with
      | none => (capture, .error (systemError "Unsupported audio format"))
      | some bitDepth =>
        let format : AudioFormat :=
          { sampleRate := mix.samplesPerSec, channels := mix.channels.toUInt8, bitDepth }
        let capture := { capture with format }
        if !setup.initializes then
          (capture, .error (systemError "Failed to initialize IAudioClient for loopback"))
        else
          let capture := { capture with eventHandle := setup.event }
          if !setup.event then (capture, .error (systemError "Failed to create event handle"))
          else if !setup.setsEvent then
            (capture, .error (systemError "Failed to set event handle"))
          else
            let capture := { capture with captureClient := setup.service }
            if !setup.service then
              (capture, .error (systemError "Failed to get IAudioCaptureClient service"))
            else (capture, .ok ())

def start (capture : WasapiCapture) (starts : Bool) : WasapiCapture × Result Unit :=
  if capture.isCapturing then (capture, .ok ())
  else if !starts then (capture, .error (systemError "Failed to start audio client"))
  else ({ capture with isCapturing := true }, .ok ())

structure Packet where
  numFrames : UInt32
  silent : Bool
  data : Nat → UInt8

/-- The answers of one turn of the loop: the packet, whether it can be released, and
the size of the next one. -/
structure Turn where
  buffer : Option Packet
  releases : Bool
  nextSize : Option UInt32

/-- The samples that `float` has: silence, that of a bit pattern, and that of a 16-bit
integer divided by 32768. -/
structure Samples (α : Type) where
  silence : α
  ofBits : UInt32 → α
  ofInt16 : Int16 → α

section Reading
variable {α : Type} (float : Samples α)

def bytesAt (data : Nat → UInt8) (offset count : Nat) : List UInt8 :=
  (List.range count).map fun i => data (offset + i)

/-- The product is that of two unsigned integers of 32 bits. -/
def samples (format : AudioFormat) (packet : Packet) : List α :=
  let count := (packet.numFrames * format.channels.toUInt32).toNat
  if packet.silent then List.replicate count float.silence
  else if format.bitDepth = 32 then
    (List.range count).map fun i =>
      float.ofBits (UInt32.ofNat (LittleEndian.value (bytesAt packet.data (4 * i) 4)))
  else if format.bitDepth = 16 then
    (List.range count).map fun i =>
      float.ofInt16 (Int16.ofNat (LittleEndian.value (bytesAt packet.data (2 * i) 2)))
  else []

def readPackets (format : AudioFormat) : UInt32 → List Turn → Option (List α)
  | 0, _ => some []
  | _, [] => none
  | _, turn :: turns =>
    match turn.buffer with
    | none => some []
    | some packet =>
      let frames := samples float format packet
      if !turn.releases then some frames
      else
        match turn.nextSize with
        | none => some frames
        | some packetLength =>
          (readPackets format packetLength turns).map fun later => frames ++ later

/-- `signalled` says whether the event comes within a second, and `first` is the size
of the first packet. -/
def readFrames (capture : WasapiCapture) (signalled : Bool) (first : Option UInt32)
    (turns : List Turn) : Option (Result (List α)) :=
  if !capture.isCapturing then some (.error (systemError "Not capturing"))
  else if !signalled then some (.error (systemError "Wait for audio event failed"))
  else
    match first with
    | none => some (.error (systemError "Failed to get next packet size"))
    | some packetLength => (readPackets float capture.format packetLength turns).map .ok

/-- Packets whose calls all succeed, from the size of the first one on. -/
inductive Delivers : UInt32 → List Turn → List Packet → Prop where
  | done : Delivers 0 [] []
  | packet {packet : Packet} (more : size ≠ 0) (rest : Delivers next turns packets) :
      Delivers size (⟨some packet, true, some next⟩ :: turns) (packet :: packets)

/-- A block of samples for each packet, all of its frames in every channel, and silence
for a silent one. -/
def Whole (channels : Nat) (packets : List Packet) (frames : List α) : Prop :=
  ∃ blocks, frames = blocks.flatten ∧
    List.Forall₂ (fun packet block => block.length = packet.numFrames.toNat * channels ∧
      (packet.silent = true → ∀ sample ∈ block, sample = float.silence)) packets blocks

/-- The samples of a packet are counted in 32 bits and the channels in 8, and those that
are not silent are of 16 or 32 bits, unless there are none. -/
def Converts (mix : MixFormat) (packet : Packet) : Prop :=
  let count := packet.numFrames.toNat * mix.channels.toNat
  count = 0 ∨ count < 4294967296 ∧ mix.channels.toNat < 256 ∧
    (packet.silent = true ∨ mix.bitDepth? = some 32 ∨ mix.bitDepth? = some 16)

variable {float}

theorem readPackets_delivers (format : AudioFormat) {size : UInt32} {turns : List Turn}
    {packets : List Packet} (delivers : Delivers size turns packets) :
    readPackets float format size turns = some (packets.flatMap (samples float format)) := by
  induction delivers with
  | done => rfl
  | packet more _ ih =>
    rw [readPackets]
    · simp only [Bool.not_true, Bool.false_eq_true, if_false, ih, Option.map_some,
        List.flatMap_cons]
    · exact more

theorem samples_length (format : AudioFormat) (packet : Packet) :
    (samples float format packet).length =
      if packet.silent = true ∨ format.bitDepth = 32 ∨ format.bitDepth = 16 then
        packet.numFrames.toNat * format.channels.toNat % 4294967296
      else 0 := by
  have count : (packet.numFrames * format.channels.toUInt32).toNat =
      packet.numFrames.toNat * format.channels.toNat % 4294967296 := by
    rw [UInt32.toNat_mul, UInt8.toNat_toUInt32]
  unfold samples
  cases packet.silent with
  | true => simp [count]
  | false =>
    by_cases float32 : format.bitDepth = 32
    · simp [float32, count]
    · by_cases int16 : format.bitDepth = 16
      · simp [int16, count]
      · simp [float32, int16]

theorem samples_silence (format : AudioFormat) {packet : Packet} (silent : packet.silent = true) :
    ∀ sample ∈ samples float format packet, sample = float.silence := by
  intro sample member
  simp only [samples, silent, if_true] at member
  exact List.eq_of_mem_replicate member

theorem cut_product (frames channels : Nat) :
    frames * (channels % 256) % 4294967296 ≤ frames * channels ∧
    (frames * (channels % 256) % 4294967296 = frames * channels ↔
      frames * channels = 0 ∨ frames * channels < 4294967296 ∧ channels < 256) := by
  have fewer : frames * (channels % 256) ≤ frames * channels :=
    Nat.mul_le_mul_left _ (Nat.mod_le _ _)
  have cut : frames * (channels % 256) % 4294967296 ≤ frames * (channels % 256) := Nat.mod_le _ _
  refine ⟨cut.trans fewer, ?_, ?_⟩
  · intro same
    by_cases none : frames * channels = 0
    · exact Or.inl none
    · have positive : 0 < frames := Nat.pos_of_ne_zero (left_ne_zero_of_mul none)
      have kept : channels ≤ channels % 256 :=
        Nat.le_of_mul_le_mul_left (same.symm.le.trans cut) positive
      exact Or.inr ⟨by omega, by omega⟩
  · rintro (none | ⟨small, few⟩)
    · omega
    · rw [Nat.mod_eq_of_lt few, Nat.mod_eq_of_lt small]

theorem init_format {capture ready : WasapiCapture} {setup : Setup} {mix : MixFormat}
    (mixFormat : setup.mixFormat = some mix) (accepted : capture.init setup = (ready, .ok ())) :
    mix.bitDepth? = some ready.format.bitDepth ∧
      ready.format.channels = mix.channels.toUInt8 := by
  unfold init at accepted
  cases depth : mix.bitDepth? with
  | none =>
    simp only [mixFormat, depth] at accepted
    repeat' split at accepted
    all_goals cases accepted
  | some bitDepth =>
    simp only [mixFormat, depth] at accepted
    repeat' split at accepted
    all_goals cases accepted
    exact ⟨rfl, rfl⟩

variable {format : AudioFormat} {mix : MixFormat}

theorem samples_whole_iff (depth : mix.bitDepth? = some format.bitDepth)
    (channels : format.channels = mix.channels.toUInt8) (packet : Packet) :
    (samples float format packet).length ≤ packet.numFrames.toNat * mix.channels.toNat ∧
    ((samples float format packet).length = packet.numFrames.toNat * mix.channels.toNat ↔
      Converts mix packet) := by
  have narrowed : format.channels.toNat = mix.channels.toNat % 256 := by
    rw [channels]
    exact UInt16.toNat_toUInt8 _
  obtain ⟨most, same⟩ := cut_product packet.numFrames.toNat mix.channels.toNat
  simp only [samples_length, narrowed, Converts, depth, Option.some.injEq]
  split
  case isTrue converted =>
    refine ⟨most, same.trans ?_⟩
    simp only [converted, and_true]
  case isFalse dropped =>
    refine ⟨Nat.zero_le _, ?_⟩
    simp only [dropped, and_false, or_false]
    exact eq_comm

/-- Blocks that are no shorter than the samples, and no longer together, are as long. -/
theorem lengths_of_flatten {packets : List Packet} {blocks : List (List α)} {channels : Nat}
    (sizes : List.Forall₂ (fun packet block => block.length = packet.numFrames.toNat * channels)
      packets blocks)
    (most : ∀ packet, (samples float format packet).length ≤ packet.numFrames.toNat * channels) :
    (packets.flatMap (samples float format)).length ≤ blocks.flatten.length ∧
    ((packets.flatMap (samples float format)).length = blocks.flatten.length →
      ∀ packet ∈ packets,
        (samples float format packet).length = packet.numFrames.toNat * channels) := by
  induction sizes with
  | nil => simp
  | @cons packet block packets blocks size _ ih =>
    obtain ⟨below, equal⟩ := ih
    have first := most packet
    rw [List.flatMap_cons, List.flatten_cons, List.length_append, List.length_append]
    refine ⟨by omega, ?_⟩
    intro same other member
    rcases List.mem_cons.mp member with rfl | member
    · omega
    · exact equal (by omega) other member

theorem whole_iff {packets : List Packet} (depth : mix.bitDepth? = some format.bitDepth)
    (channels : format.channels = mix.channels.toUInt8) :
    Whole float mix.channels.toNat packets (packets.flatMap (samples float format)) ↔
      ∀ packet ∈ packets, Converts mix packet := by
  constructor
  · rintro ⟨blocks, same, fits⟩ packet member
    have sizes := fits.imp fun _ _ both => both.1
    have most (packet : Packet) : (samples float format packet).length ≤
        packet.numFrames.toNat * mix.channels.toNat := (samples_whole_iff depth channels packet).1
    have length := (lengths_of_flatten sizes most).2 (congrArg List.length same) packet member
    exact (samples_whole_iff depth channels packet).2.mp length
  · intro converts
    refine ⟨packets.map (samples float format), List.flatMap_def, ?_⟩
    rw [List.forall₂_map_right_iff, List.forall₂_same]
    intro packet member
    exact ⟨(samples_whole_iff depth channels packet).2.mpr (converts packet member),
      samples_silence format⟩

/-- Whatever mix `init` has accepted: no audio of a sequence of packets is dropped
precisely when each of them is converted. -/
theorem frames_whole_iff (float : Samples α) {capture ready : WasapiCapture} {setup : Setup}
    {mix : MixFormat} (mixFormat : setup.mixFormat = some mix)
    (accepted : capture.init setup = (ready, .ok ())) {first : UInt32} {turns : List Turn}
    {packets : List Packet} (delivers : Delivers first turns packets) :
    ∃ frames, readFrames float (ready.start true).1 true (some first) turns = some (.ok frames) ∧
      (Whole float mix.channels.toNat packets frames ↔ ∀ packet ∈ packets, Converts mix packet) := by
  obtain ⟨depth, channels⟩ := init_format mixFormat accepted
  have started : (ready.start true).1.isCapturing = true ∧
      (ready.start true).1.format = ready.format := by
    unfold start
    split
    case isTrue capturing => exact ⟨capturing, rfl⟩
    case isFalse => exact ⟨rfl, rfl⟩
  refine ⟨packets.flatMap (samples float ready.format), ?_, whole_iff depth channels⟩
  simp only [readFrames, started, Bool.not_true, Bool.false_eq_true, if_false,
    readPackets_delivers ready.format delivers, Option.map_some]

end Reading

def ready (mix : MixFormat) : Setup := ⟨true, true, true, some mix, true, true, true, true⟩

/-- Samples by their bits, cut to a natural number. -/
def bits : Samples Nat := ⟨0, UInt32.toNat, fun sample => sample.toNatClampNeg⟩

/-- A packet of two frames of 16-bit stereo, and a silent one of three. -/
theorem frames_whole_iff_stereo :
    let mix : MixFormat := ⟨1, .other, 16, 48000, 2⟩
    let packets : List Packet := [⟨2, false, fun _ => 1⟩, ⟨3, true, fun _ => 0⟩]
    ∃ frames, readFrames bits ((({} : WasapiCapture).init (ready mix)).1.start true).1 true (some 2)
        [⟨some ⟨2, false, fun _ => 1⟩, true, some 3⟩, ⟨some ⟨3, true, fun _ => 0⟩, true, some 0⟩] =
          some (.ok frames) ∧
      (Whole bits mix.channels.toNat packets frames ↔ ∀ packet ∈ packets, Converts mix packet) :=
  frames_whole_iff bits (rfl : (ready ⟨1, .other, 16, 48000, 2⟩).mixFormat = some _) rfl
    (.packet (by decide) (.packet (by decide) .done))

/-- A mix of 24 bits is accepted, and no sample of it is read. -/
theorem depth_24_dropped : ¬ ∀ (capture ready : WasapiCapture) (setup : Setup) (mix : MixFormat)
    (first : UInt32) (turns : List Turn) (packets : List Packet) (frames : List Nat),
    setup.mixFormat = some mix → capture.init setup = (ready, .ok ()) →
    Delivers first turns packets →
    readFrames bits (ready.start true).1 true (some first) turns = some (.ok frames) →
    Whole bits mix.channels.toNat packets frames := by
  intro claim
  have whole := claim {} _ (ready ⟨waveFormatExtensible, .pcm, 24, 48000, 2⟩) _ 480
    [⟨some ⟨480, false, fun _ => 1⟩, true, some 0⟩] _ [] rfl rfl
    (.packet (by decide) .done) rfl
  obtain ⟨blocks, same, sizes⟩ := whole
  obtain ⟨block, rest, size, _, rfl⟩ := List.forall₂_cons_left_iff.mp sizes
  have empty := congrArg List.length same
  rw [List.flatten_cons, List.length_append, size.1] at empty
  change 0 = 960 + _ at empty
  omega

end WasapiCapture
end UltraDisplay
