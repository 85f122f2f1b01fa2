import UltraDisplay.Library.CheckedWrite
import UltraDisplay.Library.Transition
import UltraDisplay.Shared.AudioPipeline

/-! The Opus wrappers of shared/audio/audio_pipeline.cpp. A wrapper keeps the format of its
last `init` and the codec of the last one that succeeded, and sizes its buffers by the
format while the codec counts its own channels. -/
namespace UltraDisplay
open CheckedWrite Transition

/-- Both wrappers: `codec` is the format that the codec was created with. -/
structure OpusWrapper where
  codec : Option AudioFormat := none
  format : AudioFormat := {}
  deriving DecidableEq

namespace OpusWrapper

/-- A format, and whether Opus creates a codec of it: never without a channel. -/
structure Init where
  format : AudioFormat
  created : Bool
  supported : created = true → format.channels ≠ 0
  deriving DecidableEq

def init (wrapper : OpusWrapper) (call : Init) : OpusWrapper × Bool :=
  if call.created then ({ codec := some call.format, format := call.format }, true)
  else ({ wrapper with format := call.format }, false)

def step (wrapper : OpusWrapper) (call : Init) : Option OpusWrapper := some (wrapper.init call).1

/-- The format in use fits the codec in use. -/
def Agree (Fits : AudioFormat → AudioFormat → Prop) (wrapper : OpusWrapper) : Prop :=
  ∀ codec ∈ wrapper.codec, Fits codec wrapper.format

/-- An `init` that fails leaves a format that fits the codec. -/
def Tolerates (Fits : AudioFormat → AudioFormat → Prop) (wrapper : OpusWrapper) (call : Init) :
    Prop :=
  call.created = false → ∀ codec ∈ wrapper.codec, Fits codec call.format

/-- Only an `init` that fails can make the two differ. -/
theorem agree_throughout_iff {Fits : AudioFormat → AudioFormat → Prop}
    (own : ∀ format : AudioFormat, format.channels ≠ 0 → Fits format format) (calls : List Init) :
    Throughout step (Agree Fits) {} calls ↔ Guarded step (Tolerates Fits) {} calls := by
  refine throughout_iff_guarded (I := Agree Fits) (fun _ => id) ?_ ?_ (by simp [Agree])
  · intro wrapper call next agree tolerates stepped
    cases stepped
    unfold init
    split
    case isTrue created =>
      intro codec same
      cases Option.some.inj same
      exact own call.format (call.supported created)
    case isFalse failed => exact tolerates (by simpa using failed)
  · intro wrapper call next agree differs stepped
    cases stepped
    obtain ⟨failed, differs⟩ := Classical.not_imp.mp differs
    simpa [init, failed, Agree] using differs

end OpusWrapper

namespace OpusDecoderWrapper
open OpusWrapper
variable {α : Type} [Zero α]

/-- The frames of 120 ms, in the arithmetic of `uint32_t`. -/
def maxFrameSize (format : AudioFormat) : Nat := (120 * format.sampleRate).toNat / 1000

/-- `answer` is what `opus_decode_float` returns and writes, if it does not fail. -/
def decode (decoder : OpusWrapper) (answer : Option (Nat × List α)) : Writer (List α) :=
  match decoder.codec with
  | none => .ok []
  | some _ =>
    let channels := decoder.format.channels.toNat
    match answer with
    | none => .ok []
    | some (decodedSamples, samples) => do
      let pcm ← writeAll (List.replicate (maxFrameSize decoder.format * channels) 0) 0 samples
      return pcm.take (decodedSamples * channels)

/-- The contract of Opus: it writes all channels of at most as many frames as it is told.
What follows is about every decoder within it, also one that needs room for more. -/
def Decodes (decoder : OpusWrapper) (decodedSamples : Nat) (samples : List α) : Prop :=
  ∃ codec, decoder.codec = some codec ∧ decodedSamples ≤ maxFrameSize decoder.format ∧
    samples.length = decodedSamples * codec.channels.toNat

/-- Whatever Opus decodes, it writes inside of the buffer. -/
def Inside (α : Type) [Zero α] (decoder : OpusWrapper) : Prop :=
  ∀ (decodedSamples : Nat) (samples : List α), Decodes decoder decodedSamples samples →
    ∃ pcm, decode decoder (some (decodedSamples, samples)) = .ok pcm

/-- Whatever Opus decodes is returned. -/
def Faithful (α : Type) [Zero α] (decoder : OpusWrapper) : Prop :=
  ∀ (decodedSamples : Nat) (samples : List α), Decodes decoder decodedSamples samples →
    decode decoder (some (decodedSamples, samples)) = .ok samples

def Room (codec format : AudioFormat) : Prop :=
  maxFrameSize format = 0 ∨ codec.channels ≤ format.channels

def Matches (codec format : AudioFormat) : Prop :=
  maxFrameSize format = 0 ∨ codec.channels = format.channels

variable {decoder : OpusWrapper} {codec : AudioFormat} {decodedSamples : Nat} {samples : List α}

theorem decode_fitting (created : decoder.codec = some codec)
    (fits : samples.length ≤ maxFrameSize decoder.format * decoder.format.channels.toNat) :
    decode decoder (some (decodedSamples, samples)) =
      .ok ((samples ++ List.replicate
        (maxFrameSize decoder.format * decoder.format.channels.toNat - samples.length) 0).take
          (decodedSamples * decoder.format.channels.toNat)) := by
  have written := @writeAll_append α [] (List.replicate
    (maxFrameSize decoder.format * decoder.format.channels.toNat) 0) samples (by simpa using fits)
  simp only [List.nil_append, List.length_nil, List.drop_replicate] at written
  simp only [decode, created, written]
  rfl

theorem decode_fits {pcm : List α} (created : decoder.codec = some codec)
    (decoded : decode decoder (some (decodedSamples, samples)) = .ok pcm) (some : samples ≠ []) :
    samples.length ≤ maxFrameSize decoder.format * decoder.format.channels.toNat := by
  cases written : writeAll (List.replicate
      (maxFrameSize decoder.format * decoder.format.channels.toNat) 0) 0 samples with
  | error fault => simp [decode, created, written, bind, Except.bind] at decoded
  | ok middle => simpa using writeAll_fits written some

theorem inside_iff : Inside α decoder ↔ Agree Room decoder := by
  constructor
  · intro inside codec created
    by_cases silent : maxFrameSize decoder.format = 0
    · exact .inl silent
    · refine .inr (UInt8.le_iff_toNat_le.mpr ?_)
      obtain ⟨pcm, decoded⟩ := inside (maxFrameSize decoder.format)
        (List.replicate (maxFrameSize decoder.format * codec.channels.toNat) 0)
        ⟨codec, created, Nat.le_refl _, List.length_replicate⟩
      by_contra more
      have most : maxFrameSize decoder.format * codec.channels.toNat ≠ 0 :=
        Nat.mul_ne_zero silent (by omega)
      have fits := decode_fits created decoded (by simpa using most)
      rw [List.length_replicate] at fits
      exact more (Nat.le_of_mul_le_mul_left fits (Nat.pos_of_ne_zero silent))
  · rintro agree decodedSamples samples ⟨codec, created, few, length⟩
    refine ⟨_, decode_fitting created ?_⟩
    rw [length]
    rcases agree codec created with silent | room
    · rw [silent] at few
      rw [Nat.le_zero.mp few, Nat.zero_mul]
      exact Nat.zero_le _
    · exact Nat.mul_le_mul few (UInt8.le_iff_toNat_le.mp room)

theorem faithful_iff : Faithful α decoder ↔ Agree Matches decoder := by
  constructor
  · intro faithful codec created
    by_cases silent : maxFrameSize decoder.format = 0
    · exact .inl silent
    · have one : Decodes decoder 1 (List.replicate codec.channels.toNat (0 : α)) :=
        ⟨codec, created, Nat.pos_of_ne_zero silent, by simp⟩
      have room := inside_iff.mp (fun count given decodes => ⟨given, faithful count given decodes⟩)
        codec created
      have fewer : codec.channels.toNat ≤ decoder.format.channels.toNat :=
        UInt8.le_iff_toNat_le.mp (room.resolve_left silent)
      have larger : decoder.format.channels.toNat ≤
          maxFrameSize decoder.format * decoder.format.channels.toNat :=
        Nat.le_mul_of_pos_left _ (Nat.pos_of_ne_zero silent)
      have returned := faithful 1 _ one
      rw [decode_fitting created (by simpa using fewer.trans larger)] at returned
      have lengths := congrArg List.length (Except.ok.inj returned)
      simp only [List.length_take, List.length_append, List.length_replicate, Nat.one_mul] at lengths
      exact .inr (UInt8.toNat_inj.mp (by omega))
  · rintro agree decodedSamples samples ⟨codec, created, few, length⟩
    have fits : samples.length ≤ maxFrameSize decoder.format * decoder.format.channels.toNat ∧
        samples.length = decodedSamples * decoder.format.channels.toNat := by
      rcases agree codec created with silent | same
      · rw [silent] at few
        rw [Nat.le_zero.mp few, Nat.zero_mul] at length ⊢
        exact ⟨by omega, length⟩
      · rw [length, same]
        exact ⟨Nat.mul_le_mul_right _ few, rfl⟩
    rw [decode_fitting created fits.1, List.take_left' fits.2]

end OpusDecoderWrapper

namespace OpusEncoderWrapper
open OpusWrapper
variable {α : Type}

inductive Fault where
  | divisionByZero
  | outOfBounds

/-- What `opus_encode_float` is given to read. -/
def encode (encoder : OpusWrapper) (pcmData : List α) : Except Fault (List α) :=
  match encoder.codec with
  | none => .ok []
  | some codec =>
    if encoder.format.channels = 0 then .error .divisionByZero
    else
      let frameSize := (Int32.ofNat (pcmData.length / encoder.format.channels.toNat)).toInt
      let samples := frameSize.toNat * codec.channels.toNat
      if pcmData.length < samples then .error .outOfBounds else .ok (pcmData.take samples)

/-- Whatever it is given, Opus reads inside of it. -/
def Inside (α : Type) (encoder : OpusWrapper) : Prop :=
  ∀ pcmData : List α, ∃ given, encode encoder pcmData = .ok given

def Room (codec format : AudioFormat) : Prop :=
  format.channels ≠ 0 ∧ codec.channels ≤ format.channels

theorem frameSize_le (count : Nat) : (Int32.ofNat count).toInt.toNat ≤ count := by
  rw [Int32.toInt_ofNat']
  simp only [Int.bmod, Int32.size]
  split <;> omega

theorem inside_iff [Zero α] {encoder : OpusWrapper} :
    Inside α encoder ↔ Agree Room encoder := by
  constructor
  · intro inside codec (created : encoder.codec = some codec)
    have channels : encoder.format.channels ≠ 0 := by
      intro none
      obtain ⟨given, encoded⟩ := inside []
      simp [encode, created, none] at encoded
    refine ⟨channels, UInt8.le_iff_toNat_le.mpr ?_⟩
    obtain ⟨given, encoded⟩ := inside (List.replicate encoder.format.channels.toNat 0)
    have one : encoder.format.channels.toNat / encoder.format.channels.toNat = 1 :=
      Nat.div_self (Nat.pos_of_ne_zero fun none => channels (UInt8.toNat_inj.mp none))
    simp only [encode, created, if_neg channels, List.length_replicate, one] at encoded
    by_contra more
    have beyond : encoder.format.channels.toNat <
        (Int32.ofNat 1).toInt.toNat * codec.channels.toNat := by
      rw [show (Int32.ofNat 1).toInt.toNat = 1 from rfl]
      omega
    rw [if_pos beyond] at encoded
    cases encoded
  · intro agree pcmData
    unfold encode
    split
    case h_1 => exact ⟨[], rfl⟩
    case h_2 codec created =>
      obtain ⟨channels, fewer⟩ := agree codec created
      have frames := frameSize_le (pcmData.length / encoder.format.channels.toNat)
      have within := (Nat.mul_le_mul frames (UInt8.le_iff_toNat_le.mp fewer)).trans
        (Nat.div_mul_le_self pcmData.length encoder.format.channels.toNat)
      rw [if_neg channels]
      simp only [if_neg (Nat.not_lt.mpr within)]
      exact ⟨_, rfl⟩

end OpusEncoderWrapper

/-- Over every sequence of `init` calls, on either wrapper. The decoder writes inside of its
buffer until an `init` fails with fewer channels than the codec has, and returns what Opus
decodes until one fails with another number of channels; the encoder lets Opus read inside
of what it is given until one fails with fewer channels or none. -/
theorem opus_inside_iff {α : Type} [Zero α] (calls : List OpusWrapper.Init) :
    (Throughout OpusWrapper.step (OpusDecoderWrapper.Inside α) {} calls ↔
      Guarded OpusWrapper.step (OpusWrapper.Tolerates OpusDecoderWrapper.Room) {} calls) ∧
    (Throughout OpusWrapper.step (OpusDecoderWrapper.Faithful α) {} calls ↔
      Guarded OpusWrapper.step (OpusWrapper.Tolerates OpusDecoderWrapper.Matches) {} calls) ∧
    (Throughout OpusWrapper.step (OpusEncoderWrapper.Inside α) {} calls ↔
      Guarded OpusWrapper.step (OpusWrapper.Tolerates OpusEncoderWrapper.Room) {} calls) := by
  have inside : OpusDecoderWrapper.Inside α = OpusWrapper.Agree OpusDecoderWrapper.Room :=
    funext fun _ => propext OpusDecoderWrapper.inside_iff
  have faithful : OpusDecoderWrapper.Faithful α = OpusWrapper.Agree OpusDecoderWrapper.Matches :=
    funext fun _ => propext OpusDecoderWrapper.faithful_iff
  have reads : OpusEncoderWrapper.Inside α = OpusWrapper.Agree OpusEncoderWrapper.Room :=
    funext fun _ => propext OpusEncoderWrapper.inside_iff
  rw [inside, faithful, reads]
  exact ⟨OpusWrapper.agree_throughout_iff (fun _ _ => .inr (UInt8.le_refl _)) calls,
    OpusWrapper.agree_throughout_iff (fun _ _ => .inr rfl) calls,
    OpusWrapper.agree_throughout_iff (fun _ some => ⟨some, UInt8.le_refl _⟩) calls⟩

end UltraDisplay
