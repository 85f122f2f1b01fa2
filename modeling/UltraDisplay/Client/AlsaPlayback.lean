import UltraDisplay.Library.Transition
import UltraDisplay.Shared.AudioPipeline
import UltraDisplay.Shared.Result

/-! `write_frames` of client/audio/alsa_playback.cpp, one call of it against a device
that answers as it likes. The position counts whole frames, and a pointer into the
span is the index of its sample. -/
namespace UltraDisplay

/-- `pcmHandle` says whether `pcm_handle_` is not null. -/
structure AlsaPlayback where
  pcmHandle : Bool
  format : AudioFormat

namespace AlsaPlayback
open Transition

def epipe : Int := 32
def estrpipe : Int := 86
def eagain : Int := 11

inductive DeviceCall where
  | writei (offset count : Nat) (res : Int)
  | prepare
  | resume (res : Int)
  deriving DecidableEq

inductive Place where
  | writing
  | resuming
  | returned (result : Result Unit)

structure Writing where
  written : Nat := 0
  place : Place := .writing
  calls : List DeviceCall := []

inductive Answer where
  | writei (res : Int)
  | resume (res : Int)

def Writing.test (s : Writing) (frames : Nat) : Writing :=
  { s with place := if s.written < frames then .writing else .returned (.ok ()) }

def Writing.log (s : Writing) (call : DeviceCall) : Writing := { s with calls := s.calls ++ [call] }

def channels (playback : AlsaPlayback) : Nat := playback.format.channels.toNat

def frames (playback : AlsaPlayback) (size : Nat) : Nat := size / playback.channels

/-- `write_frames` up to the loop, for a span of `size` samples. The number of frames
is undefined without channels. -/
def start (playback : AlsaPlayback) (size : Nat) : Option Writing :=
  if !playback.pcmHandle then
    some { place := .returned (.error (systemError "PCM handle not initialized")) }
  else if playback.channels = 0 then none
  else some (({} : Writing).test (playback.frames size))

/-- The device takes no more frames than it is given. -/
def step (playback : AlsaPlayback) (size : Nat) (s : Writing) : Answer → Option Writing
  | .writei res =>
    match s.place with
    | .writing =>
      let frames := playback.frames size
      let count := frames - s.written
      if res ≤ count then
        let s := s.log (.writei (s.written * playback.channels) count res)
        if res = -epipe then some ((s.log .prepare).test frames)
        else if res = -estrpipe then some { s with place := .resuming }
        else if res < 0 then
          some { s with place := .returned (.error (systemError "Error writing to PCM device")) }
        else some ({ s with written := s.written + res.toNat }.test frames)
      else none
    | _ => none
  | .resume res =>
    match s.place with
    | .resuming =>
      let s := s.log (.resume res)
      if res = -eagain then some s
      else if res < 0 then some ((s.log .prepare).test (playback.frames size))
      else some (s.test (playback.frames size))
    | _ => none

variable {α : Type}

/-- The samples that the device has taken from the span at a call. -/
def DeviceCall.accepted (pcmData : List α) (channels : Nat) : DeviceCall → List α
  | .writei offset _ res => (pcmData.drop offset).take (res.toNat * channels)
  | .prepare | .resume _ => []

def Writing.accepted (pcmData : List α) (channels : Nat) (s : Writing) : List α :=
  s.calls.flatMap (DeviceCall.accepted pcmData channels)

/-- A call whose frames all lie inside of the span. -/
def DeviceCall.Inside (size channels : Nat) : DeviceCall → Prop
  | .writei offset count _ => offset + count * channels ≤ size
  | .prepare | .resume _ => True

/-- The device has the frames up to the position, and all of them at a success. -/
structure Inv (playback : AlsaPlayback) (pcmData : List α) (s : Writing) : Prop where
  within : s.written ≤ playback.frames pcmData.length
  taken : s.accepted pcmData playback.channels = pcmData.take (s.written * playback.channels)
  inside : ∀ call ∈ s.calls, call.Inside pcmData.length playback.channels
  complete : s.place = .returned (.ok ()) → s.written = playback.frames pcmData.length

variable {playback : AlsaPlayback} {pcmData : List α} {s t : Writing}

theorem Inv.log (inv : Inv playback pcmData s) (call : DeviceCall)
    (nothing : call.accepted pcmData playback.channels = [])
    (inside : call.Inside pcmData.length playback.channels) : Inv playback pcmData (s.log call) := by
  refine ⟨inv.within, ?_, ?_, inv.complete⟩
  · simp only [Writing.log, Writing.accepted, List.flatMap_append, List.flatMap_singleton, nothing,
      List.append_nil]
    exact inv.taken
  · intro other member
    rcases List.mem_append.mp member with member | member
    · exact inv.inside other member
    · rw [List.mem_singleton.mp member]
      exact inside

theorem Inv.test (inv : Inv playback pcmData s) :
    Inv playback pcmData (s.test (playback.frames pcmData.length)) := by
  refine ⟨inv.within, inv.taken, inv.inside, ?_⟩
  intro returned
  have within := inv.within
  simp only [Writing.test] at returned ⊢
  split at returned
  · cases returned
  · omega

theorem Inv.move (inv : Inv playback pcmData s) {place : Place}
    (other : place ≠ .returned (.ok ())) : Inv playback pcmData { s with place } :=
  ⟨inv.within, inv.taken, inv.inside, fun same => absurd same other⟩

theorem left_inside (within : s.written ≤ playback.frames pcmData.length) :
    s.written * playback.channels + (playback.frames pcmData.length - s.written) * playback.channels ≤
      pcmData.length := by
  rw [← Nat.add_mul, Nat.add_sub_cancel' within]
  exact Nat.div_mul_le_self _ _

/-- Frames that the device takes are those after the ones it has. -/
theorem Inv.accept (inv : Inv playback pcmData s) {res : Nat}
    (room : res ≤ playback.frames pcmData.length - s.written) :
    Inv playback pcmData
      ({ s.log (.writei (s.written * playback.channels)
          (playback.frames pcmData.length - s.written) res) with
        written := s.written + res }.test (playback.frames pcmData.length)) := by
  have within := inv.within
  refine ⟨?_, ?_, ?_, ?_⟩
  · simp only [Writing.test]
    omega
  · have taken := inv.taken
    simp only [Writing.accepted] at taken
    simp only [Writing.test, Writing.log, Writing.accepted, List.flatMap_append,
      List.flatMap_singleton, taken, DeviceCall.accepted, Int.toNat_natCast]
    rw [Nat.add_mul, List.take_add]
  · intro call member
    rcases List.mem_append.mp member with member | member
    · exact inv.inside call member
    · rw [List.mem_singleton.mp member]
      exact left_inside within
  · intro returned
    simp only [Writing.test] at returned ⊢
    split at returned
    · cases returned
    · omega

theorem Inv.refuse (inv : Inv playback pcmData s) {res : Int} (failed : res < 0) :
    Inv playback pcmData (s.log (.writei (s.written * playback.channels)
      (playback.frames pcmData.length - s.written) res)) := by
  refine inv.log _ ?_ (left_inside inv.within)
  have none : res.toNat = 0 := Int.toNat_of_nonpos (Int.le_of_lt failed)
  simp only [DeviceCall.accepted, none, Nat.zero_mul, List.take_zero]

theorem start_inv (begun : start playback pcmData.length = some s) : Inv playback pcmData s := by
  have fresh : Inv playback pcmData { place := .writing } :=
    ⟨Nat.zero_le _, by simp [Writing.accepted], fun _ member => absurd member List.not_mem_nil,
      fun same => nomatch same⟩
  unfold start at begun
  split at begun
  · cases begun
    exact fresh.move fun same => nomatch same
  · split at begun
    · cases begun
    · cases begun
      exact fresh.test

theorem step_inv (inv : Inv playback pcmData s) {answer : Answer}
    (stepped : step playback pcmData.length s answer = some t) : Inv playback pcmData t := by
  cases answer with
  | writei res =>
    simp only [step] at stepped
    split at stepped
    case h_2 => cases stepped
    case h_1 place =>
      split at stepped
      case isFalse => cases stepped
      case isTrue room =>
        by_cases failed : res < 0
        · have logged := inv.refuse failed
          split at stepped
          · cases stepped
            exact (logged.log .prepare rfl trivial).test
          · split at stepped
            · cases stepped
              exact logged.move fun same => nomatch same
            · cases stepped
              exact logged.move fun same => nomatch same
        · obtain ⟨count, rfl⟩ := Int.eq_ofNat_of_zero_le (Int.not_lt.mp failed)
          rw [if_neg (by simp only [epipe]; omega), if_neg (by simp only [estrpipe]; omega),
            if_neg failed] at stepped
          cases stepped
          exact inv.accept (by omega)
  | resume res =>
    simp only [step] at stepped
    split at stepped
    case h_2 => cases stepped
    case h_1 place =>
      have logged := inv.log (.resume res) rfl trivial
      split at stepped
      · cases stepped
        exact logged
      · split at stepped
        · cases stepped
          exact (logged.log .prepare rfl trivial).test
        · cases stepped
          exact logged.test

/-- Whatever the device answers, it has taken the leading frames, each once and in
order, and all of them once the call succeeds, and no call has led out of the span. -/
theorem writes_frames_once (playback : AlsaPlayback) (pcmData : List α) (begun s : Writing)
    (answers : List Answer)
    (started : start playback pcmData.length = some begun)
    (reached : run (step playback pcmData.length) begun answers = some s) :
    (∃ count ≤ pcmData.length / playback.channels,
      s.accepted pcmData playback.channels = pcmData.take (count * playback.channels)) ∧
    (s.place = .returned (.ok ()) → s.accepted pcmData playback.channels =
      pcmData.take (pcmData.length / playback.channels * playback.channels)) ∧
    ∀ call ∈ s.calls, call.Inside pcmData.length playback.channels := by
  have inv : Inv playback pcmData s :=
    run_invariant (fun _ _ _ inv stepped => step_inv inv stepped) (start_inv started) reached
  refine ⟨⟨s.written, inv.within, inv.taken⟩, ?_, inv.inside⟩
  intro success
  rw [inv.taken, inv.complete success]
  rfl

/-- Five stereo samples: a frame, an underrun, and the other frame. -/
theorem writes_frames_once_stereo :
    let playback : AlsaPlayback := ⟨true, { channels := 2 }⟩
    let pcmData : List Nat := [1, 2, 3, 4, 5]
    ∃ s : Writing, s.accepted pcmData 2 = [1, 2, 3, 4] ∧
      (∃ count ≤ pcmData.length / playback.channels,
        s.accepted pcmData playback.channels = pcmData.take (count * playback.channels)) ∧
      (s.place = .returned (.ok ()) → s.accepted pcmData playback.channels =
        pcmData.take (pcmData.length / playback.channels * playback.channels)) ∧
      ∀ call ∈ s.calls, call.Inside pcmData.length playback.channels :=
  ⟨_, by decide, writes_frames_once ⟨true, { channels := 2 }⟩ [1, 2, 3, 4, 5] _ _
    [.writei 1, .writei (-epipe), .writei 0, .writei (-estrpipe), .resume (-eagain), .resume 0,
      .writei 1] rfl rfl⟩

end AlsaPlayback
end UltraDisplay
