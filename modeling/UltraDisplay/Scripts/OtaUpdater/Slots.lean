import UltraDisplay.Library.Transition
import UltraDisplay.Scripts.OtaUpdater
import Mathlib.Logic.Function.Basic

/-! The two root partitions and `next_entry` of `grubenv` over runs of
scripts/ota_updater.py, on any command lines and with any of its commands failing. The
grub.cfg of the image does not load that environment, so that nothing here says what is
booted. -/
namespace UltraDisplay.OtaUpdater
open Transition
variable {ι : Type}

/-- What a partition holds: a whole image, or nothing that is one. -/
inductive Slot (ι : Type) where
  | whole (image : ι)
  | torn
  deriving DecidableEq

/-- `nextEntry` is the partition that `next_entry` in `grubenv` names. -/
structure Disk (ι : Type) where
  slots : Part → Slot ι
  nextEntry : Option Part := none

/-- How far `dd` gets: it fails before it writes anything, or after. -/
inductive Flash where
  | unwritten
  | torn
  | done
  deriving DecidableEq

inductive Switch where
  | mountFails
  | setFails
  | unmountFails
  | done
  deriving DecidableEq

def Switch.sets : Switch → Bool
  | .mountFails | .setFails => false
  | .unmountFails | .done => true

/-- A run of the script, with the image found at its path. -/
structure Update (ι : Type) where
  argv : List (List Char)
  cmdline : List Char
  image : ι
  flash : Flash
  switch : Switch

def Update.outcome (update : Update ι) : Outcome :=
  main update.argv update.cmdline (update.flash = .done) (update.switch = .done)

/-- The script writes to two devices only. -/
def partOf (device : List Char) : Part := if device = sda2 then .a else .b

def Update.target (update : Update ι) : Option Part := update.outcome.written.head?.map partOf

def Disk.perform (update : Update ι) (disk : Disk ι) : Action → Disk ι
  | .writeImage _ target =>
    match update.flash with
    | .unwritten => disk
    | .torn => { disk with slots := Function.update disk.slots (partOf target) .torn }
    | .done =>
      { disk with slots := Function.update disk.slots (partOf target) (.whole update.image) }
  | .updateBootloader next =>
    if update.switch.sets then { disk with nextEntry := some next } else disk

def step (disk : Disk ι) (update : Update ι) : Option (Disk ι) :=
  some (update.outcome.actions.foldl (Disk.perform update) disk)

/-- The disk that is shipped: the second partition is empty. -/
def factory (image : ι) : Disk ι where
  slots
    | .a => .whole image
    | .b => .torn

/-- The partition that `next_entry` names, once it names one, holds a whole image. -/
def NextWhole (disk : Disk ι) : Prop :=
  ∀ part ∈ disk.nextEntry, ∃ image, disk.slots part = .whole image

/-- A write that fails halfway is not to the partition that is named already. -/
def SparesNext (disk : Disk ι) (update : Update ι) : Prop :=
  update.flash = .torn → ∀ part ∈ update.target, disk.nextEntry ≠ some part

inductive Updated (disk : Disk ι) (update : Update ι) : Option Part → Nat → Disk ι → Prop where
  | refused : Updated disk update none 1 disk
  | unwritten {target : Part} (failed : update.flash = .unwritten) :
      Updated disk update (some target) 1 disk
  | torn {target : Part} (failed : update.flash = .torn) :
      Updated disk update (some target) 1
        { disk with slots := Function.update disk.slots target .torn }
  | written {target : Part} (flashed : update.flash = .done) (kept : update.switch.sets = false) :
      Updated disk update (some target) 1
        { disk with slots := Function.update disk.slots target (.whole update.image) }
  | switched {target : Part} (flashed : update.flash = .done) (set : update.switch.sets = true) :
      Updated disk update (some target) (if update.switch = .done then 0 else 1)
        { slots := Function.update disk.slots target (.whole update.image)
          nextEntry := some target }

theorem standby_next {cmdline : List Char} {active : Part} {standbyDev : List Char}
    (found : getActivePartition cmdline = some (active, standbyDev)) :
    (if active = .a then Part.b else .a) = partOf standbyDev := by
  unfold getActivePartition at found
  split at found
  case isTrue =>
    cases found
    rfl
  case isFalse =>
    split at found
    case isTrue =>
      cases found
      rfl
    case isFalse => cases found

theorem step_updated {disk next : Disk ι} {update : Update ι}
    (stepped : step disk update = some next) :
    Updated disk update update.target update.outcome.exitCode next := by
  cases stepped
  obtain ⟨argv, cmdline, image, flash, switch⟩ := update
  match argv with
  | [] | [_] | [_, _] => exact .refused
  | program :: imagePath :: sigPath :: more =>
    cases found : getActivePartition cmdline with
    | none =>
      simp only [Update.target, Update.outcome, main, found, Outcome.written]
      exact .refused
    | some layout =>
      obtain ⟨active, standbyDev⟩ := layout
      have entry := standby_next found
      cases flash with
      | unwritten =>
        simp only [Update.target, Update.outcome, main, found, Outcome.written]
        exact .unwritten rfl
      | torn =>
        simp only [Update.target, Update.outcome, main, found, Outcome.written]
        exact .torn rfl
      | done =>
        simp only [Update.target, Update.outcome, main, found, Outcome.written, entry]
        cases switch with
        | mountFails | setFails => exact .written rfl rfl
        | unmountFails => exact .switched rfl rfl
        | done => exact .switched rfl rfl

/-- What an update leaves alone, and what it has done when it reports success. -/
def Reports (disk : Disk ι) (update : Update ι) (next : Disk ι) : Prop :=
  (∀ part, update.target ≠ some part → next.slots part = disk.slots part) ∧
    (update.outcome.exitCode = 0 ↔ update.flash = .done ∧ update.switch = .done ∧
      ∃ part ∈ update.target, next.slots part = .whole update.image ∧ next.nextEntry = some part)

theorem step_reports {disk next : Disk ι} {update : Update ι}
    (stepped : step disk update = some next) : Reports disk update next := by
  have updated := step_updated stepped
  unfold Reports
  generalize update.target = target at updated
  generalize update.outcome.exitCode = exitCode at updated
  have others {target part : Part} (slot : Slot ι) (other : some target ≠ some part) :
      Function.update disk.slots target slot part = disk.slots part :=
    Function.update_of_ne (fun same => other (congrArg some same.symm)) ..
  cases updated with
  | refused => exact ⟨fun _ _ => rfl, by simp⟩
  | unwritten failed => exact ⟨fun _ _ => rfl, by simp [failed]⟩
  | torn failed => exact ⟨fun part => others .torn, by simp [failed]⟩
  | written flashed kept =>
    refine ⟨fun part => others (.whole update.image), ?_⟩
    have unset : update.switch ≠ .done := fun same => by simp [same, Switch.sets] at kept
    simp [unset]
  | switched flashed set => exact ⟨fun part => others (.whole update.image), by simp [flashed]⟩

/-- The partition that is named is whole after an update unless a write to it was torn. -/
theorem nextWhole_iff {disk next : Disk ι} {update : Update ι} (whole : NextWhole disk)
    (stepped : step disk update = some next) : NextWhole next ↔ SparesNext disk update := by
  have updated := step_updated stepped
  unfold SparesNext
  generalize update.target = target at updated
  generalize update.outcome.exitCode = exitCode at updated
  cases updated with
  | refused => exact iff_of_true whole (by simp)
  | unwritten failed => exact iff_of_true whole (by simp [failed])
  | @torn target failed =>
    constructor
    · intro named _ part own chosen
      obtain ⟨image, same⟩ := named part chosen
      obtain rfl : target = part := Option.some.inj own
      have torn : Function.update disk.slots target .torn target = .torn := Function.update_self ..
      cases torn.symm.trans same
    · intro spared part chosen
      have other : part ≠ target := fun same => spared failed target rfl (same ▸ chosen)
      obtain ⟨image, same⟩ := whole part chosen
      exact ⟨image, (Function.update_of_ne other ..).trans same⟩
  | @written target flashed kept =>
    refine iff_of_true ?_ (by simp [flashed])
    intro part chosen
    by_cases own : part = target
    · exact ⟨update.image, own ▸ Function.update_self ..⟩
    · obtain ⟨image, same⟩ := whole part chosen
      exact ⟨image, (Function.update_of_ne own ..).trans same⟩
  | switched flashed set =>
    refine iff_of_true ?_ (by simp [flashed])
    intro part chosen
    cases Option.some.inj chosen
    exact ⟨update.image, Function.update_self ..⟩

/-- Over every sequence of updates of a disk as shipped: an update touches its target alone
and reports success when the target is whole and named by `next_entry`, and the partition
that `next_entry` names holds a whole image all along exactly when no write to it is torn,
as one may be that is repeated after the entry has been set. -/
theorem next_entry_whole_iff (image : ι) (updates : List (Update ι)) :
    EveryStep step Reports (factory image) updates ∧
      (Throughout step NextWhole (factory image) updates ↔
        Guarded step SparesNext (factory image) updates) := by
  have start : NextWhole (factory image) := by simp [NextWhole, factory]
  refine ⟨fun _ _ _ _ _ _ stepped => step_reports stepped, ?_⟩
  exact throughout_iff_guarded (I := NextWhole) (fun _ => id)
    (fun _ _ _ whole spares stepped => (nextWhole_iff whole stepped).mpr spares)
    (fun _ _ _ whole spares stepped => mt (nextWhole_iff whole stepped).mp spares) start

end UltraDisplay.OtaUpdater
