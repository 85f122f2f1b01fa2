import UltraDisplay.Library.Words

/-! scripts/ota_updater.py: which of the two root partitions an update is
written to. The running one is found by substring search in the kernel command
line; the kernel itself goes by the last `root=` token. -/
namespace UltraDisplay.OtaUpdater
open Words

inductive Part where
  | a
  | b
  deriving DecidableEq

def rootKey : List Char := ['r', 'o', 'o', 't', '=']
def sda2 : List Char := ['/', 'd', 'e', 'v', '/', 's', 'd', 'a', '2']
def sda3 : List Char := ['/', 'd', 'e', 'v', '/', 's', 'd', 'a', '3']

/-- None is the exception "Unknown root partition layout". -/
def getActivePartition (cmdline : List Char) : Option (Part × List Char) :=
  if rootKey ++ sda2 <:+: cmdline then some (.a, sda3)
  else if rootKey ++ sda3 <:+: cmdline then some (.b, sda2)
  else none

def verifySignature (_imagePath _signaturePath : List Char) : Bool := true

inductive Action where
  | writeImage (imagePath targetPartition : List Char)
  | updateBootloader (nextPartition : Part)
  deriving DecidableEq

structure Outcome where
  actions : List Action
  exitCode : Nat
  deriving DecidableEq

/-- `flashed` and `booted` say whether the commands run by `write_image` and by
`update_bootloader` succeed; a failed one raises. -/
def main (argv : List (List Char)) (cmdline : List Char) (flashed booted : Bool) : Outcome :=
  match argv with
  | _ :: imagePath :: sigPath :: _ =>
    match getActivePartition cmdline with
    | none => { actions := [], exitCode := 1 }
    | some (activePart, standbyDev) =>
      let nextPart := if activePart = .a then .b else .a
      if !verifySignature imagePath sigPath then { actions := [], exitCode := 1 }
      else if !flashed then { actions := [.writeImage imagePath standbyDev], exitCode := 1 }
      else
        { actions := [.writeImage imagePath standbyDev, .updateBootloader nextPart]
          exitCode := if booted then 0 else 1 }
  | _ => { actions := [], exitCode := 1 }

def Outcome.written (outcome : Outcome) : List (List Char) :=
  outcome.actions.filterMap fun
    | .writeImage _ target => some target
    | .updateBootloader _ => none

def isSpace (c : Char) : Bool :=
  c = ' ' || c = '\t' || c = '\n' || c = '\x0b' || c = '\x0c' || c = '\r'

/-- The device the kernel mounts as root: that of the last `root=` token. -/
def mountedRoot (cmdline : List Char) : Option (List Char) :=
  (((words isSpace cmdline).filter fun token => rootKey.isPrefixOf token).getLast?).map
    fun token => token.drop rootKey.length

/-- The update goes to the partition that is not mounted, and with another root
nothing is written. -/
def Spares (root : Option (List Char)) (written : List (List Char)) : Prop :=
  match root with
  | none => True
  | some device =>
    if device = sda2 then written = [sda3]
    else if device = sda3 then written = [sda2]
    else written = []

instance (root : Option (List Char)) (written : List (List Char)) :
    Decidable (Spares root written) := by
  unfold Spares
  split <;> infer_instance

/-- The command line names no partition before the mounted one in the order in
which the script looks for them. -/
def Plain (cmdline : List Char) : Prop :=
  match mountedRoot cmdline with
  | none => True
  | some device =>
    device = sda2 ∨ (¬ rootKey ++ sda2 <:+: cmdline ∧
      (device = sda3 ∨ ¬ rootKey ++ sda3 <:+: cmdline))

theorem mountedRoot_infix {cmdline device : List Char} (mounted : mountedRoot cmdline = some device) :
    rootKey ++ device <:+: cmdline := by
  obtain ⟨token, last, rfl⟩ := Option.map_eq_some_iff.mp mounted
  obtain ⟨member, key⟩ := List.mem_filter.mp (List.mem_of_getLast? last)
  obtain ⟨rest, rfl⟩ := List.isPrefixOf_iff_prefix.mp key
  rw [List.drop_left]
  exact infix_of_mem_words member

/-- The script writes to the standby device it finds, and to no other. -/
theorem main_written (imagePath sigPath program : List Char) (more : List (List Char))
    (cmdline : List Char) (flashed booted : Bool) :
    (main (program :: imagePath :: sigPath :: more) cmdline flashed booted).written =
      ((getActivePartition cmdline).map Prod.snd).toList := by
  cases found : getActivePartition cmdline with
  | none => simp [main, found, Outcome.written]
  | some layout => cases flashed <;> simp [main, found, verifySignature, Outcome.written]

/-- Called with an image and a signature, the script spares the mounted system
exactly on the plain command lines. -/
theorem spares_iff_plain (argv : List (List Char)) (called : 3 ≤ argv.length)
    (cmdline : List Char) (flashed booted : Bool) :
    Spares (mountedRoot cmdline) (main argv cmdline flashed booted).written ↔ Plain cmdline := by
  match argv, called with
  | program :: imagePath :: sigPath :: more, _ =>
  rw [main_written]
  unfold Spares Plain getActivePartition
  cases mounted : mountedRoot cmdline with
  | none => simp
  | some device =>
    have occurs := mountedRoot_infix mounted
    have distinct : sda2 ≠ sda3 := by decide
    simp only
    by_cases first : device = sda2
    · subst first
      simp [occurs]
    · by_cases second : device = sda3
      · subst second
        by_cases shadowed : rootKey ++ sda2 <:+: cmdline
        · simp [shadowed, Ne.symm distinct]
        · simp [shadowed, occurs, Ne.symm distinct]
      · by_cases shadowed : rootKey ++ sda2 <:+: cmdline
        · simp [shadowed, first, second]
        · by_cases other : rootKey ++ sda3 <:+: cmdline
          · simp [shadowed, other, first, second]
          · simp [shadowed, other, first, second]

theorem spares_iff_plain_sda3 :
    Spares (mountedRoot (rootKey ++ sda3))
        (main [[], ['i'], ['s']] (rootKey ++ sda3) true true).written ↔
      Plain (rootKey ++ sda3) :=
  spares_iff_plain [[], ['i'], ['s']] (by decide) (rootKey ++ sda3) true true

/-- An earlier `root=/dev/sda2` decides, though the kernel mounts `/dev/sda3`:
the update is written over the running system. -/
theorem mounted_root_flashed :
    let cmdline := rootKey ++ sda2 ++ ' ' :: rootKey ++ sda3
    mountedRoot cmdline = some sda3 ∧
      (main [[], ['i'], ['s']] cmdline true true).written = [sda3] ∧
      ¬ Spares (mountedRoot cmdline) (main [[], ['i'], ['s']] cmdline true true).written := by
  decide +kernel

end UltraDisplay.OtaUpdater
