import UltraDisplay.Client.WifiScreen.Connect
import UltraDisplay.Library.ShellWords.Joining
import UltraDisplay.Shared.Result

/-! The commands of client/network/net_optimizer.cpp, into which the name of an interface
is written without quotation. The fragment of the shell refuses the characters of patterns,
assignments and reserved words wherever they stand, so a name with one of
`* ? [ ~ = % ! { }` is left open: a shell may take it as it is. -/
namespace UltraDisplay.NetOptimizer
open ShellWords WifiScreen

/-- The command that `system` is given, which returns `status`. -/
def applyOffloads (interfaceName : Chars) (status : Int) : List Chars × Result Unit :=
  let cmd := ascii "ethtool -K " ++ interfaceName ++ ascii " rx on tx on tso on gso on gro on"
  ([cmd],
    if status ≠ 0 then .error (systemError "Failed to apply ethtool offloads") else .ok ())

/-- The statuses are ignored. -/
def autoTune (interfaceName : Chars) : List Chars × Result Unit :=
  let cmdRing := ascii "ethtool -G " ++ interfaceName ++ ascii " rx 4096 tx 4096"
  let cmdCoal := ascii "ethtool -C " ++ interfaceName ++ ascii " rx-usecs 0 tx-usecs 0"
  let cmdIp := ascii "ip link set " ++ interfaceName ++ ascii " txqueuelen 10000"
  ([cmdRing, cmdCoal, cmdIp], .ok ())

/-- The words of one command with the interface among them. -/
structure Usage where
  before : List String
  behind : List String

def Usage.words (usage : Usage) (interfaceName : Chars) : List Chars :=
  usage.before.map ascii ++ interfaceName :: usage.behind.map ascii

/-- What `apply_offloads` and then `auto_tune` are to run. -/
def usages : List Usage :=
  [⟨["ethtool", "-K"], ["rx", "on", "tx", "on", "tso", "on", "gso", "on", "gro", "on"]⟩,
    ⟨["ethtool", "-G"], ["rx", "4096", "tx", "4096"]⟩,
    ⟨["ethtool", "-C"], ["rx-usecs", "0", "tx-usecs", "0"]⟩,
    ⟨["ip", "link", "set"], ["txqueuelen", "10000"]⟩]

def Usage.texts (usage : Usage) : Chars × Chars :=
  (usage.before.flatMap fun word => ascii word ++ [32],
    usage.behind.flatMap fun word => 32 :: ascii word)

theorem join_behind (word : Chars) (words : List String) :
    join 32 (word :: words.map ascii) = word ++ words.flatMap fun word => 32 :: ascii word := by
  induction words generalizing word with
  | nil => simp [join]
  | cons next words ih => rw [List.map_cons, join, ih, List.flatMap_cons, List.cons_append]

theorem join_words (usage : Usage) (interfaceName : Chars) :
    join 32 (usage.words interfaceName) = usage.texts.1 ++ interfaceName ++ usage.texts.2 := by
  obtain ⟨before, behind⟩ := usage
  unfold Usage.words Usage.texts
  induction before with
  | nil => simpa using join_behind interfaceName behind
  | cons word before ih =>
    simp only [List.map_cons, List.cons_append, List.flatMap_cons, List.append_assoc] at ih ⊢
    have some_word : before.map ascii ++ interfaceName :: behind.map ascii ≠ [] := by simp
    obtain ⟨next, words, same⟩ := List.exists_cons_of_ne_nil some_word
    rw [same, join, ← same, ih]
    simp

theorem commands_eq (interfaceName : Chars) (status : Int) :
    (applyOffloads interfaceName status).1 ++ (autoTune interfaceName).1 =
      usages.map fun usage => join 32 (usage.words interfaceName) := by
  have texts : usages.map Usage.texts =
      [(ascii "ethtool -K ", ascii " rx on tx on tso on gso on gro on"),
        (ascii "ethtool -G ", ascii " rx 4096 tx 4096"),
        (ascii "ethtool -C ", ascii " rx-usecs 0 tx-usecs 0"),
        (ascii "ip link set ", ascii " txqueuelen 10000")] := by
    decide +kernel
  simp only [join_words]
  have pairs : (usages.map fun usage => usage.texts.1 ++ interfaceName ++ usage.texts.2) =
      (usages.map Usage.texts).map fun (before, behind) => before ++ interfaceName ++ behind := by
    rw [List.map_map]
    rfl
  rw [pairs, texts]
  rfl

theorem fixed_bare : ∀ usage ∈ usages,
    ∀ word ∈ usage.before.map ascii ++ usage.behind.map ascii, Bare kind word := by
  decide +kernel

/-- All the commands are read as meant, in the fragment, exactly when the name is a bare word. -/
theorem commands_bare_iff (interfaceName : Chars) (status : Int) :
    ((applyOffloads interfaceName status).1 ++ (autoTune interfaceName).1).map (parse kind) =
        usages.map (fun usage => some ⟨usage.words interfaceName, []⟩) ↔
      Bare kind interfaceName := by
  have each (usage : Usage) (member : usage ∈ usages) :
      parse kind (join 32 (usage.words interfaceName)) = some ⟨usage.words interfaceName, []⟩ ↔
        Bare kind interfaceName := by
    have fixed := fixed_bare usage member
    rw [parse_join_iff (by decide)]
    constructor
    · exact fun bare => bare interfaceName (by simp [Usage.words])
    · intro bare word mem
      simp only [Usage.words, List.mem_append, List.mem_cons] at mem
      rcases mem with before | rfl | behind
      · exact fixed word (List.mem_append_left _ before)
      · exact bare
      · exact fixed word (List.mem_append_right _ behind)
  rw [commands_eq, List.map_map]
  constructor
  · intro same
    have first := List.map_inj_left.mp same ⟨_, _⟩ List.mem_cons_self
    exact (each _ List.mem_cons_self).mp first
  · intro bare
    exact List.map_congr_left fun usage member => (each usage member).mpr bare

end UltraDisplay.NetOptimizer
