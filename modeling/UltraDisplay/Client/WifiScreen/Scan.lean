import UltraDisplay.Client.WifiScreen

/-! Which lines of a scan end up in the list. A line longer than a read is taken for
several networks. -/
namespace UltraDisplay
namespace WifiScreen
open Lines

/-- The lines that say something, each once, where it occurs first. -/
def listed (result : Chars) : List Chars :=
  let lines := (nonempty (result.splitOn newline)).eraseDups
  if lines.isEmpty then [noNetworks] else lines

variable {result chunk ssid : Chars}

theorem cString_id (nul : 0 ∉ chunk) : cString chunk = chunk := takeWhile_fresh nul

theorem foldl_addNetwork {chunks : List Chars} (nul : ∀ chunk ∈ chunks, 0 ∉ chunk)
    (networks : List Chars) :
    chunks.foldl addNetwork networks =
      (nonempty (chunks.map (body newline))).foldl insertNew networks := by
  induction chunks generalizing networks with
  | nil => rfl
  | cons chunk chunks ih =>
    obtain ⟨first, rest⟩ := List.forall_mem_cons.mp nul
    have step : addNetwork networks chunk =
        if body newline chunk ≠ [] ∧ body newline chunk ∉ networks then
          networks ++ [body newline chunk]
        else networks := by
      rw [addNetwork, cString_id first]
      rfl
    rw [List.foldl_cons, ih rest, step, List.map_cons]
    by_cases empty : body newline chunk = []
    · simp [empty, nonempty]
    · by_cases old : body newline chunk ∈ networks <;> simp [empty, old, nonempty, insertNew]

theorem reads_kept (nul : 0 ∉ result) :
    (reads result).foldl addNetwork [] =
      (nonempty ((reads result).map (body newline))).eraseDups := by
  have clean : ∀ chunk ∈ reads result, 0 ∉ chunk := fun chunk member inside =>
    nul (mem_text_of_mem_chunk member inside)
  rw [foldl_addNetwork clean, foldl_insertNew]
  simp

/-- No entry is longer than a read. -/
theorem network_short (screen : WifiScreen) (nul : 0 ∉ result)
    (member : ssid ∈ (screen.scanNetworks (some result)).networks) : ssid.length ≤ 127 := by
  have read : ∀ ssid ∈ (reads result).foldl addNetwork [], ssid.length ≤ 127 := by
    rw [reads_kept nul]
    intro ssid member
    have kept := List.mem_of_mem_filter (List.mem_eraseDups.mp member)
    obtain ⟨chunk, chunk_mem, rfl⟩ := List.mem_map.mp kept
    exact (body_length newline chunk).trans (chunk_length chunk_mem)
  simp only [scanNetworks] at member
  split at member
  case isTrue none =>
    rw [List.isEmpty_iff.mp none, List.nil_append, List.mem_singleton] at member
    rw [member]
    decide
  case isFalse => exact read ssid member

theorem mem_listed (line_mem : ssid ∈ result.splitOn newline) (some : ssid ≠ []) :
    ssid ∈ listed result := by
  have kept : ssid ∈ (nonempty (result.splitOn newline)).eraseDups :=
    List.mem_eraseDups.mpr (List.mem_filter.mpr ⟨line_mem, decide_eq_true some⟩)
  rw [listed, if_neg]
  · exact kept
  · rw [List.isEmpty_iff]
    exact List.ne_nil_of_mem kept

/-- After a scan whose output has no byte zero the list is faithful precisely when every
line fits a read. -/
theorem networks_listed_iff (screen : WifiScreen) (nul : 0 ∉ result) :
    (screen.scanNetworks (some result)).networks = listed result ↔
      ∀ line ∈ result.splitOn newline, line.length ≤ 127 := by
  constructor
  · intro faithful line line_mem
    by_cases empty : line = []
    · rw [empty]
      exact Nat.zero_le _
    · exact network_short screen nul (faithful ▸ mem_listed line_mem empty)
  · intro short
    have lines : nonempty ((reads result).map (body newline)) = nonempty (result.splitOn newline) :=
      bodies_eq_lines (by decide) short
    simp only [scanNetworks, listed, reads_kept nul, lines]
    split
    case isTrue none => rw [List.isEmpty_iff.mp none, List.nil_append]
    case isFalse => rfl

/-- Three lines, two of them the same. -/
theorem networks_listed_iff_home :
    (({} : WifiScreen).scanNetworks (some (ascii "home\ncafe\nhome\n"))).networks =
        listed (ascii "home\ncafe\nhome\n") ↔
      ∀ line ∈ (ascii "home\ncafe\nhome\n").splitOn newline, line.length ≤ 127 :=
  networks_listed_iff {} (by decide)

/-- A name of 32 bytes 0xE9 as `iw` prints it. -/
def escaped : Chars := (List.replicate 32 (ascii "\\xe9")).flatten

theorem escaped_line : newline ∉ escaped ∧ 0 ∉ escaped := by
  have clean : newline ∉ ascii "\\xe9" ∧ 0 ∉ ascii "\\xe9" := by decide
  simpa [escaped] using clean

theorem escaped_length : escaped.length = 128 := by
  have four : (ascii "\\xe9").length = 4 := by decide
  simp [escaped, four]

theorem escaped_split : ¬ ∀ (screen : WifiScreen) (result : Chars), 0 ∉ result →
    (screen.scanNetworks (some result)).networks = listed result := by
  intro claim
  obtain ⟨fresh, nul⟩ := escaped_line
  have line_mem : escaped ∈ escaped.splitOn newline := by
    rw [List.splitOn_eq_singleton fresh]
    exact List.mem_singleton_self escaped
  have some : escaped ≠ [] := List.ne_nil_of_length_pos (by rw [escaped_length]; decide)
  have entry := mem_listed line_mem some
  have short := network_short {} nul (claim {} escaped nul ▸ entry)
  rw [escaped_length] at short
  omega

end WifiScreen
end UltraDisplay
