import UltraDisplay.Client.WifiScreen.Scan
import UltraDisplay.Library.ShellWords.Quoting

/-! What the shell makes of the command that the name of a network and a password are
written into. -/
namespace UltraDisplay
namespace WifiScreen
open ShellWords

def kind (byte : UInt8) : Kind := posix (Char.ofNat byte.toNat)

def passphraseTemplate : Template kind where
  name := ascii "wpa_passphrase"
  target := ascii "/tmp/wpa_supplicant.conf"
  blank := 32
  quote := 34
  great := 62
  name_plain := by decide +kernel
  name_some := by decide
  target_plain := by decide +kernel
  target_some := by decide
  blank_kind := by decide
  quote_kind := by decide
  great_kind := by decide

/-- `wpa_passphrase` with the name and the password, and its output in the configuration. -/
def intended (ssid password : Chars) : Command UInt8 :=
  ⟨[ascii "wpa_passphrase", ssid, password], [ascii "/tmp/wpa_supplicant.conf"]⟩

/-- Neither a double quote, a dollar or a backquote, nor a backslash before another one,
before the end of a line or at the end. -/
def Plain (text : Chars) : Prop := Literal kind false text

variable {ssid password : Chars}

theorem passphraseCommand_eq (ssid password : Chars) :
    passphraseCommand ssid password = passphraseTemplate.line [ssid, password] := by
  have first : ascii "wpa_passphrase \"" = ascii "wpa_passphrase" ++ [32, 34] := by decide
  have second : ascii "\" \"" = [34, 32, 34] := by decide
  have last : ascii "\" > /tmp/wpa_supplicant.conf" =
      34 :: 32 :: 62 :: 32 :: ascii "/tmp/wpa_supplicant.conf" := by decide
  simp [passphraseCommand, first, second, last, Template.line, Template.quoteAll,
    Template.redirect, passphraseTemplate]

theorem passphraseCommand_nul (ssid_nul : 0 ∉ ssid) (password_nul : 0 ∉ password) :
    0 ∉ passphraseCommand ssid password := by
  have first : 0 ∉ ascii "wpa_passphrase \"" := by decide
  have second : 0 ∉ ascii "\" \"" := by decide
  have last : 0 ∉ ascii "\" > /tmp/wpa_supplicant.conf" := by decide
  simp [passphraseCommand, ssid_nul, password_nul, first, second, last]

/-- The first command is the one intended precisely when both texts are plain. -/
theorem credentials_kept_iff (screen : WifiScreen) (ssid_nul : 0 ∉ ssid)
    (password_nul : 0 ∉ password) :
    ∃ first later, (screen.connectToNetwork ssid password).2 = first :: later ∧
      (parse kind first = some (intended ssid password) ↔ Plain ssid ∧ Plain password) := by
  refine ⟨_, _, rfl, ?_⟩
  rw [cString_id (passphraseCommand_nul ssid_nul password_nul), passphraseCommand_eq]
  have both : parse kind (passphraseTemplate.line [ssid, password]) =
      some (intended ssid password) ↔ ∀ text ∈ [ssid, password], Plain text :=
    passphraseTemplate.parse_line_iff [ssid, password]
  rw [both]
  simp

/-- An ordinary name and password. -/
theorem credentials_kept_iff_home :
    ∃ first later, (({} : WifiScreen).connectToNetwork (ascii "home") (ascii "it's 12#3")).2 =
        first :: later ∧
      (parse kind first = some (intended (ascii "home") (ascii "it's 12#3")) ↔
        Plain (ascii "home") ∧ Plain (ascii "it's 12#3")) :=
  credentials_kept_iff {} (by decide) (by decide)

/-- A name that runs another command. -/
theorem reboot_escapes : ¬ ∀ (screen : WifiScreen) (ssid password : Chars),
    0 ∉ ssid → 0 ∉ password →
    ∃ first later, (screen.connectToNetwork ssid password).2 = first :: later ∧
      parse kind first = some (intended ssid password) := by
  intro claim
  obtain ⟨first, later, same, parsed⟩ :=
    claim {} (ascii "$(reboot)") (ascii "password") (by decide) (by decide)
  cases same
  exact absurd parsed (by decide)

end WifiScreen
end UltraDisplay
