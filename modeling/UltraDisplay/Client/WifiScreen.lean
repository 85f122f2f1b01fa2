import UltraDisplay.Library.Lines

/-! The Wi-Fi screen of client/tui/screens/wifi_screen.cpp: the list of the networks
that a scan prints, and the commands that connect to one. A string is the list of its
bytes. -/
namespace UltraDisplay

abbrev Chars := List UInt8

def ascii (text : String) : Chars := text.toList.map fun c => UInt8.ofNat c.toNat

structure WifiScreen where
  networks : List Chars := []
  selectedIndex : Nat := 0
  passwordInput : Chars := []
  isScanning : Bool := false
  statusMessage : Chars := ascii "Ready."
  deriving DecidableEq

namespace WifiScreen

def newline : UInt8 := 10

def bufferSize : Nat := 128

def noNetworks : Chars := ascii "No networks found. (Is Wi-Fi adapter present?)"

/-- What the calls of `fgets` leave in the buffer, one after another, each with room
for the byte that ends a string. -/
def reads (result : Chars) : List Chars := Lines.chunks newline (bufferSize - 1) result

/-- The bytes up to the one that ends a string. -/
def cString (bytes : Chars) : Chars := bytes.takeWhile fun byte => byte ≠ 0

def addNetwork (networks : List Chars) (chunk : Chars) : List Chars :=
  let ssid := cString chunk
  let ssid := if ssid.getLast? = some newline then ssid.dropLast else ssid
  if ssid ≠ [] ∧ ssid ∉ networks then networks ++ [ssid] else networks

/-- `pipe` is what `iw dev wlan0 scan | grep SSID | cut -d ' ' -f 2-` prints, unless it
cannot be run. -/
def scanNetworks (screen : WifiScreen) (pipe : Option Chars) : WifiScreen :=
  let networks :=
    match pipe with
    | some result => (reads result).foldl addNetwork []
    | none => []
  let networks := if networks.isEmpty then networks ++ [noNetworks] else networks
  { screen with
    networks
    selectedIndex := 0
    isScanning := false
    statusMessage := ascii "Scan complete." }

def create (pipe : Option Chars) : WifiScreen := ({} : WifiScreen).scanNetworks pipe

/-- The string that is passed to `system` first. -/
def passphraseCommand (ssid password : Chars) : Chars :=
  ascii "wpa_passphrase \"" ++ ssid ++ ascii "\" \"" ++ password ++
    ascii "\" > /tmp/wpa_supplicant.conf"

/-- The state after it, and the commands in order. Each is passed as a C string. -/
def connectToNetwork (screen : WifiScreen) (ssid password : Chars) : WifiScreen × List Chars :=
  ({ screen with
      statusMessage := ascii "Connection script executed. Wait for IP..."
      passwordInput := [] },
    [cString (passphraseCommand ssid password),
      ascii "killall wpa_supplicant 2>/dev/null",
      ascii "wpa_supplicant -B -i wlan0 -c /tmp/wpa_supplicant.conf",
      ascii "killall udhcpc 2>/dev/null",
      ascii "udhcpc -i wlan0 -b"])

/-- The button, unless the first entry says that there is nothing to connect to. A
selection outside of the list would be undefined. -/
def connectButton (screen : WifiScreen) : WifiScreen × List Chars :=
  match screen.networks with
  | [] => (screen, [])
  | first :: _ =>
    if ascii "No networks" <:+: first then (screen, [])
    else
      match screen.networks[screen.selectedIndex]? with
      | some ssid => screen.connectToNetwork ssid screen.passwordInput
      | none => (screen, [])

inductive Arrow where
  | up
  | down
  deriving DecidableEq

def handleArrow (screen : WifiScreen) : Arrow → WifiScreen
  | .up =>
    if 0 < screen.selectedIndex then { screen with selectedIndex := screen.selectedIndex - 1 }
    else screen
  | .down =>
    if screen.selectedIndex < screen.networks.length - 1 then
      { screen with selectedIndex := screen.selectedIndex + 1 }
    else screen

/-- What is done at the screen; a rescan comes with what the command prints. -/
inductive Event where
  | rescan (pipe : Option Chars)
  | connect
  | type (password : Chars)
  | arrow (arrow : Arrow)

def step (screen : WifiScreen) : Event → Option WifiScreen
  | .rescan pipe => some (screen.scanNetworks pipe)
  | .connect => some screen.connectButton.1
  | .type password => some { screen with passwordInput := password }
  | .arrow arrow => some (screen.handleArrow arrow)

end WifiScreen
end UltraDisplay
