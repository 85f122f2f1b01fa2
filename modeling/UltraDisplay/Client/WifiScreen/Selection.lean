import UltraDisplay.Client.WifiScreen
import UltraDisplay.Library.Transition

/-! The selection of the Wi-Fi screen stays inside of its list, so that the button
connects to a listed network or does nothing. -/
namespace UltraDisplay
namespace WifiScreen
open Transition

/-- An entry is selected; in particular there is one. -/
def Selected (screen : WifiScreen) : Prop := screen.selectedIndex < screen.networks.length

variable {screen next : WifiScreen}

theorem placeholder_pos (networks : List Chars) :
    0 < (if networks.isEmpty then networks ++ [noNetworks] else networks).length := by
  split
  case isTrue => simp
  case isFalse some_network =>
    rw [List.length_pos_iff]
    exact fun none => some_network (List.isEmpty_iff.mpr none)

/-- A scan lists something, and selects the first of it. -/
theorem scanNetworks_selected (screen : WifiScreen) (pipe : Option Chars) :
    Selected (screen.scanNetworks pipe) := placeholder_pos _

theorem connectToNetwork_selected (selected : Selected screen) (ssid password : Chars) :
    Selected (screen.connectToNetwork ssid password).1 := selected

theorem connectButton_listed (selected : Selected screen) :
    screen.connectButton = (screen, []) ∨
      ∃ ssid ∈ screen.networks,
        screen.connectButton = screen.connectToNetwork ssid screen.passwordInput := by
  unfold connectButton
  split
  · exact Or.inl rfl
  · split
    · exact Or.inl rfl
    · rw [List.getElem?_eq_getElem selected]
      exact Or.inr ⟨_, List.getElem_mem selected, rfl⟩

theorem handleArrow_selected (selected : Selected screen) (arrow : Arrow) :
    Selected (screen.handleArrow arrow) := by
  unfold Selected at selected ⊢
  cases arrow with
  | up =>
    simp only [handleArrow]
    split
    · exact Nat.lt_of_le_of_lt (Nat.sub_le _ _) selected
    · exact selected
  | down =>
    simp only [handleArrow]
    split
    case isTrue later => exact Nat.add_lt_of_lt_sub later
    case isFalse => exact selected

theorem step_selected {event : Event} (selected : Selected screen)
    (stepped : step screen event = some next) : Selected next := by
  cases event with
  | rescan pipe =>
    cases stepped
    exact scanNetworks_selected screen pipe
  | connect =>
    cases stepped
    rcases connectButton_listed selected with nothing | ⟨ssid, _, connects⟩
    · rw [nothing]
      exact selected
    · rw [connects]
      exact connectToNetwork_selected selected ssid _
  | type password =>
    cases stepped
    exact selected
  | arrow arrow =>
    cases stepped
    exact handleArrow_selected selected arrow

/-- Whatever has been done at the screen, the button connects to a listed network or does
nothing. -/
theorem connects_listed (pipe : Option Chars) (events : List Event)
    (reached : run step (create pipe) events = some screen) :
    screen.connectButton = (screen, []) ∨
      ∃ ssid ∈ screen.networks,
        screen.connectButton = screen.connectToNetwork ssid screen.passwordInput :=
  connectButton_listed <|
    run_invariant (fun _ _ _ => step_selected) (scanNetworks_selected {} pipe) reached

end WifiScreen
end UltraDisplay
