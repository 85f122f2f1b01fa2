import UltraDisplay.Library.LittleEndian

/-! The input path, client/input/input_forwarder.cpp to
server/input/virtual_input.cpp. Each side copies a raw structure: the client the
24 bytes of its LP64 `input_event`, the server the 16 bytes of its own
declaration, whose `timeval` is two 32-bit longs. Signed fields are kept as the
bit patterns that the copies move. -/
namespace UltraDisplay
open LittleEndian

/-- `struct input_event` on the client. -/
structure Linux.InputEvent where
  tvSec : UInt64
  tvUsec : UInt64
  type : UInt16
  code : UInt16
  value : UInt32

/-- `struct linux_input_event` on the server. -/
structure Windows.LinuxInputEvent where
  tvSec : UInt32
  tvUsec : UInt32
  type : UInt16
  code : UInt16
  value : UInt32

inductive InputEvent.Kind where
  | keyboard
  | mouse
  | gamepad
  deriving DecidableEq

structure InputEvent where
  type : InputEvent.Kind
  payload : List UInt8

/-- The `INPUT` record passed to `SendInput`, with the fields left zero omitted. -/
inductive Input where
  | keyboard (wScan : UInt16) (dwFlags : UInt32)
  | mouse (dx dy : Int32) (mouseData dwFlags : UInt32)
  deriving DecidableEq

def evKey : UInt16 := 1
def evRel : UInt16 := 2
def evAbs : UInt16 := 3

namespace InputForwarder

def payload (ev : Linux.InputEvent) : List UInt8 :=
  bytes 8 ev.tvSec.toNat ++ bytes 8 ev.tvUsec.toNat ++ bytes 2 ev.type.toNat ++
    bytes 2 ev.code.toNat ++ bytes 4 ev.value.toNat

/-- What `poll_loop` hands to `send_callback` for one event read, if anything. -/
def pollLoop (ev : Linux.InputEvent) : Option InputEvent :=
  if ev.type = evKey then some ⟨.keyboard, payload ev⟩
  else if ev.type = evRel then some ⟨.mouse, payload ev⟩
  else if ev.type = evAbs then some ⟨.gamepad, payload ev⟩
  else none

end InputForwarder

namespace VirtualInput

def sizeofLinuxInputEvent : Nat := 16

/-- `reinterpret_cast<const linux_input_event*>(payload.data())`. -/
def cast (payload : List UInt8) : Windows.LinuxInputEvent where
  tvSec := UInt32.ofNat (value (payload.take 4))
  tvUsec := UInt32.ofNat (value ((payload.drop 4).take 4))
  type := UInt16.ofNat (value ((payload.drop 8).take 2))
  code := UInt16.ofNat (value ((payload.drop 10).take 2))
  value := UInt32.ofNat (value ((payload.drop 12).take 4))

def keyeventfKeyup : UInt32 := 0x0002
def keyeventfScancode : UInt32 := 0x0008
def mouseeventfMove : UInt32 := 0x0001
def mouseeventfWheel : UInt32 := 0x0800

def injectKeyboard (ev : Windows.LinuxInputEvent) : Option Input :=
  if ev.value = 0 then some (.keyboard ev.code (keyeventfScancode ||| keyeventfKeyup))
  else some (.keyboard ev.code keyeventfScancode)

def injectMouse (ev : Windows.LinuxInputEvent) : Option Input :=
  if ev.code = 0 then some (.mouse ev.value.toInt32 0 0 mouseeventfMove)
  else if ev.code = 1 then some (.mouse 0 ev.value.toInt32 0 mouseeventfMove)
  else if ev.code = 8 then some (.mouse 0 0 (ev.value * 120) mouseeventfWheel)
  else none

/-- The argument of `SendInput`, if the event gets that far. -/
def injectEvent (event : InputEvent) : Option Input :=
  if event.payload.length < sizeofLinuxInputEvent then none
  else match event.type with
    | .keyboard => injectKeyboard (cast event.payload)
    | .mouse => injectMouse (cast event.payload)
    | .gamepad => none

end VirtualInput

def relX : UInt16 := 0
def relY : UInt16 := 1
def relWheel : UInt16 := 8

def intended (ev : Linux.InputEvent) : Option Input :=
  if ev.type = evKey then
    some (.keyboard ev.code (if ev.value = 0 then 0x000A else 0x0008))
  else if ev.code = relX then some (.mouse ev.value.toInt32 0 0 0x0001)
  else if ev.code = relY then some (.mouse 0 ev.value.toInt32 0 0x0001)
  else if ev.code = relWheel then some (.mouse 0 0 (ev.value * 120) 0x0800)
  else none

/-- The server accepts the forwarded event, reads the client's code and value
from it, and injects what the user did. -/
def Arrives (ev : Linux.InputEvent) : Prop :=
  ∃ event, InputForwarder.pollLoop ev = some event ∧
    VirtualInput.sizeofLinuxInputEvent ≤ event.payload.length ∧
    (VirtualInput.cast event.payload).code = ev.code ∧
    (VirtualInput.cast event.payload).value = ev.value ∧
    VirtualInput.injectEvent event = intended ev

theorem payload_length (ev : Linux.InputEvent) : (InputForwarder.payload ev).length = 24 := by
  simp [InputForwarder.payload]

/-- The server's `code` lies in the upper half of the client's `tv_usec`. -/
theorem cast_code (ev : Linux.InputEvent) :
    (VirtualInput.cast (InputForwarder.payload ev)).code.toNat = ev.tvUsec.toNat / 2 ^ 16 % 2 ^ 16 := by
  have window : ((InputForwarder.payload ev).drop 10).take 2 = bytes 2 (ev.tvUsec.toNat / 256 ^ 2) := by
    simp only [InputForwarder.payload, List.append_assoc]
    rw [List.drop_append, List.drop_of_length_le (by simp), List.nil_append, bytes_length,
      List.drop_append, bytes_drop, List.take_append_of_le_length (by simp), bytes_take _ _ _ (by simp)]
  simp only [VirtualInput.cast, window, value_bytes, UInt16.toNat_ofNat']
  omega

theorem cast_value (ev : Linux.InputEvent) :
    (VirtualInput.cast (InputForwarder.payload ev)).value.toNat = ev.tvUsec.toNat / 2 ^ 32 := by
  have window : ((InputForwarder.payload ev).drop 12).take 4 = bytes 4 (ev.tvUsec.toNat / 256 ^ 4) := by
    simp only [InputForwarder.payload, List.append_assoc]
    rw [List.drop_append, List.drop_of_length_le (by simp), List.nil_append, bytes_length,
      List.drop_append, bytes_drop, List.take_append_of_le_length (by simp), bytes_take _ _ _ (by simp)]
  have small := ev.tvUsec.toNat_lt
  simp only [VirtualInput.cast, window, value_bytes, UInt32.toNat_ofNat']
  omega

theorem pollLoop_forwards (typed : ev.type = evKey ∨ ev.type = evRel) :
    InputForwarder.pollLoop ev =
      some ⟨if ev.type = evKey then .keyboard else .mouse, InputForwarder.payload ev⟩ := by
  rcases typed with key | rel
  · simp [InputForwarder.pollLoop, key]
  · have other : ev.type ≠ evKey := by rw [rel]; decide
    simp [InputForwarder.pollLoop, rel, evKey, evRel]

/-- Injection depends on the bytes only through the code and value read from them. -/
theorem inject_intended
    (code : (VirtualInput.cast (InputForwarder.payload ev)).code = ev.code)
    (same : (VirtualInput.cast (InputForwarder.payload ev)).value = ev.value) :
    VirtualInput.injectEvent
      ⟨if ev.type = evKey then .keyboard else .mouse, InputForwarder.payload ev⟩ = intended ev := by
  have long : ¬ (InputForwarder.payload ev).length < VirtualInput.sizeofLinuxInputEvent := by
    rw [payload_length]; decide
  simp only [VirtualInput.injectEvent, if_neg long, intended]
  by_cases key : ev.type = evKey
  · simp only [if_pos key, VirtualInput.injectKeyboard, code, same]
    split <;> rfl
  · simp only [if_neg key, VirtualInput.injectMouse, code, same]
    rfl

/-- The client's 16-byte `timeval` pushes its code and value past what the
server's 16-byte structure covers, so the server reads them from `tv_usec`. -/
theorem arrives_iff_usec (ev : Linux.InputEvent) (typed : ev.type = evKey ∨ ev.type = evRel) :
    Arrives ev ↔
      ev.tvUsec.toNat / 2 ^ 16 % 2 ^ 16 = ev.code.toNat ∧
      ev.tvUsec.toNat / 2 ^ 32 = ev.value.toNat := by
  constructor
  · rintro ⟨event, forwarded, _, code, same, _⟩
    rw [pollLoop_forwards typed] at forwarded
    cases Option.some.inj forwarded
    exact ⟨cast_code ev ▸ congrArg UInt16.toNat code, cast_value ev ▸ congrArg UInt32.toNat same⟩
  · rintro ⟨code, same⟩
    have code : (VirtualInput.cast (InputForwarder.payload ev)).code = ev.code :=
      UInt16.toNat_inj.mp ((cast_code ev).trans code)
    have same : (VirtualInput.cast (InputForwarder.payload ev)).value = ev.value :=
      UInt32.toNat_inj.mp ((cast_value ev).trans same)
    refine ⟨_, pollLoop_forwards typed, ?_, code, same, inject_intended code same⟩
    rw [payload_length]
    decide

/-- The release of key 2 arrives when it happens 131072 µs into a second. -/
theorem arrives_iff_usec_release :
    Arrives ⟨1700000000, 131072, evKey, 2, 0⟩ :=
  (arrives_iff_usec _ (Or.inl rfl)).mpr (by decide)

/-- Pressing key 30 on the second is injected as the release of key 0. -/
theorem press_injected_as_release :
    let press : Linux.InputEvent := ⟨1700000000, 0, evKey, 30, 1⟩
    (InputForwarder.pollLoop press).bind VirtualInput.injectEvent =
      some (.keyboard 0 (VirtualInput.keyeventfScancode ||| VirtualInput.keyeventfKeyup)) ∧
    ¬ Arrives press := by
  intro press
  constructor
  · decide
  · rintro ⟨event, forwarded, _, code, _⟩
    cases Option.some.inj forwarded
    revert code
    decide

end UltraDisplay
