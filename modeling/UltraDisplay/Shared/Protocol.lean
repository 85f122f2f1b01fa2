import Mathlib.Data.Rat.Defs
import UltraDisplay.Library.LittleEndian

/-! The records both sides exchange or negotiate over: shared/protocol and the
statistics of shared/transport/transport.hpp. -/
namespace UltraDisplay
open LittleEndian

inductive VideoCodec where
  | auto
  | h264
  | hevc
  | av1
  | rawRGB
  deriving DecidableEq

/-- The underlying value of the enumeration. -/
def VideoCodec.toUInt32 : VideoCodec → UInt32
  | .auto => 0
  | .h264 => 1
  | .hevc => 2
  | .av1 => 3
  | .rawRGB => 4

structure EncoderCapabilities where
  supportedCodecsMask : UInt32
  supportsLossless : Bool
  deriving DecidableEq

structure DecoderCapabilities where
  supportedCodecsMask : UInt32
  supportsLossless : Bool
  deriving DecidableEq

/-- The loss percentage is read as an exact rational. -/
structure TransportStats where
  bytesSent : UInt64 := 0
  bytesReceived : UInt64 := 0
  rttUs : UInt32 := 0
  packetLossPercent : ℚ := 0
  bandwidthEstBps : UInt64 := 0
  deriving DecidableEq

inductive PacketType where
  | video
  | audio
  | fec
  | control
  | ack
  | nack
  | cursor
  deriving DecidableEq

def PacketType.toUInt8 : PacketType → UInt8
  | .video => 0
  | .audio => 1
  | .fec => 2
  | .control => 3
  | .ack => 4
  | .nack => 5
  | .cursor => 6

/-- The type is kept as its byte, which need not be an enumerator's. -/
structure PacketHeader where
  magic : UInt16
  type : UInt8
  flags : UInt8
  sequenceNumber : UInt32
  timestampUs : UInt32
  frameNumber : UInt16
  sliceIndexAndTotal : UInt8
  fecGroupId : UInt8
  payloadLength : UInt16
  streamId : UInt8
  reservedEcn : UInt8
  deriving DecidableEq

namespace PacketHeader

def sizeof : Nat := 20
def offsetofType : Nat := 2
def offsetofFecGroupId : Nat := 15

/-- The header in memory: packed, and little-endian as both hosts are. -/
def toBytes (header : PacketHeader) : List UInt8 :=
  bytes 2 header.magic.toNat ++ [header.type, header.flags] ++
    bytes 4 header.sequenceNumber.toNat ++ bytes 4 header.timestampUs.toNat ++
    bytes 2 header.frameNumber.toNat ++ [header.sliceIndexAndTotal, header.fecGroupId] ++
    bytes 2 header.payloadLength.toNat ++ [header.streamId, header.reservedEcn]

@[simp] theorem toBytes_length (header : PacketHeader) : header.toBytes.length = sizeof := by
  simp [toBytes, sizeof]

end PacketHeader
end UltraDisplay
