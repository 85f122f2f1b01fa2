/-! The audio format of shared/audio/audio_pipeline.hpp. -/
namespace UltraDisplay

structure AudioFormat where
  sampleRate : UInt32 := 0
  channels : UInt8 := 0
  bitDepth : UInt8 := 0
  deriving DecidableEq

end UltraDisplay
