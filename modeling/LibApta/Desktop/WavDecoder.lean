import LibApta.Core.Types
import LibApta.Lib.Checked

/-!
# The WAV decoder

Opening walks along the chunks of a RIFF file and keeps the format and the place of the data; a read
delivers frames from there in a buffer that is lent until it is released. Sums, differences and reads
inside a buffer are checked: one that leaves its machine type or its buffer is a fault. A walk that
does not end in as many steps as the file has bytes is one too. The host is little-endian.
-/

namespace LibApta.Wav

open Check LittleEndian

/-! ## Reading the file -/

abbrev int64Max : ℕ := 9223372036854775807

/-- `apta_file_read_at`: up to `size` bytes at an offset. The stream may fail to seek or to read. -/
def fileReadAt (readFails : ℕ → Bool) (file : List UInt8) (offset size : ℕ) :
    Check ErrorCode (List UInt8) :=
  if file.length < offset ∨ int64Max < offset then reject .source
  else if size = 0 ∨ offset = file.length then .ok []
  else if readFails offset then reject .source
  else .ok (slice file offset size)

/-- All of `size` bytes at an offset. -/
def readExact (readFails : ℕ → Bool) (file : List UInt8) (offset size : ℕ) :
    Check ErrorCode (List UInt8) := do
  let bytes ← fileReadAt readFails file offset size
  rejectIf (bytes.length ≠ size) .corruptData
  .ok bytes

/-! ## The format -/

/-- Formats of interleaved samples. -/
inductive SampleFormat where
  | s16Native
  | s24Le
  | s32Native
  | f32Native
deriving DecidableEq

inductive ChannelLayout where
  | unspecified
  | mono
  | stereo
deriving DecidableEq

/-- What the format chunk says. -/
structure Fmt where
  waveFormat : ℕ
  channelCount : ℕ
  sampleRate : ℕ
  byteRate : ℕ
  blockAlign : ℕ
  bitsPerSample : ℕ
  isExtensible : Bool
  channelMask : ℕ
deriving DecidableEq

/-- The tail of the identifier of an extensible format. -/
def guidSuffix : List UInt8 :=
  [0x00, 0x00, 0x00, 0x00, 0x10, 0x00, 0x80, 0x00, 0x00, 0xAA, 0x00, 0x38, 0x9B, 0x71]

/-- The format of the first bytes of a chunk, which are filled up with zeros to 40. -/
def parseFmt (chunkSize : ℕ) (bytes : List UInt8) : Check ErrorCode Fmt := do
  let fmt := bytes ++ List.replicate (40 - bytes.length) 0
  let parsedFormat ← read 2 fmt 0
  let channelCount ← read 2 fmt 2
  let sampleRate ← read 4 fmt 4
  let byteRate ← read 4 fmt 8
  let blockAlign ← read 2 fmt 12
  let bitsPerSample ← read 2 fmt 14
  if parsedFormat ≠ 0xFFFE then
    .ok ⟨parsedFormat, channelCount, sampleRate, byteRate, blockAlign, bitsPerSample, false, 0⟩
  else do
    let extraSize ← read 2 fmt 16
    let suffix ← view fmt 26 14
    rejectIf (chunkSize < 40 ∨ extraSize < 22 ∨ suffix ≠ guidSuffix) .unsupported
    let subformat ← read 2 fmt 24
    let validBits ← read 2 fmt 18
    rejectIf (validBits = 0 ∨ bitsPerSample < validBits) .corruptData
    let channelMask ← read 4 fmt 20
    .ok ⟨subformat, channelCount, sampleRate, byteRate, blockAlign, bitsPerSample, true,
      channelMask⟩

/-- The sample format of a wave format. -/
def selectFormat (waveFormat bitsPerSample : ℕ) : Check ErrorCode SampleFormat :=
  if waveFormat = 0x0001 then
    if bitsPerSample = 16 then .ok .s16Native
    else if bitsPerSample = 24 then .ok .s24Le
    else if bitsPerSample = 32 then .ok .s32Native
    else reject .unsupported
  else if waveFormat = 0x0003 ∧ bitsPerSample = 32 then .ok .f32Native
  else reject .unsupported

/-- The layout of the channels. -/
def resolveChannelLayout (channelCount : ℕ) (isExtensible : Bool) (channelMask : ℕ) :
    ChannelLayout :=
  if !isExtensible then if channelCount = 1 then .mono else .stereo
  else if channelCount = 1 ∧ channelMask = 0x4 then .mono
  else if channelCount = 2 ∧ channelMask = 0x1 + 0x2 then .stereo
  else .unspecified

/-! ## The chunks -/

def riffId : List UInt8 := [0x52, 0x49, 0x46, 0x46]
def waveId : List UInt8 := [0x57, 0x41, 0x56, 0x45]
def fmtId : List UInt8 := [0x66, 0x6D, 0x74, 0x20]
def dataId : List UInt8 := [0x64, 0x61, 0x74, 0x61]

/-- What the walk has found: the format, and the offset and the size of the data. -/
structure Found where
  fmt : Option Fmt
  data : Option (ℕ × ℕ)
deriving DecidableEq

/-- One chunk of the walk. -/
def visitChunk (readFails : ℕ → Bool) (file id : List UInt8) (payloadOffset chunkSize : ℕ)
    (found : Found) : Check ErrorCode Found :=
  if id = fmtId then do
    rejectIf (found.fmt.isSome ∨ chunkSize < 16) .corruptData
    let bytes ← readExact readFails file payloadOffset (min chunkSize 40)
    let fmt ← parseFmt chunkSize bytes
    .ok { found with fmt := some fmt }
  else if id = dataId then do
    rejectIf (found.data.isSome = true) .corruptData
    .ok { found with data := some (payloadOffset, chunkSize) }
  else .ok found

/-- The walk from a cursor to the end of the RIFF chunk. -/
def walkChunks (readFails : ℕ → Bool) (file : List UInt8) (riffEnd : ℕ) :
    ℕ → ℕ → Found → Check ErrorCode Found
  | 0, _, _ => fault
  | fuel + 1, cursor, found => do
      let payloadOffset ← within uint64Max (cursor + 8)
      if riffEnd < payloadOffset then .ok found
      else do
        let header ← readExact readFails file cursor 8
        let id ← view header 0 4
        let chunkSize ← read 4 header 4
        let room ← minus riffEnd payloadOffset
        rejectIf (room < chunkSize) .corruptData
        let nextOffset ← within uint64Max (payloadOffset + chunkSize + chunkSize % 2)
        rejectIf (nextOffset < payloadOffset ∨ riffEnd < nextOffset) .corruptData
        let found ← visitChunk readFails file id payloadOffset chunkSize found
        walkChunks readFails file riffEnd fuel nextOffset found

/-! ## Opening -/

/-- The state of a decoder. The buffer is as long as its capacity. -/
structure Decoder where
  dataOffset : ℕ
  dataSize : ℕ
  totalFrames : ℕ
  sampleRate : ℕ
  channelCount : ℕ
  bitsPerSample : ℕ
  blockAlign : ℕ
  sampleFormat : SampleFormat
  channelLayout : ChannelLayout
  buffer : List UInt8
  borrowed : Bool
deriving DecidableEq

/-- What a call of `openPath` meets: valid arguments, a path that is not empty, the allocations, and
a stream that opens and tells its size, and fails to read at some offsets. -/
structure Opening where
  argumentsValid : Bool
  pathNamed : Bool
  fileGranted : Bool
  streamOpens : Bool
  readFails : ℕ → Bool
  decoderGranted : Bool

/-- Open a file. -/
def openPath (opening : Opening) (file : List UInt8) : Check ErrorCode Decoder := do
  rejectIf (!opening.argumentsValid || !opening.pathNamed) .invalidArgument
  rejectIf (!opening.fileGranted) .outOfMemory
  -- A file whose size does not fit an offset does not tell it.
  rejectIf (!opening.streamOpens ∨ int64Max < file.length) .source
  rejectIf (file.length < 12) .corruptData
  let riff ← readExact opening.readFails file 0 12
  let id ← view riff 0 4
  let form ← view riff 8 4
  rejectIf (id ≠ riffId ∨ form ≠ waveId) .unsupported
  let riffSize ← read 4 riff 4
  let riffEnd ← within uint64Max (riffSize + 8)
  rejectIf (riffEnd < 12 ∨ file.length < riffEnd) .corruptData
  let found ← walkChunks opening.readFails file riffEnd file.length 12 ⟨none, none⟩
  match found.fmt, found.data with
  | some fmt, some (dataOffset, dataSize) => do
      let byteRate ← within uint64Max (fmt.sampleRate * fmt.blockAlign)
      rejectIf (fmt.channelCount = 0 ∨ 2 < fmt.channelCount ∨ fmt.sampleRate = 0 ∨
        768000 < fmt.sampleRate ∨ fmt.bitsPerSample = 0 ∨ fmt.bitsPerSample % 8 ≠ 0 ∨
        fmt.blockAlign ≠ fmt.channelCount * (fmt.bitsPerSample / 8) ∨ fmt.blockAlign = 0 ∨
        dataSize % fmt.blockAlign ≠ 0 ∨ fmt.byteRate ≠ byteRate) .corruptData
      let sampleFormat ← selectFormat fmt.waveFormat fmt.bitsPerSample
      rejectIf (!opening.decoderGranted) .outOfMemory
      .ok {
        dataOffset := dataOffset
        dataSize := dataSize
        totalFrames := dataSize / fmt.blockAlign
        sampleRate := fmt.sampleRate
        channelCount := fmt.channelCount
        bitsPerSample := fmt.bitsPerSample
        blockAlign := fmt.blockAlign
        sampleFormat := sampleFormat
        channelLayout := resolveChannelLayout fmt.channelCount fmt.isExtensible fmt.channelMask
        buffer := []
        borrowed := false }
  | _, _ => reject .corruptData

/-! ## Reading frames -/

/-- A call of `readFrames` and what it meets: valid arguments, the allocation, the bytes of a new
buffer behind the old ones, and a stream that fails to read at some offsets. -/
structure ReadCall where
  argumentsValid : Bool
  firstFrame : UInt64
  requestedFrames : UInt32
  granted : Bool
  junk : UInt8
  readFails : ℕ → Bool

/-- What a read answers. -/
inductive Delivery where
  | block (firstFrame frameCount : ℕ) (data : List UInt8)
  | endOfInput
  | refused (code : ErrorCode)
deriving DecidableEq

/-- Write the numbers of `width` bytes in the buffer back in the order of the host. -/
def convertWidth (width count : ℕ) (buffer : List UInt8) : Check ErrorCode (List UInt8) :=
  loop (fun index buffer => do
    let value ← read width buffer (index * width)
    .ok (patch buffer (index * width) (encode width value))) 0 count buffer

/-- Convert the first bytes of the buffer to native samples. -/
def convertNative (decoder : Decoder) (byteCount : ℕ) (buffer : List UInt8) :
    Check ErrorCode (List UInt8) :=
  if decoder.sampleFormat = .s24Le then .ok buffer
  else if decoder.bitsPerSample = 16 then convertWidth 2 ((byteCount + 1) / 2) buffer
  else if decoder.bitsPerSample = 32 then convertWidth 4 ((byteCount + 3) / 4) buffer
  else reject .internal

/-- The buffer with room for a number of bytes; none when the allocator refuses it. -/
def Decoder.grow (decoder : Decoder) (call : ReadCall) (byteCount : ℕ) : Option (List UInt8) :=
  if byteCount ≤ decoder.buffer.length then some decoder.buffer
  else if !call.granted then none
  else some (decoder.buffer ++ List.replicate (byteCount - decoder.buffer.length) call.junk)

/-- Read the bytes of frames into the buffer and lend it. What a failed read leaves in the buffer is
not looked at. -/
def Decoder.fill (file : List UInt8) (call : ReadCall) (byteOffset byteCount frameCount : ℕ)
    (decoder : Decoder) : Check ErrorCode (Delivery × Decoder) := do
  match ← attempt (readExact call.readFails file byteOffset byteCount) with
  | .error .corruptData => .ok (.refused .source, decoder)
  | .error code => .ok (.refused code, decoder)
  | .ok bytes =>
      match ← attempt (convertNative decoder byteCount (patch decoder.buffer 0 bytes)) with
      | .error code => .ok (.refused code, decoder)
      | .ok buffer => do
          let data ← view buffer 0 byteCount
          .ok (.block call.firstFrame.toNat frameCount data,
            { decoder with buffer := buffer, borrowed := true })

/-- Read frames. -/
def readFrames (file : List UInt8) (call : ReadCall) (decoder : Decoder) :
    Check ErrorCode (Delivery × Decoder) :=
  let first := call.firstFrame.toNat
  let requested := call.requestedFrames.toNat
  if !call.argumentsValid ∨ requested = 0 then .ok (.refused .invalidArgument, decoder)
  else if decoder.borrowed then .ok (.refused .busy, decoder)
  else if decoder.totalFrames ≤ first then .ok (.endOfInput, decoder)
  else do
    let available ← minus decoder.totalFrames first
    let frameCount := if available < requested then available else requested
    if uint64Max / decoder.blockAlign < frameCount then .ok (.refused .limitExceeded, decoder)
    else do
      let byteCount ← within uint64Max (frameCount * decoder.blockAlign)
      let behind ← minus uint64Max decoder.dataOffset
      if behind / decoder.blockAlign < first then .ok (.refused .limitExceeded, decoder)
      else do
        let skipped ← within uint64Max (first * decoder.blockAlign)
        let byteOffset ← within uint64Max (decoder.dataOffset + skipped)
        match decoder.grow call byteCount with
        | none => .ok (.refused .outOfMemory, decoder)
        | some buffer =>
            let grown := { decoder with buffer := buffer }
            grown.fill file call byteOffset byteCount frameCount

/-- Take a lent block back. -/
def releaseFrames (decoder : Decoder) : Decoder := { decoder with borrowed := false }

end LibApta.Wav
