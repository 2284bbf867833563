/-!
# Result metadata

The texts a host attaches to the results of a session. A field whose presence flag is clear is
`none`. Texts are UTF-8 byte strings of bounded length; the validator is a table over the first
byte of each sequence.
-/

namespace LibApta

/-- The kind of the source identifier and its bytes. -/
inductive SourceId where
  | text (content : List UInt8)
  | bytes (content : List UInt8)
deriving DecidableEq

/-- The bytes of a source identifier. -/
def SourceId.payload : SourceId → List UInt8
  | .text content => content
  | .bytes content => content

/-- Metadata as a host supplies it and as a result carries it. -/
structure Metadata where
  producerName : Option (List UInt8)
  producerVersionString : Option (List UInt8)
  backendName : Option (List UInt8)
  backendVersion : Option (List UInt8)
  creationUnixTime : Option Nat
  applicationSourceId : Option SourceId
  comments : Option (List UInt8)
deriving DecidableEq

/-- A byte lies in a closed range. -/
def byteIn (low high byte : UInt8) : Bool := decide (low ≤ byte) && decide (byte ≤ high)

/-- The range of the second byte and the number of continuation bytes after it, by first byte. -/
def utf8Sequence (first : UInt8) : Option ((UInt8 × UInt8) × Nat) :=
  if byteIn 0xC2 0xDF first then some ((0x80, 0xBF), 0)
  else if first = 0xE0 then some ((0xA0, 0xBF), 1)
  else if byteIn 0xE1 0xEC first || byteIn 0xEE 0xEF first then some ((0x80, 0xBF), 1)
  else if first = 0xED then some ((0x80, 0x9F), 1)
  else if first = 0xF0 then some ((0x90, 0xBF), 2)
  else if byteIn 0xF1 0xF3 first then some ((0x80, 0xBF), 2)
  else if first = 0xF4 then some ((0x80, 0x8F), 2)
  else none

/-- Validate a byte string as UTF-8. The fuel is the length of the string. -/
def utf8ValidFrom : Nat → List UInt8 → Bool
  | _, [] => true
  | 0, _ => false
  | fuel + 1, first :: rest =>
      if first ≤ 0x7F then utf8ValidFrom fuel rest
      else
        match utf8Sequence first with
        | none => false
        | some ((low, high), continuation) =>
            match rest with
            | [] => false
            | second :: rest =>
                byteIn low high second &&
                  decide (continuation ≤ rest.length) &&
                  (rest.take continuation).all (byteIn 0x80 0xBF) &&
                  utf8ValidFrom fuel (rest.drop continuation)

/-- The byte string is valid UTF-8. -/
def utf8Valid (bytes : List UInt8) : Bool := utf8ValidFrom bytes.length bytes

/-- A text field is absent, or short enough and valid UTF-8. -/
def textFieldValid (maximumSize : Nat) (field : Option (List UInt8)) : Bool :=
  match field with
  | none => true
  | some bytes => decide (bytes.length ≤ maximumSize) && utf8Valid bytes

namespace Metadata

/-- Bytes of storage the texts take. -/
def storageSize (metadata : Metadata) : Nat :=
  (metadata.producerName.getD []).length + (metadata.producerVersionString.getD []).length +
    (metadata.backendName.getD []).length + (metadata.backendVersion.getD []).length +
    ((metadata.applicationSourceId.map SourceId.payload).getD []).length +
    (metadata.comments.getD []).length

/-- The metadata obeys the length and encoding rules. -/
def isValid (metadata : Metadata) : Bool :=
  textFieldValid 255 metadata.producerName &&
    textFieldValid 127 metadata.producerVersionString &&
    textFieldValid 255 metadata.backendName &&
    textFieldValid 127 metadata.backendVersion &&
    textFieldValid 4096 metadata.comments &&
    (match metadata.applicationSourceId with
      | none => true
      | some (.text content) => decide (content.length ≤ 1024) && utf8Valid content
      | some (.bytes content) => decide (content.length ≤ 1024)) &&
    decide (metadata.storageSize ≤ 8192)

end Metadata

end LibApta
