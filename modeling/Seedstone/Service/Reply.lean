import Seedstone.Resp.Decoder

/-!
# Replies on the wire

`reply.rs`: how a shard's answer becomes a frame, and how a text that quotes
bytes of a peer becomes an error frame.  Texts are their UTF-8 bytes, so the
characters `\r` and `\n` are the bytes 13 and 10.
-/

namespace Seedstone

/-- The standard library's `{:?}` of `String::from_utf8_lossy`. -/
class DebugText where
  debugLossy : Bytes → Bytes

namespace Service

def quoteLimit : Nat := 32

def unrenderableReply : Bytes :=
  ascii "ERR internal reply could not be rendered"

def replyToFrame : Reply → Frame
  | .ok => .simple (ascii "OK")
  | .status word => .simple (ascii word)
  | .bulk none => .null
  | .bulk (some value) => .bulk value
  | .removed removed => .integer removed.toNat
  | .integer n => .integer n
  | .scan .. | .stats .. => .error unrenderableReply
  | .error error => .error (ascii error.wireText)

def isCharBoundary (text : Bytes) (index : Nat) : Bool :=
  if index = 0 then
    true
  else
    match text[index]? with
    | none => index = text.length
    | some byte => byte < 128 || 192 ≤ byte

/-- The longest stretch of at most 512 bytes that ends between characters. -/
def cutText (text : Bytes) : Bytes :=
  if 512 < text.length then
    text.take (((List.range 513).reverse.find? (isCharBoundary text)).getD 0)
  else
    text

def safeError (message : Bytes) : Frame :=
  .error (cutText (message.map fun byte => if byte = 13 ∨ byte = 10 then 32 else byte))

def hexDigit (digit : Nat) : UInt8 :=
  UInt8.ofNat (if digit < 10 then 48 + digit else 87 + digit)

/-- `{:02x}`. -/
def hexByte (byte : UInt8) : Bytes :=
  [hexDigit (byte.toNat / 16), hexDigit (byte.toNat % 16)]

def quoteByte (byte : UInt8) : Bytes :=
  if byte = 92 then [92, 92]
  else if byte = 39 then [92, 39]
  else if 32 ≤ byte && byte ≤ 126 then [byte]
  else 92 :: 120 :: hexByte byte

def quote (bytes : Bytes) : Bytes :=
  let rendered := (bytes.take quoteLimit).flatMap quoteByte
  if quoteLimit < bytes.length then rendered ++ ascii "..." else rendered

section

variable [DebugText]

/-- The text a `ParseError` carries. -/
def parseErrorText : ParseError → Bytes
  | .emptyInteger => ascii "empty integer field"
  | .invalidInteger field => ascii "invalid integer field: " ++ DebugText.debugLossy field
  | .integerOutOfRange field =>
    ascii "integer field out of range: " ++ DebugText.debugLossy field
  | .unknownType byte => ascii "unknown RESP2 type byte: 0x" ++ hexByte byte
  | .simpleNotUtf8 => ascii "simple string is not valid UTF-8"
  | .errorNotUtf8 => ascii "error string is not valid UTF-8"
  | .negativeBulk len => ascii "negative bulk length: " ++ i64Text len
  | .bulkTooLong len =>
    ascii "bulk length " ++ i64Text len ++ ascii " exceeds the " ++ decimal maxBulkLen ++
      ascii "-byte limit"
  | .bulkUnterminated => ascii "bulk payload missing CRLF terminator"
  | .negativeArray count => ascii "negative array length is not supported: " ++ i64Text count
  | .tooDeep => ascii "array nesting exceeds the depth limit of " ++ decimal maxArrayDepth
  | .arrayTooLong count =>
    ascii "array length " ++ i64Text count ++ ascii " exceeds the limit of " ++
      decimal maxArrayLen
  | .arrayOverBudget count limit =>
    ascii "array of " ++ decimal count ++ ascii " elements exceeds the " ++ decimal limit ++
      ascii "-byte in-memory limit"
  | .overBudget limit =>
    ascii "decoded frame exceeds the " ++ decimal limit ++ ascii "-byte in-memory limit"
  | .overLong limit =>
    ascii "frame exceeds the " ++ decimal limit ++ ascii "-byte buffering limit"

def protocolError (error : ParseError) : Bytes :=
  ascii "ERR Protocol error: " ++ parseErrorText error

end

end Service

end Seedstone
