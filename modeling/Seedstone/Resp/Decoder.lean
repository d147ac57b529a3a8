import Seedstone.Resp.Frame

/-!
# The resumable decoder

The state machine of `seedstone-resp`: `Decoding` reads one element at a time
from a buffer it does not own and places each in the innermost array still
being filled; `Decoder` adds the buffer, and `parse` runs the machine once over
a slice.  Offsets are those of the source.  The stack of pending arrays has its
innermost array first.
-/

namespace Seedstone

/-- Why bytes can never be a frame. -/
inductive ParseError where
  | emptyInteger
  | invalidInteger (field : Bytes)
  | integerOutOfRange (field : Bytes)
  | unknownType (byte : UInt8)
  | simpleNotUtf8
  | errorNotUtf8
  | negativeBulk (len : Int)
  | bulkTooLong (len : Int)
  | bulkUnterminated
  | negativeArray (count : Int)
  | tooDeep
  | arrayTooLong (count : Int)
  | arrayOverBudget (count limit : Nat)
  | overBudget (limit : Nat)
  | overLong (limit : Nat)
deriving DecidableEq, Repr

def maxArrayDepth : Nat := 64

def maxBulkLen : Nat := 16777216

def maxArrayLen : Nat := 1048576

/-- `size_of::<Frame>()`. -/
def frameSize : Nat := 40

/-- `parse_i64` of the codec: an optional `-`, then digits. -/
def parseInteger (field : Bytes) : Except ParseError Int :=
  if field.isEmpty then
    .error .emptyInteger
  else
    let (negative, digits) :=
      match field with
      | 45 :: rest => (true, rest)
      | _ => (false, field)
    if digits.isEmpty || !digits.all isAsciiDigit then
      .error (.invalidInteger field)
    else
      let value : Int := if negative then -digitsValue digits else digitsValue digits
      if inI64 value then .ok value else .error (.integerOutOfRange field)

structure DecoderLimits where
  maxFrameBytes : Nat
  maxInMemory : Nat
deriving DecidableEq, Repr

/-- `DecoderLimits::default`. -/
def DecoderLimits.standard : DecoderLimits :=
  ⟨67108864, 67108864⟩

structure PendingArray where
  remaining : Nat
  elements : List Frame

inductive Element where
  | value (frame : Frame)
  | arrayHeader (count : Nat)

inductive Kind where
  | simple
  | error
  | integer
  | bulk
  | array
deriving DecidableEq, Repr

def Kind.ofByte (byte : UInt8) : Option Kind :=
  if byte = 43 then some .simple
  else if byte = 45 then some .error
  else if byte = 58 then some .integer
  else if byte = 36 then some .bulk
  else if byte = 42 then some .array
  else none

/-- How far into the current element the reader has got. -/
inductive Partial where
  | start
  | line (scanned : Nat)
  | bulkBody (header len : Nat)
deriving DecidableEq, Repr

/-- Where the search for the end of a line goes on. -/
def Partial.resume (part : Partial) (start : Nat) : Nat :=
  match part with
  | .line scanned => if start < scanned then scanned else start
  | _ => start

structure Decoding where
  frameStart : Nat
  scan : Nat
  part : Partial
  stack : List PendingArray
  inMemory : Nat

/-- What a complete line says its element is. -/
inductive Line where
  | element (element : Element)
  | bulk (len : Nat)

def isUtf8 (field : Bytes) : Bool :=
  (ByteArray.mk field.toArray).validateUTF8

def Frame.payloadBytes : Frame → Nat
  | .simple text | .error text => text.length
  | .bulk payload => payload.length
  | .integer _ | .null | .array _ => 0

def checkFrameBytes (wireBytes : Nat) (limits : DecoderLimits) : Except ParseError Unit :=
  if limits.maxFrameBytes < wireBytes then .error (.overLong limits.maxFrameBytes) else .ok ()

/-- The empty lines at the front: how many bytes they are, and whether a lone
`\r` at the end of the input stands behind them. -/
def emptyLines : Bytes → Nat × Bool
  | first :: second :: rest =>
    if first = 13 ∧ second = 10 then
      let (skipped, lone) := emptyLines rest
      (skipped + 2, lone)
    else
      (0, false)
  | [last] => (0, last = 13)
  | [] => (0, false)

/-- The loop of `find_crlf`: the offset where it stopped, and whether a `\r\n`
stands there. -/
def crlfFrom : Bytes → Nat → Nat × Bool
  | first :: second :: rest, offset =>
    if first = 13 ∧ second = 10 then
      (offset, true)
    else
      crlfFrom (second :: rest) (offset + 1)
  | _, offset => (offset, false)

namespace Decoding

def new : Decoding :=
  ⟨0, 0, .start, [], 0⟩

def finishFrame (state : Decoding) : Decoding :=
  { state with frameStart := state.scan, part := .start, inMemory := 0 }

def shiftBack (state : Decoding) (cut : Nat) : Decoding :=
  { state with
    frameStart := state.frameStart - cut
    scan := state.scan - cut
    part :=
      match state.part with
      | .line scanned => .line (scanned - cut)
      | part => part }

def headroom (state : Decoding) (limits : DecoderLimits) : Nat :=
  limits.maxInMemory - state.inMemory

def afford (state : Decoding) (cost : Nat) (limits : DecoderLimits) :
    Except ParseError Unit :=
  if state.headroom limits < cost then .error (.overBudget limits.maxInMemory) else .ok ()

def arrayHeader (state : Decoding) (field : Bytes) (limits : DecoderLimits) :
    Except ParseError Nat := do
  let count ← parseInteger field
  if count < 0 then
    .error (.negativeArray count)
  else if maxArrayDepth < state.stack.length + 1 then
    .error .tooDeep
  else if maxArrayLen < count then
    .error (.arrayTooLong count)
  else if state.headroom limits < count.toNat * frameSize then
    .error (.arrayOverBudget count.toNat limits.maxInMemory)
  else
    .ok count.toNat

/-- The arms of `read_element` that read a complete line. -/
def readField (state : Decoding) (kind : Kind) (field : Bytes) (limits : DecoderLimits) :
    Except ParseError Line :=
  match kind with
  | .simple =>
    if isUtf8 field then .ok (.element (.value (.simple field))) else .error .simpleNotUtf8
  | .error =>
    if isUtf8 field then .ok (.element (.value (.error field))) else .error .errorNotUtf8
  | .integer => do
      let value ← parseInteger field
      .ok (.element (.value (.integer value)))
  | .bulk => do
      let len ← parseInteger field
      if len = -1 then
        .ok (.element (.value .null))
      else if len < -1 then
        .error (.negativeBulk len)
      else if maxBulkLen < len then
        .error (.bulkTooLong len)
      else
        -- Priced here, before a byte of the payload is waited for.
        state.afford (frameSize + len.toNat) limits
        .ok (.bulk len.toNat)
  | .array => do
      let count ← state.arrayHeader field limits
      .ok (.element (.arrayHeader count))

def finishBulk (state : Decoding) (buf : Bytes) (header len : Nat) :
    Except ParseError (Option Element × Decoding) :=
  let stop := state.scan + header + len + 2
  if buf.length < stop then
    .ok (none, state)
  else if (buf.drop (state.scan + header + len)).take 2 ≠ crlf then
    .error .bulkUnterminated
  else
    .ok (some (.value (.bulk ((buf.drop (state.scan + header)).take len))),
      { state with scan := stop, part := .start })

/-- `find_crlf`: the end of the line and the offset behind its `\r\n`. -/
def findCrlf (state : Decoding) (buf : Bytes) (start : Nat) :
    Option (Nat × Nat) × Decoding :=
  let resume := state.part.resume start
  let (offset, found) := crlfFrom (buf.drop resume) resume
  if found then
    (some (offset, offset + 2), { state with part := .start })
  else
    (none, { state with part := .line offset })

/-- Skip the empty lines between two frames; `true` if a lone `\r` is left to
wait on. -/
def skipEmptyLines (state : Decoding) (buf : Bytes) : Decoding × Bool :=
  if state.stack.isEmpty ∧ state.part = .start then
    let (skipped, lone) := emptyLines (buf.drop state.scan)
    if skipped = 0 then
      (state, lone)
    else
      ({ state with scan := state.scan + skipped, frameStart := state.scan + skipped }, lone)
  else
    (state, false)

/-- The rest of `read_element`, at a type byte. -/
def readLine (state : Decoding) (kind : Kind) (buf : Bytes) (limits : DecoderLimits) :
    Except ParseError (Option Element × Decoding) :=
  match state.findCrlf buf (state.scan + 1) with
  | (none, state) => .ok (none, state)
  | (some (lineEnd, next), state) => do
      match ← state.readField kind ((buf.take lineEnd).drop (state.scan + 1)) limits with
      | .element element => .ok (some element, { state with scan := next })
      | .bulk len =>
        let header := next - state.scan
        finishBulk { state with part := .bulkBody header len } buf header len

def readElement (state : Decoding) (buf : Bytes) (limits : DecoderLimits) :
    Except ParseError (Option Element × Decoding) :=
  match state.part with
  | .bulkBody header len => state.finishBulk buf header len
  | .start | .line _ =>
    match state.skipEmptyLines buf with
    | (state, true) => .ok (none, state)
    | (state, false) =>
      match buf[state.scan]? with
      | none => .ok (none, state)
      | some byte =>
        match Kind.ofByte byte with
        | none => .error (.unknownType byte)
        | some kind => state.readLine kind buf limits

def charge (state : Decoding) (frame : Frame) (limits : DecoderLimits) :
    Except ParseError Decoding := do
  state.afford (frameSize + frame.payloadBytes) limits
  .ok { state with inMemory := state.inMemory + (frameSize + frame.payloadBytes) }

/-- The loop of `place`, one turn for each array the value fills. -/
def placeValue (limits : DecoderLimits) :
    List PendingArray → Decoding → Frame → Except ParseError (Option Frame × Decoding)
  | [], state, value => do
      let state ← state.charge value limits
      .ok (some value, { state with stack := [], inMemory := 0 })
  | top :: rest, state, value => do
      let state ← state.charge value limits
      let top : PendingArray := ⟨top.remaining - 1, top.elements ++ [value]⟩
      if top.remaining = 0 then
        placeValue limits rest state (.array top.elements)
      else
        .ok (none, { state with stack := top :: rest })

def place (state : Decoding) (element : Element) (limits : DecoderLimits) :
    Except ParseError (Option Frame × Decoding) :=
  match element with
  | .arrayHeader count =>
    if count = 0 then
      placeValue limits state.stack state (.array [])
    else
      .ok (none, { state with stack := ⟨count, []⟩ :: state.stack })
  | .value frame => placeValue limits state.stack state frame

/-- What one turn of the loop of `step` comes to. -/
inductive Turn where
  | last (result : Except ParseError (Option Frame × Decoding))
  | again (state : Decoding)

def turn (limits : DecoderLimits) (buf : Bytes) (state : Decoding) : Turn :=
  match state.readElement buf limits with
  | .error error => .last (.error error)
  | .ok (none, state) =>
    .last do
      checkFrameBytes (buf.length - state.frameStart) limits
      .ok (none, state)
  | .ok (some element, state) =>
    match state.place element limits with
    | .error error => .last (.error error)
    | .ok (some frame, state) =>
      .last do
        checkFrameBytes (state.scan - state.frameStart) limits
        .ok (some frame, state)
    | .ok (none, state) => .again state

/-- The loop of `step`.  Every turn that goes on moves `scan`. -/
def stepLoop (limits : DecoderLimits) (buf : Bytes) :
    Nat → Decoding → Except ParseError (Option Frame × Decoding)
  | 0, state => .ok (none, state)
  | fuel + 1, state =>
    match turn limits buf state with
    | .last result => result
    | .again state => stepLoop limits buf fuel state

def step (state : Decoding) (buf : Bytes) (limits : DecoderLimits) :
    Except ParseError (Option Frame × Decoding) :=
  stepLoop limits buf (buf.length + 1) state

end Decoding

structure Decoder where
  buf : Bytes
  state : Decoding
  limits : DecoderLimits

namespace Decoder

def new (limits : DecoderLimits) : Decoder :=
  ⟨[], .new, limits⟩

def compact (decoder : Decoder) : Decoder :=
  let cut := decoder.state.frameStart
  if cut = 0 then
    decoder
  else
    { decoder with buf := decoder.buf.drop cut, state := decoder.state.shiftBack cut }

def feed (decoder : Decoder) (bytes : Bytes) : Decoder :=
  let decoder := decoder.compact
  { decoder with buf := decoder.buf ++ bytes }

def tryNext (decoder : Decoder) : Except ParseError (Option Frame × Decoder) :=
  match decoder.state.step decoder.buf decoder.limits with
  | .error error => .error error
  | .ok (none, state) => .ok (none, compact { decoder with state := state })
  | .ok (some frame, state) => .ok (some frame, { decoder with state := state.finishFrame })

def buffered (decoder : Decoder) : Nat :=
  decoder.buf.length - decoder.state.frameStart

/-- `try_next` again and again, until it asks for more or refuses. -/
def drainLoop : Nat → Decoder → List Frame × Except ParseError Decoder
  | 0, decoder => ([], .ok decoder)
  | fuel + 1, decoder =>
    match decoder.tryNext with
    | .error error => ([], .error error)
    | .ok (none, decoder) => ([], .ok decoder)
    | .ok (some frame, decoder) =>
      let (frames, last) := drainLoop fuel decoder
      (frame :: frames, last)

/-- Every frame takes a byte at least. -/
def drain (decoder : Decoder) : List Frame × Except ParseError Decoder :=
  drainLoop (decoder.buffered + 1) decoder

end Decoder

/-- How an input ends: at the end of a frame, within one, or refused. -/
inductive Verdict where
  | clean
  | waiting
  | refused
deriving DecidableEq, Repr

/-- The frames and the verdict of an input that comes in reads, each drained
before the next. -/
def Decoder.decode : List Bytes → Decoder → List Frame × Verdict
  | [], decoder => ([], if decoder.buffered = 0 then .clean else .waiting)
  | read :: reads, decoder =>
    match (decoder.feed read).drain with
    | (frames, .error _) => (frames, .refused)
    | (frames, .ok decoder) =>
      let (later, verdict) := Decoder.decode reads decoder
      (frames ++ later, verdict)

/-- `parse`, with its limits as a parameter: the first frame and how many bytes
it takes. -/
def parseWith (limits : DecoderLimits) (buf : Bytes) : Except ParseError (Option (Frame × Nat)) :=
  match Decoding.new.step buf limits with
  | .error error => .error error
  | .ok (none, _) => .ok none
  | .ok (some frame, state) => .ok (some (frame, state.scan))

def parse (buf : Bytes) : Except ParseError (Option (Frame × Nat)) :=
  parseWith .standard buf

/-- The one-shot step again and again from the front of what is left. -/
def parseAllLoop (limits : DecoderLimits) : Nat → Bytes → List Frame × Verdict
  | 0, _ => ([], .waiting)
  | fuel + 1, buf =>
    match Decoding.new.step buf limits with
    | .error _ => ([], .refused)
    | .ok (none, state) => ([], if buf.length = state.frameStart then .clean else .waiting)
    | .ok (some frame, state) =>
      let (frames, verdict) := parseAllLoop limits fuel (buf.drop state.scan)
      (frame :: frames, verdict)

def parseAll (limits : DecoderLimits) (buf : Bytes) : List Frame × Verdict :=
  parseAllLoop limits (buf.length + 1) buf

end Seedstone
