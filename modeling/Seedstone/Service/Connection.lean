import Seedstone.Service.Dispatch

/-!
# A connection

`connection.rs`: requests are decoded as they arrive and take a slot each, keyed
commands wait in a batch, and closing a chunk dispatches the batch and appends
every slot's frame in request order.  What a read returns is an element of a
list; the list ends where the peer does.  The sizes of the buffers, the idle
timer and the counters of `INFO` are left out, as nothing a peer reads depends
on them.
-/

namespace Seedstone.Service

/-- `DecoderLimits::SHED`. -/
def replyHighWater : Nat := 262144

def maxRequestBytes : Nat := 67108864

inductive Slot where
  | ready (frame : Frame)
  | pending (index : Nat)
  | spanned (first len : Nat)

structure Chunk where
  slots : List Slot
  batch : List Command

/-- What a connection holds besides its decoder. -/
structure Connection where
  out : Bytes
  chunk : Chunk
  authenticated : Bool

/-- Why a connection reads no more: it is owed a last write, or nothing. -/
inductive Stop where
  | hangUp
  | finished
deriving DecidableEq, Repr

inductive Drained where
  | dry (decoder : Decoder)
  | stopped (stop : Stop)

/-- The frame a slot gets; each reply belongs to one slot. -/
def Slot.frame (replies : List Reply) : Slot → Frame
  | .ready frame => frame
  | .pending index => replyToFrame (replies[index]?.getD (.error .shardUnavailable))
  | .spanned first len =>
    if first + len ≤ replies.length then
      match foldArray ((replies.drop first).take len) len with
      | .ok entries => .array entries
      | .error frame => frame
    else
      .error unrenderableReply

/-- A multi-key read that joins the batch. -/
def Unbatched.span : Unbatched → Option (List Command)
  | .fanOut cmds .array => if cmds.length ≤ chunkCommands then some cmds else none
  | _ => none

namespace Connection

def start (authenticated : Bool) : Connection :=
  ⟨[], ⟨[], []⟩, authenticated⟩

/-- `append_frame`. -/
def append (conn : Connection) (frame : Frame) : Connection :=
  { conn with out := conn.out ++ frame.encode }

/-- One more slot, and the commands it waits for. -/
def push (conn : Connection) (slot : Slot) (cmds : List Command) : Connection :=
  { conn with chunk := ⟨conn.chunk.slots ++ [slot], conn.chunk.batch ++ cmds⟩ }

def flushReplies (conn : Connection) : Edge (Bool × Connection) :=
  if conn.out.isEmpty then
    pure (true, conn)
  else do
    let delivered ← ask (.write conn.out)
    return (delivered, { conn with out := [] })

/-- The loop of `emit_chunk`. -/
def emitSlots (replies : List Reply) : List Slot → Connection → Edge (Bool × Connection)
  | [], conn => pure (true, conn)
  | slot :: slots, conn =>
    let conn := conn.append (slot.frame replies)
    if replyHighWater ≤ conn.out.length then do
      match ← conn.flushReplies with
      | (true, conn) => emitSlots replies slots conn
      | (false, conn) => return (false, conn)
    else
      emitSlots replies slots conn

def emitChunk (conn : Connection) : Edge (Bool × Connection) :=
  if conn.chunk.slots.isEmpty then
    pure (true, conn)
  else do
    let replies ← if conn.chunk.batch.isEmpty then pure [] else ask (.dispatchMany conn.chunk.batch)
    emitSlots replies conn.chunk.slots { conn with chunk := ⟨[], []⟩ }

/-- Close the chunk if `due`; a peer that is gone is told nothing more. -/
def closeIf (due : Bool) (conn : Connection) : Edge (Option Stop × Connection) :=
  if due then do
    match ← conn.emitChunk with
    | (true, conn) => return (none, conn)
    | (false, conn) => return (some .finished, conn)
  else
    pure (none, conn)

/-- The arms of `drain_decoder`. -/
def obey (conn : Connection) : Action → Edge (Option Stop × Connection)
  | .dispatch cmd =>
    let conn := conn.push (.pending conn.chunk.batch.length) [cmd]
    conn.closeIf (chunkCommands ≤ conn.chunk.batch.length)
  | .unbatched unbatched =>
    match unbatched.span with
    | some cmds => do
        match ← conn.closeIf (chunkCommands < conn.chunk.batch.length + cmds.length) with
        | (some stop, conn) => return (some stop, conn)
        | (none, conn) =>
          let conn := conn.push (.spanned conn.chunk.batch.length cmds.length) cmds
          conn.closeIf (chunkCommands ≤ conn.chunk.batch.length)
    | none => do
        match ← conn.closeIf true with
        | (some stop, conn) => return (some stop, conn)
        | (none, conn) =>
          let frame ← unbatched.answer
          return (none, conn.push (.ready frame) [])
  | .reply frame | .hello frame | .refuse frame =>
    pure (none, conn.push (.ready frame) [])
  | .authenticate outcome =>
    let (frame, authenticated) := settleAuth outcome conn.authenticated
    pure (none, { conn.push (.ready frame) [] with authenticated })
  | .replyThenClose frame => pure (some .hangUp, conn.push (.ready frame) [])
  | .shutdown => do
      let (_, conn) ← conn.emitChunk
      ask .stop
      return (some .hangUp, conn)

section

variable [DebugText]

/-- What bytes that are no frame are answered with, behind what is owed. -/
def refuse (conn : Connection) (error : ParseError) : Edge Connection := do
  match ← conn.emitChunk with
  | (false, conn) => return conn
  | (true, conn) =>
    let (_, conn) ← (conn.append (safeError (protocolError error))).flushReplies
    return conn

/-- The loop of `drain_decoder`; a frame takes a byte of the buffer at least. -/
def drainLoop : Nat → Decoder → Connection → Edge (Drained × Connection)
  | 0, decoder, conn => pure (.dry decoder, conn)
  | fuel + 1, decoder, conn =>
    match decoder.tryNext with
    | .ok (some frame, decoder) => do
        let node ← ask .look
        match ← conn.obey (gated (frameToAction frame node) conn.authenticated) with
        | (some stop, conn) => return (.stopped stop, conn)
        | (none, conn) => drainLoop fuel decoder conn
    | .ok (none, decoder) => pure (.dry decoder, conn)
    | .error error => do
        let conn ← conn.refuse error
        return (.stopped .finished, conn)

def drainDecoder (decoder : Decoder) (conn : Connection) : Edge (Drained × Connection) :=
  drainLoop (decoder.buffered + 1) decoder conn

/-- The open chunk closes, and what it earned is written. -/
def settle (conn : Connection) : Edge (Bool × Connection) := do
  match ← conn.emitChunk with
  | (false, conn) => return (false, conn)
  | (true, conn) => conn.flushReplies

/-- The loop of `serve_connection_limited`, up to the read; no decoder is left at its
end. -/
def exchange (decoder : Decoder) (conn : Connection) :
    Edge (Option Decoder × Connection) := do
  match ← conn.drainDecoder decoder with
  | (.stopped .finished, conn) => return (none, conn)
  | (.stopped .hangUp, conn) => do
      let (_, conn) ← conn.settle
      return (none, conn)
  | (.dry decoder, conn) => do
      match ← conn.settle with
      | (true, conn) => return (some decoder, conn)
      | (false, conn) => return (none, conn)

def serveLoop : List Bytes → Decoder → Connection → Edge Connection
  | [], decoder, conn => do
      let (_, conn) ← conn.exchange decoder
      return conn
  | read :: reads, decoder, conn => do
      match ← conn.exchange decoder with
      | (none, conn) => return conn
      | (some decoder, conn) => serveLoop reads (decoder.feed read) conn

end

end Connection

variable [DebugText]

def serveConnectionLimited (reads : List Bytes) (maxRequestBytes : Nat) : Edge Connection := do
  let node ← ask .look
  Connection.serveLoop reads (.new ⟨maxRequestBytes, maxRequestBytes⟩)
    (.start (!node.requiresAuth))

def serveConnection (reads : List Bytes) : Edge Connection :=
  serveConnectionLimited reads maxRequestBytes

end Seedstone.Service
