import Seedstone.Clock
import Seedstone.Dict.Basic

/-!
# Commands and replies

What a shard is asked to do (`command.rs`) and what it answers (`reply.rs`).
An `i64` is an integer that `inI64` admits, a `u64` and a `usize` a natural
number.
-/

namespace Seedstone

inductive Cond where
  | nx
  | xx
deriving DecidableEq, Repr

inductive Command where
  | get (key : Bytes)
  | set (key value : Bytes) (expiry : Option Expiry) (cond : Option Cond)
      (keepTtl get : Bool)
  | setEx (key : Bytes) (seconds : Nat) (value : Bytes)
  | setNx (key value : Bytes)
  | pSetEx (key : Bytes) (millis : Nat) (value : Bytes)
  | pTtl (key : Bytes)
  | expireAt (key : Bytes) (millis : Int)
  | pExpireAt (key : Bytes) (millis : Int)
  | del (key : Bytes)
  | incrBy (key : Bytes) (delta : Int)
  | expire (key : Bytes) (seconds : Int)
  | pExpire (key : Bytes) (millis : Int)
  | ttl (key : Bytes)
  | persist (key : Bytes)
  | «exists» (key : Bytes)
  | type (key : Bytes)
  | strLen (key : Bytes)
  | flushDb
  | dbSize
  | scanStep (cursor : Cursor) (count : Nat) (pattern : Option Bytes)
  | stats
  | snapshot (wait : Bool)
deriving DecidableEq, Repr

inductive Route where
  | key (key : Bytes)
  | every
  | unaddressed
deriving DecidableEq, Repr

namespace Command

def route : Command → Route
  | .get key | .set key .. | .setEx key .. | .setNx key .. | .pSetEx key ..
  | .del key | .incrBy key .. | .expire key .. | .pExpire key .. | .ttl key
  | .persist key | .exists key | .type key | .strLen key | .pTtl key
  | .expireAt key .. | .pExpireAt key .. => .key key
  | .flushDb | .dbSize | .stats | .snapshot _ => .every
  | .scanStep .. => .unaddressed

/-- The writes a node over its ceiling refuses. -/
def deniedWhenFull : Command → Bool
  | .set .. | .setEx .. | .setNx .. | .pSetEx .. | .incrBy .. => true
  | _ => false

/-- The commands that append to the log on their own account. -/
def writesTheLog : Command → Bool
  | .set .. | .setEx .. | .setNx .. | .pSetEx .. | .incrBy .. | .del ..
  | .expire .. | .pExpire .. | .expireAt .. | .pExpireAt .. | .persist ..
  | .flushDb => true
  | _ => false

end Command

inductive ReplyError where
  | notAnInteger
  | wouldOverflow
  | shardUnavailable
  | logWriteFailed
  | outOfMemory
  | saveInProgress
  | snapshotFailed
deriving DecidableEq, Repr

def ReplyError.wireText : ReplyError → String
  | .notAnInteger => "ERR value is not an integer or out of range"
  | .wouldOverflow => "ERR increment or decrement would overflow"
  | .shardUnavailable => "ERR shard is unavailable"
  | .logWriteFailed =>
    "MISCONF Errors writing to the log: writes are refused until a snapshot is durable"
  | .outOfMemory => "OOM command not allowed when used memory > 'maxmemory'."
  | .saveInProgress => "ERR Background save already in progress"
  | .snapshotFailed =>
    "ERR Snapshot failed: the log directory refused the image; see snapshot_fault"

inductive Reply where
  | bulk (value : Option Bytes)
  | ok
  | status (word : String)
  | removed (any : Bool)
  | integer (value : Int)
  | scan (cursor : Cursor) (keys : List Bytes) (visited : Nat)
  | stats (keys expires : Nat)
  | error (error : ReplyError)
deriving DecidableEq, Repr

def i64Min : Int :=
  -9223372036854775808

def i64Max : Int :=
  9223372036854775807

def inI64 (n : Int) : Bool :=
  i64Min ≤ n && n ≤ i64Max

/-- `i64::checked_add`. -/
def checkedAddI64 (first second : Int) : Option Int :=
  if inI64 (first + second) then some (first + second) else none

def decimal (n : Nat) : Bytes :=
  (Nat.toDigits 10 n).map (fun digit => UInt8.ofNat digit.toNat)

/-- `i64::to_string`, as bytes. -/
def i64Text (n : Int) : Bytes :=
  if n < 0 then 45 :: decimal n.natAbs else decimal n.natAbs

def isAsciiDigit (byte : UInt8) : Bool :=
  48 ≤ byte && byte ≤ 57

def digitsValue (digits : Bytes) : Nat :=
  digits.foldl (fun value digit => value * 10 + (digit.toNat - 48)) 0

/-- `parse_i64`: the canonical decimal text of an `i64`, and nothing else. -/
def parseI64 (bytes : Bytes) : Option Int :=
  let (negative, digits) :=
    match bytes with
    | 45 :: rest => (true, rest)
    | _ => (false, bytes)
  if digits.isEmpty || !digits.all isAsciiDigit then
    none
  else if digits.head? = some 48 ∧ (1 < digits.length ∨ negative) then
    none
  else
    let value : Int := digitsValue digits
    let value := if negative then -value else value
    if inI64 value then some value else none

end Seedstone
