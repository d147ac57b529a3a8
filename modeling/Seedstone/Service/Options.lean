import Seedstone.Service.NodeInfo
import Seedstone.Service.Walk

/-!
# Arguments

`options.rs` and `expiry.rs`: the options of `SET` and `SCAN`, and the spans
and deadlines of the expiry commands.  A handler is given the bytes of the bulk
strings behind the command's name, and refuses with the text of an error.
-/

namespace Seedstone.Service

/-- `u8::to_ascii_lowercase`. -/
def asciiLower (byte : UInt8) : UInt8 :=
  if 65 ≤ byte && byte ≤ 90 then byte + 32 else byte

def eqIgnoreAsciiCase (first second : Bytes) : Bool :=
  first.map asciiLower == second.map asciiLower

/-- The bytes of one argument; every argument a handler sees is a bulk string. -/
def bulk : Frame → Bytes
  | .bulk bytes => bytes
  | _ => []

def syntaxError : Bytes :=
  ascii "ERR syntax error"

def notAnInteger : Bytes :=
  ascii ReplyError.notAnInteger.wireText

def wrongArity (name : String) : Bytes :=
  ascii "ERR wrong number of arguments for '" ++ ascii name ++ ascii "' command"

def maxExpireSeconds : Int :=
  i64Max / 1000

def maxExpireMillis : Int :=
  maxExpireSeconds * 1000

def clockSafeSpanMillis : Nat :=
  i64Max.toNat - 32503680000000

def invalidExpire (name : String) : Bytes :=
  ascii "ERR invalid expire time in '" ++ ascii name ++ ascii "' command"

def refusePastTheClock (spanMillis : Nat) (name : String) (node : NodeInfo) :
    Except Bytes Unit :=
  if spanMillis ≤ clockSafeSpanMillis then
    .ok ()
  else if i64Max.toNat - node.nowUnixMillis < spanMillis then
    .error (invalidExpire name)
  else
    .ok ()

inductive ExpiryOption where
  | ex
  | px
  | exAt
  | pxAt
  | keepTtl
deriving DecidableEq, Repr

inductive ExpiryForm where
  | span (perUnitMillis : Nat) (build : Nat → Expiry)
  | deadline (unitMillis : Nat)

structure ExpiryUnit where
  option : ExpiryOption
  ceiling : Int
  form : ExpiryForm

def expiryUnit (option : Bytes) : Option ExpiryUnit :=
  if eqIgnoreAsciiCase option (ascii "EX") then
    some ⟨.ex, maxExpireSeconds, .span 1000 .ex⟩
  else if eqIgnoreAsciiCase option (ascii "PX") then
    some ⟨.px, i64Max, .span 1 .px⟩
  else if eqIgnoreAsciiCase option (ascii "EXAT") then
    some ⟨.exAt, maxExpireSeconds, .deadline 1000⟩
  else if eqIgnoreAsciiCase option (ascii "PXAT") then
    some ⟨.pxAt, i64Max, .deadline 1⟩
  else
    none

/-- The milliseconds of `remaining_from`, which answers `Expiry::Px`. -/
def remainingFrom (deadlineMillis : Nat) (node : NodeInfo) : Nat :=
  min (deadlineMillis - node.nowUnixMillis) u64Max

def parseArgument (value : Bytes) : Except Bytes Int :=
  match parseI64 value with
  | some n => .ok n
  | none => .error notAnInteger

def setExpireValue (value : Bytes) (ceiling : Int) (name : String) (node : NodeInfo)
    (perUnitMillis : Option Nat) : Except Bytes Nat := do
  let value ← parseArgument value
  if value ≤ 0 ∨ ceiling < value then
    throw (invalidExpire name)
  match perUnitMillis with
  | none => return value.toNat
  | some perUnitMillis =>
    refusePastTheClock (min (value.toNat * perUnitMillis) u64Max) name node
    return value.toNat

def expireSeconds (seconds : Bytes) (node : NodeInfo) : Except Bytes Int := do
  let seconds ← parseArgument seconds
  if seconds < -maxExpireSeconds ∨ maxExpireSeconds < seconds then
    throw (invalidExpire "expire")
  if 0 ≤ seconds then
    refusePastTheClock (seconds.toNat * 1000) "expire" node
  return seconds

def expireMillis (millis : Bytes) (node : NodeInfo) : Except Bytes Int := do
  let millis ← parseArgument millis
  if maxExpireMillis < millis then
    throw (invalidExpire "pexpire")
  if 0 ≤ millis then
    refusePastTheClock millis.toNat "pexpire" node
  return millis

def absoluteDeadlineSpan (value : Bytes) (perUnitMillis : Int) (name : String)
    (node : NodeInfo) : Except Bytes Int := do
  let moment ← parseArgument value
  let deadlineMillis := moment * perUnitMillis
  if !inI64 deadlineMillis then
    throw (invalidExpire name)
  if deadlineMillis ≤ 0 then
    return 0
  else
    return min (remainingFrom deadlineMillis.toNat node : Int) i64Max

structure SetOptions where
  expiry : Option Expiry
  cond : Option Cond
  keepTtl : Bool
  get : Bool
deriving DecidableEq, Repr

/-- What the walk over `SET`'s options has seen: the option that survives and
its argument, not yet read, and the rest. -/
structure SetWalk where
  expiryArg : Option (ExpiryUnit × Bytes)
  named : Option ExpiryOption
  cond : Option Cond
  keepTtl : Bool
  get : Bool

def claim (held : Option ExpiryOption) (option : ExpiryOption) :
    Except Bytes (Option ExpiryOption) :=
  if held.any (fun already => already ≠ option) then .error syntaxError else .ok (some option)

def condition (option : Bytes) : Option Cond :=
  if eqIgnoreAsciiCase option (ascii "NX") then some .nx
  else if eqIgnoreAsciiCase option (ascii "XX") then some .xx
  else none

def setOptionsLoop : List Bytes → SetWalk → Except Bytes SetWalk
  | [], walk => .ok walk
  | option :: tail, walk =>
    match expiryUnit option with
    | some unit => do
        let named ← claim walk.named unit.option
        match tail with
        | [] => throw syntaxError
        | value :: after =>
          setOptionsLoop after { walk with named := named, expiryArg := some (unit, value) }
    | none =>
      if eqIgnoreAsciiCase option (ascii "KEEPTTL") then do
        let named ← claim walk.named .keepTtl
        setOptionsLoop tail { walk with named := named, keepTtl := true }
      else
        match condition option with
        | some wanted =>
          if walk.cond.any (fun held => held ≠ wanted) then
            .error syntaxError
          else
            setOptionsLoop tail { walk with cond := some wanted }
        | none =>
          if eqIgnoreAsciiCase option (ascii "GET") then
            setOptionsLoop tail { walk with get := true }
          else
            .error syntaxError

/-- The one surviving argument, read. -/
def survivingExpiry (node : NodeInfo) :
    Option (ExpiryUnit × Bytes) → Except Bytes (Option Expiry)
  | none => .ok none
  | some (unit, value) =>
    match unit.form with
    | .span perUnitMillis build => do
        let value ← setExpireValue value unit.ceiling "set" node (some perUnitMillis)
        return some (build value)
    | .deadline unitMillis => do
        let value ← setExpireValue value unit.ceiling "set" node none
        return some (.px (remainingFrom (min (value * unitMillis) u64Max) node))

def setOptions (rest : List Bytes) (node : NodeInfo) : Except Bytes SetOptions := do
  let walk ← setOptionsLoop rest ⟨none, none, none, false, false⟩
  let expiry ← survivingExpiry node walk.expiryArg
  return ⟨expiry, walk.cond, walk.keepTtl, walk.get⟩

def scanOptionsLoop : List Bytes → Option Bytes → Nat → Except Bytes (Option Bytes × Nat)
  | [], pattern, count => .ok (pattern, count)
  | [_], _, _ => .error syntaxError
  | option :: value :: after, pattern, count =>
    if eqIgnoreAsciiCase option (ascii "MATCH") then
      scanOptionsLoop after (some value) count
    else if eqIgnoreAsciiCase option (ascii "COUNT") then
      match parseI64 value with
      | none => .error notAnInteger
      | some n =>
        if n ≤ 0 then .error syntaxError else scanOptionsLoop after pattern n.toNat
    else
      .error syntaxError

def parseU64 (bytes : Bytes) : Option Nat :=
  if bytes.isEmpty || !bytes.all isAsciiDigit then
    none
  else if bytes.head? = some 48 ∧ 1 < bytes.length then
    none
  else if digitsValue bytes ≤ u64Max then
    some (digitsValue bytes)
  else
    none

end Seedstone.Service
