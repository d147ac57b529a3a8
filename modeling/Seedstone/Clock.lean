import Seedstone.Dict.Table

/-!
# Clock readings

`Now` of `executor.rs`: the monotonic instant a batch is served at and the wall
clock beside it.  Instants are whole milliseconds; the runtime's `Instant`
holds its seconds in an `i64`, and an addition past that range has no result.
-/

namespace Seedstone

def u64Max : Nat :=
  18446744073709551615

/-- The last millisecond an `Instant` can represent. -/
def instantMax : Nat :=
  9223372036854775807999

/-- `Instant::checked_add`, over a span in milliseconds. -/
def checkedAdd (instant : Nat) (millis : Nat) : Option Nat :=
  if instant + millis ≤ instantMax then some (instant + millis) else none

/-- One reading of both clocks; the wall clock counts in a `u64`. -/
structure Now where
  instant : Nat
  unixMillis : Nat
  unixFits : unixMillis ≤ u64Max

/-- What a logged deadline turns out to mean when it is replayed. -/
inductive Replayed where
  | past
  | upTo (deadline : Option Nat)
deriving DecidableEq, Repr

namespace Now

/-- The Unix milliseconds a deadline corresponds to, saturating in both
steps. -/
def deadlineMillis (now : Now) (deadline : Option Nat) : Option Nat :=
  deadline.map fun instant =>
    min (now.unixMillis + min (instant - now.instant) u64Max) u64Max

def replayDeadline (now : Now) (millis : Nat) : Replayed :=
  if millis ≤ now.unixMillis then
    .past
  else
    .upTo (checkedAdd now.instant (millis - now.unixMillis))

end Now

/-- The span an expiry option names. -/
inductive Expiry where
  | ex (seconds : Nat)
  | px (millis : Nat)
deriving DecidableEq, Repr

def Expiry.span : Expiry → Nat
  | .ex seconds => seconds * 1000
  | .px millis => millis

/-- The instant an expiry option lands on; a span the clock cannot represent
is no deadline at all. -/
def deadline (now : Nat) (expiry : Option Expiry) : Option Nat :=
  match expiry with
  | none => none
  | some expiry => checkedAdd now expiry.span

end Seedstone
