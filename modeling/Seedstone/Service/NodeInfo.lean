import Seedstone.Node.Executor
import Seedstone.Service.Reply

/-!
# What a connection knows of its node

`auth.rs`, and the part of `node.rs` that the answers of a connection depend on
(`INFO`'s document apart).  A `NodeInfo` here is what its cells hold at one
moment: the passwords, the wall clock and the last save may differ at the next.
-/

namespace Seedstone.Service

def noauth : Bytes :=
  ascii "NOAUTH Authentication required."

def noauthHello : Bytes :=
  ascii <| "NOAUTH HELLO must be called with the client already authenticated, otherwise " ++
    "the HELLO AUTH <user> <pass> option can be used to authenticate the client and " ++
    "select the RESP protocol version at the same time"

def wrongpass : Bytes :=
  ascii "WRONGPASS invalid username-password pair or user is disabled."

def authNotConfigured : Bytes :=
  ascii <| "ERR AUTH <password> called without any password configured for the default " ++
    "user. Are you sure your configuration is correct?"

structure Secret where
  bytes : Bytes
deriving DecidableEq

/-- `Secret::matches`: the differences of all positions, and of the lengths. -/
def Secret.isMatch (secret : Secret) (candidate : Bytes) : Bool :=
  let len := max secret.bytes.length candidate.length
  let start : UInt8 := if secret.bytes.length ≠ candidate.length then 1 else 0
  let diff := (List.range len).foldl (fun diff index =>
    diff ||| (secret.bytes[index]?.getD 0 ^^^ candidate[index]?.getD 1)) start
  diff = 0

structure Passwords where
  current : Secret
  next : Option Secret
deriving DecidableEq

/-- `Passwords::matches`. -/
def Passwords.isMatch (passwords : Passwords) (candidate : Bytes) : Bool :=
  let first := passwords.current.isMatch candidate
  let second := passwords.next.any (·.isMatch candidate)
  first || second

theorem foldl_or_eq_zero {α : Type} (items : List α) (term : α → UInt8) (start : UInt8) :
    items.foldl (fun diff item => diff ||| term item) start = 0 ↔
      start = 0 ∧ ∀ item ∈ items, term item = 0 := by
  induction items generalizing start with
  | nil => simp
  | cons item items induction =>
    rw [List.foldl_cons, induction, UInt8.or_eq_zero_iff, List.forall_mem_cons, and_assoc]

/-- The comparison that takes its time is an equality. -/
theorem Secret.isMatch_iff (secret : Secret) (candidate : Bytes) :
    secret.isMatch candidate = true ↔ secret.bytes = candidate := by
  unfold isMatch
  simp only [decide_eq_true_eq]
  rw [foldl_or_eq_zero]
  constructor
  · rintro ⟨lengths, same⟩
    have length : secret.bytes.length = candidate.length := by
      by_contra differ
      rw [if_pos differ] at lengths
      exact absurd lengths (by decide)
    apply List.ext_getElem length
    intro index inside other
    have zero := same index (List.mem_range.mpr (by omega))
    rw [List.getElem?_eq_getElem inside, List.getElem?_eq_getElem other, Option.getD_some,
      Option.getD_some] at zero
    exact UInt8.xor_eq_zero_iff.mp zero
  · rintro rfl
    refine ⟨by simp, fun index inside => ?_⟩
    rw [List.mem_range, Nat.max_self] at inside
    rw [List.getElem?_eq_getElem inside, Option.getD_some, Option.getD_some, UInt8.xor_self]

theorem Passwords.accepts_exactly (passwords : Passwords) (candidate : Bytes) :
    passwords.isMatch candidate = true ↔ passwords.current.bytes = candidate ∨
        ∃ next, passwords.next = some next ∧ next.bytes = candidate := by
  unfold isMatch
  simp only [Bool.or_eq_true, Secret.isMatch_iff, Option.any_eq_true]

def serverName : Bytes :=
  ascii "seedstone"

def serverMode : Bytes :=
  ascii "standalone"

structure NodeInfo where
  version : Bytes
  tcpPort : Nat
  bind : Bytes
  maxClients : Nat
  nowUnixMillis : Nat
  limit : MemoryLimit
  passwords : Option Passwords
  /-- `last_save_unix`, on a node with a log. -/
  persistence : Option (Option Nat)

def NodeInfo.requiresAuth (node : NodeInfo) : Bool :=
  node.passwords.isSome

end Seedstone.Service
