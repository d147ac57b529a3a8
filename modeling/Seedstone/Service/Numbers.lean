import Seedstone.Log.Names
import Seedstone.Resp.Decimal
import Seedstone.Service.Options
import Seedstone.Shard.Expiry

/-!
# Numbers as text

`parse_bytes` of `memory.rs`, which reads the byte sizes of a configuration:
digits, scaled by a suffix in either case.  Its digits go through the standard
library's reader of a `u64`, and that reader lets a plus sign stand in front.
-/

namespace Seedstone.Service

variable {text : Bytes} {n : Nat}

/-- `str::parse::<u64>`: digits, which a plus sign may lead. -/
def readU64 (text : Bytes) : Option Nat :=
  let digits :=
    match text with
    | 43 :: rest => rest
    | _ => text
  if digits.isEmpty || !digits.all isAsciiDigit then
    none
  else if digitsValue digits ≤ u64Max then
    some (digitsValue digits)
  else
    none

/-- `u64::checked_mul`. -/
def checkedMulU64 (first second : Nat) : Option Nat :=
  if first * second ≤ u64Max then some (first * second) else none

/-- Longest suffix first. -/
def suffixes : List (Bytes × Nat) :=
  [(ascii "gb", 1 <<< 30), (ascii "mb", 1 <<< 20), (ascii "kb", 1 <<< 10),
    (ascii "g", 1000000000), (ascii "m", 1000000), (ascii "k", 1000), (ascii "b", 1)]

/-- The digits of a lowered text, and the scale of its suffix. -/
def scaled (lowered : Bytes) : Bytes × Nat :=
  (suffixes.findSome? fun one =>
    (stripSuffix lowered one.1).map fun digits => (digits, one.2)).getD (lowered, 1)

def parseBytes (text : Bytes) : Option Nat := do
  let (digits, scale) := scaled (text.map asciiLower)
  let value ← readU64 digits
  checkedMulU64 value scale

/-- What may stand behind the digits, and what it scales them by. -/
def units : List (Bytes × Nat) :=
  [([], 1), (ascii "b", 1), (ascii "k", 1000), (ascii "kb", 1024), (ascii "m", 1000000),
    (ascii "mb", 1048576), (ascii "g", 1000000000), (ascii "gb", 1073741824)]

/-- The documented grammar: digits, and at most one suffix in either case. -/
structure ByteSize (text : Bytes) (n : Nat) : Prop where
  spelled : ∃ digits suffix scale, text = digits ++ suffix ∧ Digits digits ∧
    (suffix.map asciiLower, scale) ∈ units ∧ n = digitsValue digits * scale
  fits : n ≤ u64Max

theorem readU64_eq_some :
    readU64 text = some n ↔ n ≤ u64Max ∧
      ∃ digits, (text = digits ∨ text = 43 :: digits) ∧ Digits digits ∧ n = digitsValue digits := by
  have unsigned (digits : Bytes) : (if digits.isEmpty || !digits.all isAsciiDigit then none
      else if digitsValue digits ≤ u64Max then some (digitsValue digits) else none) = some n ↔
        n ≤ u64Max ∧ Digits digits ∧ n = digitsValue digits := by
    by_cases shaped : Digits digits
    · rw [if_neg (not_not.mpr shaped ∘ isEmpty_or_not_all.mp), Option.ite_none_right_eq_some,
        Option.some.injEq]
      constructor
      · rintro ⟨fits, rfl⟩
        exact ⟨fits, shaped, rfl⟩
      · rintro ⟨fits, _, rfl⟩
        exact ⟨fits, rfl⟩
    · rw [if_pos (isEmpty_or_not_all.mpr shaped)]
      simp [shaped]
  unfold readU64
  split
  · next rest =>
      rw [unsigned]
      constructor
      · rintro ⟨fits, shaped, value⟩
        exact ⟨fits, rest, .inr rfl, shaped, value⟩
      · rintro ⟨fits, digits, rfl | same, shaped, value⟩
        · exact absurd rfl (shaped.unsigned (by decide))
        · cases same
          exact ⟨fits, shaped, value⟩
  · next plain =>
      rw [unsigned]
      constructor
      · rintro ⟨fits, shaped, value⟩
        exact ⟨fits, text, .inl rfl, shaped, value⟩
      · rintro ⟨fits, digits, rfl | same, shaped, value⟩
        · exact ⟨fits, shaped, value⟩
        · exact absurd same (plain digits)

/-- Lower case is told from its source only where there are letters. -/
theorem map_asciiLower_eq {plain : Bytes} (below : ∀ byte ∈ plain, byte < 65) :
    text.map asciiLower = plain ↔ text = plain := by
  induction plain generalizing text with
  | nil => exact List.map_eq_nil_iff
  | cons first rest induction =>
    cases text with
    | nil => simp
    | cons byte tail =>
      obtain ⟨low, lower⟩ := List.forall_mem_cons.mp below
      have same : asciiLower byte = first ↔ byte = first := by
        unfold asciiLower
        grind
      rw [List.map_cons, List.cons.injEq, List.cons.injEq, same, induction lower]

/-- Digits have no letters, and neither has a sign in front of them. -/
theorem below_of_digits {digits : Bytes} (spelled : text = digits ∨ text = 43 :: digits)
    (shaped : Digits digits) : ∀ byte ∈ text, byte < 65 := by
  have below : ∀ byte ∈ digits, byte < 65 := by
    intro byte member
    have digit := List.all_eq_true.mp shaped.all byte member
    unfold isAsciiDigit at digit
    grind
  rcases spelled with rfl | rfl
  · exact below
  · exact List.forall_mem_cons.mpr ⟨by decide, below⟩

theorem scaled_append (lowered : Bytes) :
    ∃ suffix, lowered = (scaled lowered).1 ++ suffix ∧ (suffix, (scaled lowered).2) ∈ units := by
  have known : ∀ pair ∈ suffixes, pair ∈ units := by decide
  unfold scaled
  cases found : suffixes.findSome? fun one =>
      (stripSuffix lowered one.1).map fun digits => (digits, one.2) with
  | none => exact ⟨[], (List.append_nil _).symm, List.mem_cons_self⟩
  | some split =>
    obtain ⟨⟨suffix, scale⟩, member, stripped⟩ := List.exists_of_findSome?_eq_some found
    obtain ⟨digits, strips, rfl⟩ := Option.map_eq_some_iff.mp stripped
    exact ⟨suffix, stripSuffix_eq_some.mp strips, known _ member⟩

/-- A suffix without digits does not reach past a digit. -/
theorem stripSuffix_behind {front suffix : Bytes} {digit : UInt8} (letters : digit ∉ suffix) :
    stripSuffix (front ++ [digit] ++ text) suffix =
      (stripSuffix text suffix).map (front ++ [digit] ++ ·) := by
  apply Option.ext
  intro left
  rw [Option.map_eq_some_iff, stripSuffix_eq_some]
  simp only [stripSuffix_eq_some]
  constructor
  · intro same
    rcases List.append_eq_append_iff.mp same with ⟨more, rfl, rest⟩ | ⟨more, split, rest⟩
    · exact ⟨more, rest, rfl⟩
    · rcases List.eq_nil_or_concat more with rfl | ⟨more, last, rfl⟩
      · rw [List.append_nil] at split
        exact ⟨[], rest.symm, by rw [List.append_nil, split]⟩
      · rw [List.concat_eq_append, ← List.append_assoc] at split
        obtain ⟨_, same⟩ := List.append_inj' split rfl
        cases same
        exact absurd (by simp [rest]) letters
  · rintro ⟨more, rfl, rfl⟩
    exact (List.append_assoc _ _ _).symm

theorem scaled_behind (front text : Bytes) {digit : UInt8} (isDigit : isAsciiDigit digit = true) :
    scaled (front ++ [digit] ++ text) = (front ++ [digit] ++ (scaled text).1, (scaled text).2) := by
  have letters : ∀ pair ∈ suffixes, ∀ byte ∈ pair.1, isAsciiDigit byte = false := by decide +kernel
  have strips : ∀ pair ∈ suffixes, stripSuffix (front ++ [digit] ++ text) pair.1 =
      (stripSuffix text pair.1).map (front ++ [digit] ++ ·) := by
    intro pair member
    apply stripSuffix_behind
    intro inside
    rw [letters pair member digit inside] at isDigit
    cases isDigit
  unfold scaled
  generalize suffixes = pairs at strips
  induction pairs with
  | nil => rfl
  | cons pair pairs induction =>
    obtain ⟨first, rest⟩ := List.forall_mem_cons.mp strips
    rw [List.findSome?_cons, List.findSome?_cons, first]
    cases stripSuffix text pair.1 with
    | none => exact induction rest
    | some digits => rfl

theorem scaled_unit : ∀ unit ∈ units, scaled unit.1 = ([], unit.2) := by
  decide

theorem parseBytes_eq_some :
    parseBytes text = some n ↔ ∃ size, (text = size ∨ text = 43 :: size) ∧ ByteSize size n := by
  have unfolded : parseBytes text = (readU64 (scaled (text.map asciiLower)).1).bind fun value =>
      checkedMulU64 value (scaled (text.map asciiLower)).2 := rfl
  rw [unfolded, Option.bind_eq_some_iff]
  constructor
  · rintro ⟨value, read, product⟩
    obtain ⟨suffix, lowered, unit⟩ := scaled_append (text.map asciiLower)
    obtain ⟨_, digits, spelled, shaped, rfl⟩ := readU64_eq_some.mp read
    obtain ⟨fits, same⟩ := Option.ite_none_right_eq_some.mp product
    cases same
    generalize scaled (text.map asciiLower) = split at *
    obtain ⟨front, behind, rfl, before, after⟩ := List.map_eq_append_iff.mp lowered
    rw [← after] at unit
    rw [(map_asciiLower_eq (below_of_digits spelled shaped)).mp before]
    refine ⟨digits ++ behind, spelled.imp ?_ ?_, ⟨digits, behind, _, rfl, shaped, unit, rfl⟩, fits⟩
    · exact fun same => by rw [same]
    · exact fun same => by rw [same, List.cons_append]
  · rintro ⟨size, leads, ⟨digits, suffix, scale, rfl, shaped, unit, rfl⟩, fits⟩
    obtain ⟨signed, spelled, rfl⟩ : ∃ signed, (signed = digits ∨ signed = 43 :: digits) ∧
        text = signed ++ suffix := by
      rcases leads with rfl | rfl
      · exact ⟨digits, .inl rfl, rfl⟩
      · exact ⟨43 :: digits, .inr rfl, rfl⟩
    obtain ⟨front, digit, isDigit, ends⟩ : ∃ front digit, isAsciiDigit digit = true ∧
        signed = front ++ [digit] := by
      have last := List.all_eq_true.mp shaped.all _ (List.getLast_mem shaped.filled)
      have split := List.dropLast_append_getLast shaped.filled
      rcases spelled with same | same
      · exact ⟨_, _, last, same.trans split.symm⟩
      · exact ⟨43 :: digits.dropLast, _, last, by rw [same, List.cons_append, split]⟩
    have lowered : scaled ((signed ++ suffix).map asciiLower) = (signed, scale) := by
      rw [List.map_append, (map_asciiLower_eq (below_of_digits spelled shaped)).mpr rfl, ends,
        scaled_behind _ _ isDigit, scaled_unit _ unit, List.append_nil]
    have positive : ∀ unit ∈ units, 1 ≤ unit.2 := by decide
    have small : digitsValue digits ≤ u64Max :=
      Nat.le_trans (Nat.le_mul_of_pos_right _ (positive _ unit)) fits
    rw [lowered]
    exact ⟨_, readU64_eq_some.mpr ⟨small, digits, spelled, shaped, rfl⟩, if_pos fits⟩

theorem not_byteSize_plus : ¬ ByteSize (43 :: text) n := by
  rintro ⟨⟨digits, suffix, _, spelled, shaped, _⟩, _⟩
  obtain ⟨digit, more, rfl⟩ := List.exists_cons_of_ne_nil shaped.filled
  rw [List.cons_append, List.cons.injEq] at spelled
  obtain ⟨rfl, _⟩ := spelled
  exact shaped.unsigned (by decide) rfl

/-- A byte size is read as the grammar has it exactly where no plus sign leads one. -/
theorem parseBytes_follows_grammar_iff (text : Bytes) :
    (∀ n, parseBytes text = some n ↔ ByteSize text n) ↔
      ¬ ∃ size n, text = 43 :: size ∧ ByteSize size n := by
  constructor
  · rintro follows ⟨size, n, rfl, sized⟩
    exact not_byteSize_plus ((follows n).mp (parseBytes_eq_some.mpr ⟨size, .inr rfl, sized⟩))
  · intro unsigned n
    rw [parseBytes_eq_some]
    constructor
    · rintro ⟨size, rfl | rfl, sized⟩
      · exact sized
      · exact absurd ⟨size, n, rfl, sized⟩ unsigned
    · exact fun sized => ⟨text, .inl rfl, sized⟩

/-- A size with a sign in front, which is documented as none, is read. -/
theorem parseBytes_reads_plus :
    parseBytes (ascii "+1") = some 1 ∧ ¬ ByteSize (ascii "+1") 1 :=
  ⟨by decide, not_byteSize_plus⟩

example : parseBytes (ascii "64MB") = some (64 * 1024 * 1024) := by decide

end Seedstone.Service

namespace Seedstone

/-- The deltas `checked_add` takes, one after the other. -/
def acceptedDeltas : Int → List Int → List Int
  | _, [] => []
  | sum, delta :: rest =>
    if inI64 (sum + delta) then
      delta :: acceptedDeltas (sum + delta) rest
    else
      acceptedDeltas sum rest

/-- The entry of a counter: none yet, or the text of its sum. -/
inductive Counter : HeldEntry → Int → Option Nat → Prop where
  | missing : Counter none 0 none
  | counted {sum : Int} {deadline : Option Nat} (inside : inI64 sum = true) :
      Counter (some (i64Text sum, deadline)) sum deadline

namespace ShardState

variable {L : Type} [ReplicationLog L] [SipHasher] {state : ShardState L} {shard : Nat}
  {key : Bytes} {now : Now} {sum delta : Int} {deadline : Option Nat}

/-- `INCRBY` after `INCRBY` on one key. -/
def incrByAll (shard : Nat) (key : Bytes) (commands : List (Now × Int))
    (state : ShardState L) : ShardState L :=
  commands.foldl
    (fun state command => (state.apply shard (.incrBy key command.2) command.1).2) state

theorem incrBy_counter (counter : Counter (state.dict.contents key) sum deadline) :
    state.incrBy shard now key delta =
      if inI64 (sum + delta) then
        answer (state.put shard now key (i64Text (sum + delta)) deadline) (.integer (sum + delta))
      else
        (.error .wouldOverflow, state) := by
  generalize held : state.dict.contents key = entry at counter
  unfold incrBy
  cases counter with
  | missing =>
    simp only [Option.map_eq_none_iff.mp held, checkedAddI64]
    cases inI64 (0 + delta) <;> rfl
  | counted inside =>
    obtain ⟨entry, found, same⟩ := Option.map_eq_some_iff.mp held
    obtain ⟨value, expiresAt⟩ := Prod.mk.inj same
    simp only [found, value, parseI64_i64Text inside, expiresAt, Option.map_some, checkedAddI64]
    cases inI64 (sum + delta) <;> rfl

theorem apply_incrBy (counter : Counter (state.dict.contents key) sum deadline)
    (ahead : ∀ instant, deadline = some instant → now.instant < instant) :
    state.apply shard (.incrBy key delta) now = state.incrBy shard now key delta := by
  have fresh : isDue state.dict key now.instant = false := by
    rw [← Bool.not_eq_true]
    intro due
    obtain ⟨value, instant, held, reached⟩ := held_of_due due
    rw [held] at counter
    generalize entry : some (value, some instant) = counted at counter
    cases counter with
    | missing => cases entry
    | counted inside =>
      cases entry
      exact absurd (ahead instant rfl) (by omega)
  simp only [apply, Command.route, removeIfExpired, evictIfExpired, fresh, Bool.false_eq_true,
    if_false]
  split <;> rfl

/-- What one `INCRBY` makes of a counter. -/
structure Counted (deadline : Option Nat) (sum delta : Int) (key : Bytes)
    (before : ShardState L) (served : Reply × ShardState L) : Prop where
  accepted : inI64 (sum + delta) = true → served.1 = .integer (sum + delta) ∧
    served.2.dict.contents key = some (i64Text (sum + delta), deadline)
  refused : inI64 (sum + delta) = false → served = (.error .wouldOverflow, before)

theorem counted_apply (sound : state.dict.Sound) (accepts : ReplicationLog.Accepts state.log)
    (counter : Counter (state.dict.contents key) sum deadline)
    (ahead : ∀ instant, deadline = some instant → now.instant < instant) (shard : Nat)
    (delta : Int) :
    Counted deadline sum delta key state (state.apply shard (.incrBy key delta) now) ∧
      (state.apply shard (.incrBy key delta) now).2.dict.Sound ∧
      ReplicationLog.Accepts (state.apply shard (.incrBy key delta) now).2.log := by
  rw [apply_incrBy counter ahead, incrBy_counter counter]
  cases inside : inI64 (sum + delta) with
  | false => exact ⟨⟨fun taken => by simp [inside] at taken, fun _ => rfl⟩, sound, accepts⟩
  | true =>
    obtain ⟨after, taken, dict, later, _⟩ := mutate_accepts accepts shard
      (.put key (i64Text (sum + delta)) (now.deadlineMillis deadline))
      ((state.dict.insert key ⟨i64Text (sum + delta), deadline, 0⟩).touch key)
    rw [if_pos rfl, put, taken]
    refine ⟨⟨fun _ => ⟨rfl, ?_⟩, fun refused => by simp [inside] at refused⟩, ?_, later⟩
    · show after.dict.contents key = _
      rw [dict, Dict.contents_touch (sound.insert key _).toValid,
        Dict.contents_insert sound.toValid, Function.update_self]
    · show after.dict.Sound
      rw [dict]
      exact (sound.insert key _).touch key

theorem counter_incrByAll {commands : List (Now × Int)} (sound : state.dict.Sound)
    (accepts : ReplicationLog.Accepts state.log)
    (counter : Counter (state.dict.contents key) sum deadline)
    (ahead : ∀ command ∈ commands, ∀ instant, deadline = some instant →
      command.1.instant < instant) (shard : Nat) :
    (state.incrByAll shard key commands).dict.Sound ∧
      ReplicationLog.Accepts (state.incrByAll shard key commands).log ∧
      Counter ((state.incrByAll shard key commands).dict.contents key)
        ((acceptedDeltas sum (commands.map Prod.snd)).foldl (· + ·) sum) deadline := by
  induction commands generalizing state sum with
  | nil => exact ⟨sound, accepts, counter⟩
  | cons command rest induction =>
    obtain ⟨here, later⟩ := List.forall_mem_cons.mp ahead
    obtain ⟨counted, soundAfter, acceptsAfter⟩ :=
      counted_apply sound accepts counter here shard command.2
    cases inside : inI64 (sum + command.2) with
    | true =>
      rw [List.map_cons, acceptedDeltas, if_pos inside]
      apply induction soundAfter acceptsAfter _ later
      rw [(counted.accepted inside).2]
      exact .counted inside
    | false =>
      rw [List.map_cons, acceptedDeltas, if_neg (by simp [inside])]
      have unmoved : (state.apply shard (.incrBy key command.2) command.1).2 = state :=
        congrArg Prod.snd (counted.refused inside)
      apply induction soundAfter acceptsAfter _ later
      rw [unmoved]
      exact counter

/-- Counters stay canonical.  `parse_i64` reads exactly the texts `i64::to_string`
gives; and on a key that holds no entry or such a text and does not come due, every
`INCRBY` of every sequence answers and stores the text of the sum of the deltas taken
so far, under the deadline the key had, or finds the sum out of range and changes
nothing. -/
theorem counters_stay_canonical (shard : Nat) (key : Bytes) (state : ShardState L)
    (sound : state.dict.Sound) (accepts : ReplicationLog.Accepts state.log) (start : Int)
    (deadline : Option Nat) (counter : Counter (state.dict.contents key) start deadline)
    (commands : List (Now × Int)) (now : Now) (delta : Int)
    (ahead : ∀ command ∈ commands ++ [(now, delta)], ∀ instant, deadline = some instant →
      command.1.instant < instant) :
    (∀ bytes n, parseI64 bytes = some n ↔ inI64 n = true ∧ bytes = i64Text n) ∧
      let before := state.incrByAll shard key commands
      let sum := (acceptedDeltas start (commands.map Prod.snd)).foldl (· + ·) start
      let served := before.apply shard (.incrBy key delta) now
      Counter (before.dict.contents key) sum deadline ∧
        Counted deadline sum delta key before served ∧
        (inI64 (sum + delta) = true →
          (Service.replyToFrame served.1).wire = 58 :: i64Text (sum + delta) ++ crlf) := by
  refine ⟨fun bytes n => ⟨fun read => (i64Text_of_parseI64 read).imp id Eq.symm, ?_⟩, ?_⟩
  · rintro ⟨inside, rfl⟩
    exact parseI64_i64Text inside
  · obtain ⟨earlier, last⟩ := List.forall_mem_append.mp ahead
    obtain ⟨soundBefore, acceptsBefore, counts⟩ :=
      counter_incrByAll sound accepts counter earlier shard
    obtain ⟨counted, -⟩ := counted_apply soundBefore acceptsBefore counts
      (last _ List.mem_cons_self) shard delta
    refine ⟨counts, counted, fun inside => ?_⟩
    rw [(counted.accepted inside).1]
    rfl

omit [ReplicationLog L] [SipHasher] in
theorem counters_stay_canonical_overflow :
    let _ : SipHasher := ⟨fun _ _ _ => 3⟩
    let now : Now := ⟨5, 5, by decide⟩
    let state : ShardState RefusingLog :=
      .recovered (Dict.withSeed ⟨0, 0⟩) 0 ⟨fun _ => true, 0, []⟩
    let before := state.incrByAll 0 [107] [(now, i64Max), (now, 1)]
    before.apply 0 (.incrBy [107] (-7)) now =
      (.integer 9223372036854775800, (before.apply 0 (.incrBy [107] (-7)) now).2) := by
  intro hasher now state before
  have counter : Counter (state.dict.contents [107]) 0 none := by
    rw [show state.dict.contents [107] = none from congrFun (Dict.contents_withSeed _) _]
    exact .missing
  obtain ⟨-, -, counted, -⟩ := counters_stay_canonical 0 [107] state (Dict.sound_withSeed _)
    (accepts_of_answers fun _ => rfl) 0 none counter [(now, i64Max), (now, 1)] now (-7)
    nofun
  exact Prod.ext (counted.accepted (by decide)).1 rfl

end ShardState

end Seedstone
