import Seedstone.Shard.Memory

/-!
# Lazy expiry

What a keyed command is for: `Command.onEntry` says what it answers and leaves, as a
function of the one entry its key holds.  `apply` computes that function on the
entry if it is not due and on no entry if it is, whatever the layout of the
tables and the deadline flag, so a due key is as good as removed.  A scan step
passes over due keys as well.
-/

namespace Seedstone

/-- The entry of one key, if it holds one: its value and its deadline. -/
abbrev HeldEntry :=
  Option (Bytes × Option Nat)

def SetArgs.onEntry (args : SetArgs) (now : Now) (held : HeldEntry) : Reply × HeldEntry :=
  let old := if args.get then held.map Prod.fst else none
  if args.cond = some .nx ∧ held.isSome then
    (.bulk old, held)
  else if args.cond = some .xx ∧ held.isNone then
    (.bulk none, held)
  else
    (if args.get then .bulk old else .ok,
      some (args.value,
        if args.keepTtl then held.bind Prod.snd else deadline now.instant args.expiry))

def incrOnEntry (delta : Int) (held : HeldEntry) : Reply × HeldEntry :=
  let current :=
    match held with
    | none => some (0, none)
    | some entry => (parseI64 entry.1).map (fun n => (n, entry.2))
  match current with
  | none => (.error .notAnInteger, held)
  | some (current, expiresAt) =>
    match checkedAddI64 current delta with
    | none => (.error .wouldOverflow, held)
    | some next => (.integer next, some (i64Text next, expiresAt))

def SpanDeadline.onEntry (span : SpanDeadline) (held : HeldEntry) : Reply × HeldEntry :=
  match held with
  | none => (.integer 0, none)
  | some entry =>
    match span with
    | .passed => (.integer 1, none)
    | .upTo deadline => (.integer 1, some (entry.1, deadline))

def ttlOnEntry (now : Nat) (remaining : Nat → Nat → Int) (held : HeldEntry) : Reply :=
  match held.map Prod.snd with
  | none => .integer (-2)
  | some none => .integer (-1)
  | some (some deadline) => .integer (remaining deadline now)

/-- What a keyed command answers, and what it leaves under its key. -/
def Command.onEntry (now : Now) (held : HeldEntry) : Command → Reply × HeldEntry
  | .get _ => (.bulk (held.map Prod.fst), held)
  | .set key value expiry cond keepTtl old =>
    SetArgs.onEntry ⟨key, value, expiry, cond, keepTtl, old⟩ now held
  | .setEx key seconds value => (SetArgs.setEx key value seconds).onEntry now held
  | .setNx _ value =>
    if held.isSome then (.integer 0, held) else (.integer 1, some (value, none))
  | .pSetEx key millis value => (SetArgs.pSetEx key value millis).onEntry now held
  | .del _ => (.removed held.isSome, none)
  | .incrBy _ delta => incrOnEntry delta held
  | .expire _ seconds => (spanDeadline now.instant seconds .ex).onEntry held
  | .pExpire _ millis | .expireAt _ millis | .pExpireAt _ millis =>
    (spanDeadline now.instant millis .px).onEntry held
  | .ttl _ => (ttlOnEntry now.instant remainingSeconds held, held)
  | .pTtl _ => (ttlOnEntry now.instant remainingMillis held, held)
  | .persist _ =>
    match held with
    | some (value, some _) => (.integer 1, some (value, none))
    | _ => (.integer 0, held)
  | .exists _ => (.integer (if held.isSome then 1 else 0), held)
  | .type _ => (.status (if held.isSome then "string" else "none"), held)
  | .strLen _ => (.integer ((held.map fun entry => saturatingI64 entry.1.length).getD 0), held)
  | .flushDb | .dbSize | .scanStep .. | .stats | .snapshot _ => (.ok, held)

namespace Dict

variable [SipHasher] (dict : Dict) (key : Bytes)

theorem get_isSome : (dict.get key).isSome = (dict.contents key).isSome := by
  unfold contents
  rw [Option.isSome_map]

theorem get_isNone : (dict.get key).isNone = (dict.contents key).isNone := by
  unfold contents
  rw [Option.isNone_map]

theorem get_map_value : (dict.get key).map Entry.value = (dict.contents key).map Prod.fst := by
  unfold contents
  rw [Option.map_map]
  rfl

theorem get_map_expiresAt :
    (dict.get key).map Entry.expiresAt = (dict.contents key).map Prod.snd := by
  unfold contents
  rw [Option.map_map]
  rfl

theorem get_bind_expiresAt :
    (dict.get key).bind Entry.expiresAt = (dict.contents key).bind Prod.snd := by
  unfold contents
  rw [Option.bind_map]
  rfl

end Dict

/-- A log that takes every record from here on. -/
def ReplicationLog.Accepts {L : Type} [ReplicationLog L] (log : L) : Prop :=
  ∀ (records : List Record) record,
    (append (records.foldl (fun log record => (append log record).2) log) record).1 = true

namespace ReplicationLog.Accepts

variable {L : Type} [ReplicationLog L] {log : L}

theorem taken (accepts : Accepts log) (record : Record) : (append log record).1 = true :=
  accepts [] record

theorem next (accepts : Accepts log) (record : Record) : Accepts (append log record).2 :=
  fun records => accepts (record :: records)

end ReplicationLog.Accepts

namespace ShardState

variable {L : Type} [ReplicationLog L] {cmd : Command} {dict : Dict}

theorem mutate_accepts {state : ShardState L} (accepts : ReplicationLog.Accepts state.log)
    (shard : Nat) (effect : Effect) (next : Dict) :
    ∃ after, state.mutate shard effect next = (true, after) ∧ after.dict = next ∧
      ReplicationLog.Accepts after.log ∧ after.expired = state.expired := by
  have taken := accepts.taken ⟨shard, state.seq, effect⟩
  have later := accepts.next ⟨shard, state.seq, effect⟩
  unfold mutate append
  cases outcome : ReplicationLog.append state.log ⟨shard, state.seq, effect⟩ with
  | mk answer log =>
    rw [outcome] at taken later
    cases answer with
    | false => cases taken
    | true => exact ⟨_, rfl, rfl, later, rfl⟩

variable [SipHasher]

/-- An outcome that answers `spec.1` and leaves `spec.2` under the key, and every
other key as it was. -/
structure ServesAs (dict : Dict) (key : Bytes) (spec : Reply × HeldEntry)
    (outcome : Reply × ShardState L) : Prop where
  reply : outcome.1 = spec.1
  contents : outcome.2.dict.contents = Function.update dict.contents key spec.2

variable {state : ShardState L} {shard : Nat} {now : Now} {key : Bytes}

/-- A decision about one key's entry that comes to `spec`. -/
inductive ComesTo (key : Bytes) (held : HeldEntry) : Decision → Reply × HeldEntry → Prop where
  | answers (reply : Reply) : ComesTo key held (.answers reply) (reply, held)
  | touches (reply : Reply) : ComesTo key held (.touches key reply) (reply, held)
  | put (value : Bytes) (expiresAt : Option Nat) (reply : Reply) :
      ComesTo key held (.mutates (.put key value expiresAt) reply) (reply, some (value, expiresAt))
  | del (reply : Reply) : ComesTo key held (.mutates (.del key) reply) (reply, none)
  | deadline (expiresAt : Option Nat) (reply : Reply) :
      ComesTo key held (.mutates (.deadline key expiresAt) reply)
        (reply, held.map fun entry => (entry.1, expiresAt))

/-- An outcome as `spec` has it, unless the log refused a record. -/
def Serves (state : ShardState L) (key : Bytes) (spec : Reply × HeldEntry)
    (outcome : Reply × ShardState L) : Prop :=
  ServesAs state.dict key spec outcome ∨
    outcome.1 = .error .logWriteFailed ∧ ¬ ReplicationLog.Accepts state.log

theorem Serves.servesAs {spec : Reply × HeldEntry} {outcome : Reply × ShardState L}
    (serves : Serves state key spec outcome) (accepts : ReplicationLog.Accepts state.log) :
    ServesAs state.dict key spec outcome :=
  serves.resolve_right fun refused => refused.2 accepts

theorem serves_run (sound : state.dict.Sound) {decision : Decision} {spec : Reply × HeldEntry}
    (comes : ComesTo key (state.dict.contents key) decision spec) :
    Serves state key spec (decision.run shard now state) := by
  have mutated : ∀ (mutation : Mutation) (held : HeldEntry) (reply : Reply),
      (mutation.apply state.dict).contents = Function.update state.dict.contents key held →
      Serves state key (reply, held) ((Decision.mutates mutation reply).run shard now state) := by
    intro mutation held reply changed
    rw [Decision.run]
    cases outcome : state.mutate shard (mutation.effect now) (mutation.apply state.dict) with
    | mk taken after =>
      cases taken with
      | true => exact .inl ⟨rfl, (congrArg Dict.contents (mutate_true_dict outcome)).trans changed⟩
      | false =>
        refine .inr ⟨rfl, fun accepts => ?_⟩
        obtain ⟨other, taken, _⟩ := mutate_accepts accepts shard (mutation.effect now)
          (mutation.apply state.dict)
        cases outcome.symm.trans taken
  cases comes with
  | answers reply => exact .inl ⟨rfl, (Function.update_eq_self _ _).symm⟩
  | touches reply =>
    refine .inl ⟨rfl, ?_⟩
    rw [Function.update_eq_self]
    exact Dict.contents_touch sound.toValid key
  | put value expiresAt reply =>
    apply mutated
    show (((state.dict.insert key ⟨value, expiresAt, 0⟩).touch key).contents) = _
    rw [Dict.contents_touch (sound.insert key _).toValid, Dict.contents_insert sound.toValid]
  | del reply => exact mutated _ _ _ (Dict.contents_remove sound.toValid key)
  | deadline expiresAt reply =>
    exact mutated _ _ _ (Dict.contents_setDeadline sound.toValid key expiresAt)

section

variable {dict : Dict}

theorem comesTo_set (args : SetArgs) :
    ComesTo args.key (dict.contents args.key) (args.decide now dict)
      (args.onEntry now (dict.contents args.key)) := by
  unfold SetArgs.decide SetArgs.onEntry
  simp only [Dict.get_isSome, Dict.get_isNone, Dict.get_map_value, Dict.get_bind_expiresAt]
  split
  · exact .answers _
  · split
    · exact .answers _
    · exact .put ..

theorem comesTo_incrBy (delta : Int) :
    ComesTo key (dict.contents key) ((Command.incrBy key delta).decide now dict)
      (incrOnEntry delta (dict.contents key)) := by
  unfold Dict.contents
  dsimp only [Command.decide, incrOnEntry]
  cases dict.get key with
  | none =>
    simp only [Option.elim_none, Option.map_none, incrDecide]
    cases checkedAddI64 0 delta with
    | none => exact .answers _
    | some next => exact .put ..
  | some entry =>
    simp only [Option.elim_some, Option.map_some]
    cases parseI64 entry.value with
    | none => exact .answers _
    | some current =>
      dsimp only [Option.map_some, incrDecide]
      cases checkedAddI64 current delta with
      | none => exact .answers _
      | some next => exact .put ..

theorem comesTo_setExpiry (span : SpanDeadline) :
    ComesTo key (dict.contents key) (span.decide key dict) (span.onEntry (dict.contents key)) := by
  unfold SpanDeadline.decide SpanDeadline.onEntry
  rw [Dict.get_isNone]
  cases dict.contents key with
  | none => exact .answers _
  | some entry =>
    cases span with
    | passed => exact .del _
    | upTo deadline => exact .deadline deadline _

theorem ttlReply_eq (dict : Dict) (key : Bytes) (instant : Nat) (remaining : Nat → Nat → Int) :
    ttlReply dict key instant remaining = ttlOnEntry instant remaining (dict.contents key) := by
  unfold ttlReply ttlOnEntry
  rewrite [Dict.get_map_expiresAt]
  rfl

theorem comesTo_decide (valid : dict.Valid) (keyed : cmd.route = .key key) :
    ComesTo key (dict.contents key) (cmd.decide now dict)
      (cmd.onEntry now (dict.contents key)) := by
  have touched : (dict.touch key).contents = dict.contents := Dict.contents_touch valid key
  cases cmd with
  | get =>
    cases keyed
    dsimp only [Command.decide, Command.onEntry]
    rw [Dict.get_map_value, touched]
    exact .touches _
  | set key' value expiry cond keepTtl old =>
    cases keyed
    exact comesTo_set ⟨key, value, expiry, cond, keepTtl, old⟩
  | setEx key' seconds value =>
    cases keyed
    exact comesTo_set (SetArgs.setEx key value seconds)
  | pSetEx key' millis value =>
    cases keyed
    exact comesTo_set (SetArgs.pSetEx key value millis)
  | setNx =>
    cases keyed
    dsimp only [Command.decide, Command.onEntry]
    rw [Dict.get_isSome]
    split
    · exact .answers _
    · exact .put ..
  | del =>
    cases keyed
    dsimp only [Command.decide, Command.onEntry]
    rw [Dict.get_isNone]
    cases dict.contents key with
    | none => exact .answers _
    | some entry => exact .del _
  | incrBy key' delta =>
    cases keyed
    exact comesTo_incrBy delta
  | expire | pExpire | expireAt | pExpireAt =>
    cases keyed
    exact comesTo_setExpiry _
  | ttl | pTtl =>
    cases keyed
    dsimp only [Command.decide, Command.onEntry]
    rw [ttlReply_eq]
    exact .answers _
  | persist =>
    cases keyed
    unfold Dict.contents
    dsimp only [Command.decide, Command.onEntry]
    cases dict.get key with
    | none => exact .answers _
    | some entry =>
      obtain ⟨value, _ | expiresAt, stamp⟩ := entry
      · exact .answers _
      · exact .deadline none _
  | «exists» | type =>
    cases keyed
    dsimp only [Command.decide, Command.onEntry, typeName]
    rw [Dict.get_isSome]
    exact .answers _
  | strLen =>
    cases keyed
    have length : valueLen (dict.touch key) key = ((dict.contents key).map fun entry =>
        saturatingI64 entry.1.length).getD 0 := by
      rw [← touched]
      unfold valueLen Dict.contents
      cases (dict.touch key).get key <;> rfl
    dsimp only [Command.decide, Command.onEntry]
    rw [length]
    exact .touches _
  | flushDb | dbSize | scanStep | stats | snapshot => cases keyed

end

/-- A dict from which the entry of one key went if it was due. -/
def Expired (now : Now) (key : Bytes) (before after : Dict) : Prop :=
  after.Sound ∧
    after.contents = Function.update before.contents key (before.live now.instant key)

theorem expired_of_not_due (sound : dict.Sound)
    (ahead : isDue dict key now.instant = false) : Expired now key dict dict := by
  refine ⟨sound, ?_⟩
  have fresh := fresh_of_not_due sound ahead
  have kept : dict.live now.instant key = dict.contents key := by
    unfold Dict.live
    cases held : dict.contents key with
    | none => rfl
    | some entry =>
      obtain ⟨value, expiresAt⟩ := entry
      cases expiresAt with
      | none => rfl
      | some deadline =>
        have later := fresh value deadline held
        simp [Option.filter, Nat.not_le.mpr later]
  rw [kept, Function.update_eq_self]

theorem expired_of_due (sound : dict.Sound) (due : isDue dict key now.instant = true) :
    Expired now key dict (dict.remove key).2 := by
  refine ⟨sound.remove key, ?_⟩
  obtain ⟨value, deadline, held, reached⟩ := held_of_due due
  have gone : dict.live now.instant key = none := by
    simp [Dict.live, held, reached]
  rw [Dict.contents_remove sound.toValid, gone]

/-- A keyed command sees its key's entry if that is not due, and no entry if it
is. -/
theorem serves_apply (sound : state.dict.Sound) (keyed : cmd.route = .key key) :
    Serves state key (cmd.onEntry now (state.dict.live now.instant key))
      (state.apply shard cmd now) := by
  have served : ∀ middle : ShardState L, Expired now key state.dict middle.dict →
      (ReplicationLog.Accepts state.log → ReplicationLog.Accepts middle.log) →
      Serves state key (cmd.onEntry now (state.dict.live now.instant key))
        (middle.dispatch shard cmd now) := by
    rintro middle ⟨middleSound, contents⟩ accepts
    have dispatched : Serves middle key (cmd.onEntry now (middle.dict.contents key))
        (middle.dispatch shard cmd now) := by
      rw [dispatch_eq_run]
      exact serves_run middleSound (comesTo_decide middleSound.toValid keyed)
    rcases dispatched with ⟨reply, after⟩ | ⟨reply, refuses⟩
    · rw [contents, Function.update_self] at reply after
      rw [Function.update_idem] at after
      exact .inl ⟨reply, after⟩
    · exact .inr ⟨reply, fun accepted => refuses (accepts accepted)⟩
  have deleted : ∀ other, ReplicationLog.Accepts state.log → ∃ after,
      state.mutate shard (.del other) (state.dict.remove other).2 = (true, after) ∧ _ :=
    fun other accepts => mutate_accepts accepts shard (.del other) (state.dict.remove other).2
  have applied : Applied shard cmd now state _ := state.applied cmd
  generalize state.apply shard cmd now = outcome at applied
  cases applied with
  | fresh ahead => exact served state (expired_of_not_due sound (ahead key keyed)) id
  | forgot other named refusing due =>
    cases keyed.symm.trans named
    exact served { state with dict := _, expired := _ } (expired_of_due sound due) id
  | @evicted other after named due taken =>
    cases keyed.symm.trans named
    have removed := expired_of_due sound due
    rw [← mutate_true_dict taken] at removed
    refine served { after with expired := _ } removed fun accepts => ?_
    obtain ⟨same, found, _, later, _⟩ := deleted key accepts
    obtain rfl : after = same := congrArg Prod.snd (taken.symm.trans found)
    exact later
  | refused other lost =>
    refine .inr ⟨rfl, fun accepts => ?_⟩
    obtain ⟨after, taken, _⟩ := deleted other accepts
    cases lost.symm.trans taken

/-- The state with every due key removed first. -/
def purge (state : ShardState L) (now : Now) : ShardState L :=
  { state with
    dict := (state.dict.slots.map Slot.key).foldl (removeDue now) state.dict }

omit [ReplicationLog L] in
theorem purge_spec (sound : state.dict.Sound) (now : Now) :
    (state.purge now).dict.Sound ∧
      (state.purge now).dict.contents = state.dict.live now.instant := by
  obtain ⟨after, contents⟩ := contents_foldl_removeDue now sound (state.dict.slots.map Slot.key)
  refine ⟨after, funext fun key => (contents key).trans ?_⟩
  cases held : state.dict.contents key with
  | none => simp [Dict.live, held]
  | some entry =>
    have listed : key ∈ state.dict.slots.map Slot.key := by
      obtain ⟨found, getAt, _⟩ := Option.map_eq_some_iff.mp held
      obtain ⟨slot, member, same, _⟩ := sound.toValid.get_eq_some_iff.mp getAt
      exact List.mem_map.mpr ⟨slot, member, same⟩
    have live : state.dict.live now.instant key =
        if heldDue now entry then none else some entry := by
      rw [Dict.live, held, Option.filter_some]
      unfold heldDue
      cases entry.2.any (fun deadline => deadline ≤ now.instant) <;> rfl
    simp [live, listed]

/-- A scan step returns keys that are there and not due. -/
theorem live_of_mem_scanLoop (valid : dict.Valid) {pattern : Option Bytes} {instant : Nat}
    (count : Nat) (cursor : Cursor)
    (returned : key ∈ (scanLoop dict pattern instant count cursor).1) :
    dict.live instant key ≠ none := by
  induction count generalizing cursor with
  | zero => simp [scanLoop] at returned
  | succ count induction =>
    have here : key ∈ (((dict.scanInOrder cursor reverseBinary).1.filter
        (fun item => !Deadlines.dueOnRead item.2.expiresAt instant)).map
          Prod.fst).filter (fun key => pattern.all
            (fun pattern => Glob.isMatch pattern key)) → dict.live instant key ≠ none := by
      intro member
      obtain ⟨⟨other, entry⟩, kept, rfl⟩ := List.mem_map.mp (List.mem_of_mem_filter member)
      obtain ⟨visited, ahead⟩ := List.mem_filter.mp kept
      have found : dict.get other = some entry := Dict.get_of_mem_scan valid visited
      have undue : (entry.expiresAt.any fun deadline => deadline ≤ instant) = false := by
        simpa [Deadlines.dueOnRead] using ahead
      simp [Dict.live, Dict.contents, found, undue]
    unfold scanLoop at returned
    dsimp only at returned
    split at returned
    · exact here returned
    · rcases List.mem_append.mp returned with now | later
      · exact here now
      · exact induction _ later

theorem apply_congr {first second : ShardState L} (firstSound : first.dict.Sound)
    (secondSound : second.dict.Sound) (firstAccepts : ReplicationLog.Accepts first.log)
    (secondAccepts : ReplicationLog.Accepts second.log)
    (same : first.dict.live now.instant = second.dict.live now.instant)
    (keyed : cmd.route = .key key) :
    (first.apply shard cmd now).1 = (second.apply shard cmd now).1 ∧
      (first.apply shard cmd now).2.dict.live now.instant =
        (second.apply shard cmd now).2.dict.live now.instant := by
  have one : ServesAs first.dict key _ (first.apply shard cmd now) :=
    (serves_apply firstSound keyed).servesAs firstAccepts
  have two : ServesAs second.dict key _ (second.apply shard cmd now) :=
    (serves_apply secondSound keyed).servesAs secondAccepts
  rw [← same] at two
  refine ⟨one.reply.trans two.reply.symm, funext fun other => ?_⟩
  have before : first.dict.live now.instant other = second.dict.live now.instant other :=
    congrFun same other
  unfold Dict.live at before ⊢
  rw [one.contents, two.contents]
  by_cases mine : other = key
  · rw [mine, Function.update_self, Function.update_self]
  · rw [Function.update_of_ne mine, Function.update_of_ne mine]
    exact before

/-- A shard after any inputs, from an empty dict or a recovered one, whose log takes
what is appended.  A keyed command answers, and leaves to be seen, what it would
with every due key removed first; on a due key that is what it does on no entry
at all; and a scan step returns no due key. -/
theorem lazy_expiry_transparent {start : ShardState L} (sound : start.dict.Sound)
    (shard : Nat) (inputs : List (Now × ShardInput))
    (accepts : ReplicationLog.Accepts (start.takeAll shard inputs).log) (now : Now) :
    ((start.takeAll shard inputs).purge now).dict.contents =
        (start.takeAll shard inputs).dict.live now.instant ∧
      (∀ cmd key, cmd.route = .key key →
        ((start.takeAll shard inputs).apply shard cmd now).1 =
            (((start.takeAll shard inputs).purge now).apply shard cmd now).1 ∧
          ((start.takeAll shard inputs).apply shard cmd now).2.dict.live now.instant =
            (((start.takeAll shard inputs).purge now).apply shard cmd now).2.dict.live
              now.instant ∧
          (isDue (start.takeAll shard inputs).dict key now.instant = true →
            ((start.takeAll shard inputs).apply shard cmd now).1 =
                (cmd.onEntry now none).1 ∧
              ((start.takeAll shard inputs).apply shard cmd now).2.dict.contents key =
                (cmd.onEntry now none).2)) ∧
      ∀ cursor count pattern next keys visited,
        ((start.takeAll shard inputs).apply shard (.scanStep cursor count pattern) now).1 =
          .scan next keys visited →
        ∀ key ∈ keys, isDue (start.takeAll shard inputs).dict key now.instant = false := by
  have reached : (start.takeAll shard inputs).dict.Sound := sound_takeAll sound inputs
  generalize start.takeAll shard inputs = state at accepts reached
  obtain ⟨purged, contents⟩ := purge_spec reached now
  have same : state.dict.live now.instant = (state.purge now).dict.live now.instant := by
    funext key
    rw [Dict.live, Dict.live, contents, Dict.live, Option.filter_filter]
    congr 1
    funext entry
    rw [Bool.and_self]
  have gone : ∀ key, isDue state.dict key now.instant = true →
      state.dict.live now.instant key = none := by
    intro key due
    obtain ⟨value, deadline, held, reached⟩ := held_of_due due
    simp [Dict.live, held, reached]
  refine ⟨contents, ?_, ?_⟩
  · intro cmd key keyed
    have both : (state.apply shard cmd now).1 = ((state.purge now).apply shard cmd now).1 ∧ _ :=
      apply_congr reached purged accepts accepts same keyed
    obtain ⟨reply, live⟩ := both
    refine ⟨reply, live, fun due => ?_⟩
    have served : ServesAs state.dict key _ (state.apply shard cmd now) :=
      (serves_apply reached keyed).servesAs accepts
    rw [gone key due] at served
    exact ⟨served.reply, by rw [served.contents, Function.update_self]⟩
  · intro cursor count pattern next keys visited scanned key member
    cases due : isDue state.dict key now.instant with
    | false => rfl
    | true =>
      unfold apply dispatch Seedstone.scanStep at scanned
      dsimp only [Command.route] at scanned
      rw [Reply.scan.injEq] at scanned
      have returned : key ∈ (scanLoop state.dict pattern now.instant (max count 1)
          cursor).1 := scanned.2.1 ▸ member
      exact absurd (gone key due)
        (live_of_mem_scanLoop reached.toValid (max count 1) cursor returned)

omit [SipHasher] in
theorem accepts_of_answers {log : RefusingLog} (always : ∀ attempt, log.answers attempt = true) :
    ReplicationLog.Accepts log := by
  intro records
  induction records generalizing log with
  | nil =>
    intro record
    have taken : (log.append record).1 = true := by simp [RefusingLog.append, always]
    exact taken
  | cons record records induction =>
    have later : ∀ attempt, (log.append record).2.answers attempt = true := by
      simp [RefusingLog.append, always]
    exact induction later

omit [SipHasher] in
/-- A key set for five milliseconds and read, incremented and scanned for after
fifteen. -/
theorem lazy_expiry_transparent_one_key :
    let _ : SipHasher := ⟨fun _ _ _ => 3⟩
    let start : ShardState RefusingLog :=
      .recovered (Dict.withSeed ⟨0, 0⟩) 0 ⟨fun _ => true, 0, []⟩
    let early : Now := ⟨5, 5, by decide⟩
    let late : Now := ⟨20, 20, by decide⟩
    let inputs : List (Now × ShardInput) := [(early, .command (.pSetEx [107] 5 [55]))]
    let state := start.takeAll 0 inputs
    (state.apply 0 (.get [107]) early).1 = .bulk (some [55]) ∧
      (state.apply 0 (.get [107]) late).1 = .bulk none ∧
      (state.apply 0 (.incrBy [107] 1) late).1 = .integer 1 ∧
      (state.apply 0 (.scanStep 0 10 none) late).1 = .scan 0 [] 8 ∧
      (state.purge late).dict.contents = state.dict.live late.instant := by
  intro hasher start early late inputs state
  have sound : start.dict.Sound := Dict.sound_withSeed _
  have accepts : ReplicationLog.Accepts state.log := by
    have always : ∀ attempt, state.log.answers attempt = true := fun _ => rfl
    exact accepts_of_answers always
  have transparent := lazy_expiry_transparent sound 0 inputs accepts late
  have due : isDue state.dict [107] late.instant = true := by decide +kernel
  obtain ⟨_, _, read⟩ := transparent.2.1 (.get [107]) [107] rfl
  obtain ⟨_, _, counted⟩ := transparent.2.1 (.incrBy [107] 1) [107] rfl
  exact ⟨by decide +kernel, (read due).1, (counted due).1, by decide +kernel, transparent.1⟩

end ShardState

end Seedstone
