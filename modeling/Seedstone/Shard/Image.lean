import Seedstone.Shard.Memory

/-!
# The image a snapshot takes

A snapshot cycle walks each dict with `Dict::scan`, a few steps a tick, while
the shard goes on serving.  What it writes is fuzzy: every entry is the one
held when the walk came by.  Loaded and followed by the records from the
cycle's base on, it is exact: an entry written early is caught up by the
records, a key the walk came too late for was removed by one, and a key it has
still to reach is the only kind that may be missing.
-/

namespace Seedstone

variable {dict : Dict} {items : List (Bytes × Entry)} {offset : Int} {now : Now}
  {shard base : Nat} {origin start : Keyspace} {entries : List Effect} {records : List Record}

section

variable [SipHasher]

/-- `take_entry` for a shard that wants the image: `none` for a payload that is
not a `Put`. -/
def takeEntry (now : Now) (state : Dict × List Bytes) (effect : Effect) :
    Option (Dict × List Bytes) :=
  let (dict, due) := state
  match effect with
  | .put key value millis =>
    let (expiresAt, passed) := resolveDeadline now millis
    let due := if passed then due ++ [key] else due
    some (dict.insert key ⟨value, expiresAt, 0⟩, due)
  | _ => none

/-- The entries of an image in file order, into an empty dict. -/
def loadImage (seed : DictSeed) (entries : List Effect) (now : Now) :
    Option (Dict × List Bytes) :=
  entries.foldlM (takeEntry now) (Dict.withSeed seed, [])

/-- An image with base `base`, and the records of the log from there on. -/
def loadAndReplay (seed : DictSeed) (entries : List Effect) (base : Nat)
    (records : List Record) (now : Now) : Option (Dict × Nat) := do
  let (dict, due) ← loadImage seed entries now
  return replayInto dict base
    (records.map fun record => (record.seq, record.effect)) now due

end

def Effect.IsPut : Effect → Prop
  | .put _ _ _ => True
  | _ => False

/-- The keyspace an image describes. -/
def pictured (entries : List Effect) : Keyspace :=
  Effect.actAll Keyspace.empty entries

/-- One shard's part of an open cycle: where its walk stands, if it has not
returned, and the entries written so far. -/
structure ImageScan where
  cursor : Option Cursor
  entries : List Effect

namespace ImageScan

variable {key : Bytes}

def fresh : ImageScan :=
  ⟨some 0, []⟩

/-- What `encode_entry` writes of one visited entry. -/
def entryOf (now : Now) (item : Bytes × Entry) : Effect :=
  .put item.1 item.2.value (now.deadlineMillis item.2.expiresAt)

/-- One `Dict::scan` call of the walk. -/
def step (scan : ImageScan) (dict : Dict) (now : Now) : ImageScan :=
  match scan.cursor with
  | none => scan
  | some cursor =>
    let (visited, next) := dict.scan cursor
    ⟨if next = 0 then none else some next, scan.entries ++ visited.map (entryOf now)⟩

variable [SipHasher]

/-- The keys the walk has still to come to, as long as its cursor lies within
the table. -/
def Pending (scan : ImageScan) (dict : Dict) (key : Bytes) : Prop :=
  ∃ cursor, scan.cursor = some cursor ∧ cursor.toNat < dict.old.length ∧
    ReverseBinary.rank cursor ≤ ReverseBinary.rank (hashKey dict.seed key)

theorem Pending.grows {scan : ImageScan} {before after : Dict}
    (pending : scan.Pending before key) (grows : Dict.Grows before after) :
    scan.Pending after key := by
  obtain ⟨cursor, standing, aligned, ranked⟩ := pending
  obtain ⟨aligned, ranked⟩ := Dict.Ahead.grows ⟨aligned, ranked⟩ grows
  exact ⟨cursor, standing, aligned, ranked⟩

theorem pending_fresh (valid : dict.Valid) (key : Bytes) : fresh.Pending dict key :=
  ⟨0, rfl, (Dict.ahead_zero valid key).aligned, (Dict.ahead_zero valid key).ranked⟩

theorem Pending.step {scan : ImageScan} (pending : scan.Pending dict key) (now : Now)
    (valid : dict.Valid) (present : (dict.get key).isSome) :
    (∃ cursor, scan.cursor = some cursor ∧ key ∈ (dict.scan cursor).1.map Prod.fst) ∨
      (scan.step dict now).Pending dict key := by
  obtain ⟨cursor, standing, aligned, ranked⟩ := pending
  rcases Dict.Ahead.scan ⟨aligned, ranked⟩ valid present with visited | ⟨more, aligned, ranked⟩
  · exact Or.inl ⟨cursor, standing, visited⟩
  · refine Or.inr ⟨(dict.scan cursor).2, ?_, aligned, ranked⟩
    simp only [ImageScan.step, standing, if_neg more]

omit [SipHasher] in
theorem actAll_entryOf_of_notMem (now : Now) (missed : key ∉ items.map Prod.fst)
    (keyspace : Keyspace) :
    Effect.actAll keyspace (items.map (entryOf now)) key = keyspace key := by
  induction items generalizing keyspace with
  | nil => rfl
  | cons item rest induction =>
    simp only [List.map_cons, List.mem_cons, not_or] at missed
    rw [List.map_cons, Effect.actAll_cons, induction missed.2, entryOf, Effect.act_put,
      if_neg missed.1]

omit [SipHasher] in
theorem actAll_entryOf_of_mem (now : Now) {entry : Entry}
    (same : ∀ item ∈ items, item.1 = key → item.2 = entry)
    (visited : key ∈ items.map Prod.fst) (keyspace : Keyspace) :
    Effect.actAll keyspace (items.map (entryOf now)) key =
      some (entry.value, now.deadlineMillis entry.expiresAt) := by
  induction items generalizing keyspace with
  | nil => simp at visited
  | cons item rest induction =>
    rw [List.map_cons, Effect.actAll_cons]
    by_cases again : key ∈ rest.map Prod.fst
    · exact induction (fun other member => same other (by simp [member])) again _
    · have here : key = item.1 := by
        simpa [again] using visited
      rw [actAll_entryOf_of_notMem now again, entryOf, Effect.act_put, if_pos here,
        same item (by simp) here.symm]

end ImageScan

/-- The millisecond an entry is written with says no less of its deadline than
a record would. -/
theorem logged_deadlineMillis (lockstep : now.InLockstep offset) (deadline : Option Nat) :
    Logged offset now.instant deadline (now.deadlineMillis deadline) := by
  have fits := now.unixFits
  cases deadline with
  | none => exact Or.inl rfl
  | some instant =>
    rcases Nat.lt_or_ge instant now.instant with passed | ahead
    · refine Or.inr ⟨⟨instant, rfl, Nat.le_of_lt passed⟩, now.unixMillis, ?_, ?_⟩
      · have none : instant - now.instant = 0 := by omega
        simp [Now.deadlineMillis, none, fits]
      · exact Int.le_of_eq lockstep
    · apply Or.inl
      apply Now.deadlineMillis_eq lockstep
      intro other same
      rw [Option.some.injEq] at same
      omega

variable [SipHasher]

namespace Agrees

variable {offset : Int} {now : Now} {dict : Dict} {origin image : Keyspace}
  {effects : List Effect}

/-- The records since a base, on top of nothing, say what memory holds of every
key they decide; every other key is missing. -/
theorem tail_alone {instant : Nat}
    (truth : Agrees offset instant (fun _ => False) dict (Effect.actAll origin effects))
    {pending : Bytes → Prop} (waiting : ∀ key, pending key) :
    Agrees offset instant pending dict (Effect.actAll Keyspace.empty effects) where
  __ := truth
  held := by
    intro key value deadline found
    obtain ⟨fate, acts⟩ := Effect.actAll_fate effects key
    have said := truth.held key value deadline found
    rw [acts] at said ⊢
    cases fate with
    | fixed entry =>
      rcases said with logged | ⟨-, impossible⟩
      · exact Or.inl logged
      · exact impossible.elim
    | same | redated => exact Or.inr ⟨rfl, waiting key⟩
  absent := by
    intro key missing entry logged
    obtain ⟨fate, acts⟩ := Effect.actAll_fate effects key
    rw [acts] at logged
    cases fate with
    | fixed entry =>
      apply truth.absent key missing
      rw [acts]
      exact logged
    | same | redated => simp [Effect.Fate.of, Keyspace.empty] at logged

/-- A held key written into the image as it is now reads, after the records
since the base, as memory holds it. -/
theorem tail_of_written
    (truth : Agrees offset now.instant (fun _ => False) dict (Effect.actAll origin effects))
    (lockstep : now.InLockstep offset) {key value : Bytes} {deadline : Option Nat}
    (found : dict.contents key = some (value, deadline))
    (written : image key = some (value, now.deadlineMillis deadline)) :
    ∃ millis, Effect.actAll image effects key = some (value, millis) ∧
      Logged offset now.instant deadline millis := by
  obtain ⟨fate, acts⟩ := Effect.actAll_fate effects key
  rcases truth.held key value deadline found with ⟨millis, said, logged⟩ | ⟨-, impossible⟩
  · rw [acts] at said
    rw [acts, written]
    cases fate with
    | fixed entry => exact ⟨millis, said, logged⟩
    | same => exact ⟨_, rfl, logged_deadlineMillis lockstep deadline⟩
    | redated last =>
      obtain ⟨entry, -, pair⟩ := Option.map_eq_some_iff.mp said
      rw [Prod.mk.injEq] at pair
      refine ⟨last, rfl, ?_⟩
      rw [pair.2]
      exact logged
  · exact impossible.elim

/-- Held entries written into an image as they are leave the other keys as they were. -/
theorem redraw {instant : Nat} {pending after : Bytes → Prop}
    (drawn : Agrees offset instant pending dict (Effect.actAll image effects))
    (truth : Agrees offset instant (fun _ => False) dict (Effect.actAll origin effects))
    (reading : instant = now.instant) (lockstep : now.InLockstep offset)
    (held : ∀ key entry, (key, entry) ∈ items → dict.get key = some entry)
    (missed : ∀ key, (dict.get key).isSome → pending key → key ∉ items.map Prod.fst → after key) :
    Agrees offset instant after dict
      (Effect.actAll (Effect.actAll image (items.map (ImageScan.entryOf now))) effects) := by
  subst reading
  have untouched : ∀ key, key ∉ items.map Prod.fst →
      Effect.actAll (Effect.actAll image (items.map (ImageScan.entryOf now))) effects key =
        Effect.actAll image effects key := by
    intro key passed
    obtain ⟨fate, acts⟩ := Effect.actAll_fate effects key
    rw [acts, acts, ImageScan.actAll_entryOf_of_notMem now passed]
  refine ⟨truth.sound, truth.bounded, ?_, ?_⟩
  · intro key value deadline found
    obtain ⟨entry, got, pair⟩ := Option.map_eq_some_iff.mp found
    by_cases visited : key ∈ items.map Prod.fst
    · apply Or.inl
      apply truth.tail_of_written lockstep found
      rw [Prod.mk.injEq] at pair
      rw [ImageScan.actAll_entryOf_of_mem now _ visited, pair.1, pair.2]
      intro item member same
      have again := held item.1 item.2 member
      rw [same, got, Option.some.injEq] at again
      exact again.symm
    · rw [untouched key visited]
      rcases drawn.held key value deadline found with logged | ⟨missing, waiting⟩
      · exact Or.inl logged
      · exact Or.inr ⟨missing, missed key (by simp [got]) waiting visited⟩
  · intro key missing entry logged
    have unvisited : key ∉ items.map Prod.fst := by
      intro visited
      obtain ⟨item, member, same⟩ := List.mem_map.mp visited
      have got := held item.1 item.2 member
      rw [Dict.contents_eq_none_iff, ← same, got] at missing
      simp at missing
    rw [untouched key unvisited] at logged
    exact drawn.absent key missing entry logged

end Agrees

theorem ShardState.Move.grows_or_empty {L : Type} [ReplicationLog L]
    {before after : ShardState L} (sound : before.dict.Sound)
    (moved : ShardState.Move shard now before after) :
    Dict.Grows before.dict after.dict ∨ ∀ key, after.dict.contents key = none := by
  have valid := sound.toValid
  cases moved with
  | idle _ dict | refuse _ _ dict =>
    rw [dict]
    exact Or.inl (Dict.Grows.refl _)
  | operate same op harmless dict =>
    rw [dict]
    apply Or.inl
    apply Dict.grows_step valid
    intro cleared
    rw [cleared] at harmless
    exact harmless
  | forget same key value deadline held due dict =>
    rw [dict]
    exact Or.inl (Dict.grows_remove valid key)
  | commit mutation proper taken dict seq reading history =>
    rw [dict]
    cases mutation with
    | put | deadline =>
      exact Or.inl (Dict.grows_run valid (by simp [Mutation.ops]))
    | del key => exact Or.inl (Dict.grows_run valid (by simp [Mutation.ops]))
    | flush =>
      apply Or.inr
      intro key
      exact congrFun (Dict.contents_withSeed before.dict.seed) key

variable {L : Type} [RecordedLog L]

/-- A cycle in progress: memory agrees with the keyspace at the base followed
by the records since, and with the image followed by them, but for the keys the
walk has still to come to. -/
structure Drawing (offset : Int) (origin : Keyspace) (base : Nat)
    (state : ShardState L × ImageScan) : Prop where
  reached : base ≤ state.1.records.length
  truth : Agrees offset state.1.reading (fun _ => False) state.1.dict
    (Effect.actAll origin (state.1.effects.drop base))
  drawn : Agrees offset state.1.reading (state.2.Pending state.1.dict) state.1.dict
    (Effect.actAll (pictured state.2.entries) (state.1.effects.drop base))
  puts : ∀ entry ∈ state.2.entries, entry.IsPut

namespace Drawing

variable {offset : Int} {origin : Keyspace} {base shard : Nat} {now : Now}
  {before after : ShardState L} {scan : ImageScan}

theorem restart {state : ShardState L × ImageScan} (drawing : Drawing offset origin base state) :
    Drawing offset origin base (state.1, ImageScan.fresh) where
  __ := drawing
  drawn := drawing.truth.tail_alone (ImageScan.pending_fresh drawing.truth.sound.toValid)
  puts := by simp [ImageScan.fresh]

variable (drawing : Drawing offset origin base (before, scan))

include drawing

theorem move (lockstep : now.InLockstep offset) (reading : before.reading = now.instant)
    (moved : ShardState.Move shard now before after) :
    Drawing offset origin base (after, scan) := by
  obtain ⟨reached, truth, drawn, puts⟩ := drawing
  dsimp only at reached truth drawn puts
  have unread := moved.reading_eq
  rw [reading] at truth drawn
  have drawnAfter := drawn.move reached lockstep moved
  have truthAfter := truth.move reached lockstep moved
  rw [← reading, ← unread] at truthAfter drawnAfter
  refine ⟨?_, truthAfter, ?_, puts⟩
  · rcases moved.records_cases with ⟨records, -⟩ | ⟨mutation, records, -⟩
    · rw [records]
      exact reached
    · rw [records, List.length_append]
      exact Nat.le_add_right_of_le reached
  · apply drawnAfter.pending_of
    intro key present _ waiting
    rcases moved.grows_or_empty truth.sound with grows | cleared
    · exact waiting.grows grows
    · exact (present (cleared key)).elim

theorem moves (lockstep : now.InLockstep offset) (reading : before.reading = now.instant)
    (moved : ShardState.Moves shard now before after) :
    Drawing offset origin base (after, scan) ∧ after.reading = now.instant := by
  induction moved with
  | refl => exact ⟨drawing, reading⟩
  | tail _ last induction =>
    exact ⟨induction.1.move lockstep induction.2 last, last.reading_eq.trans induction.2⟩

theorem advance (notBack : before.reading ≤ now.instant) :
    Drawing offset origin base ({ before with reading := now.instant }, scan) where
  __ := drawing
  truth := drawing.truth.later notBack
  drawn := drawing.drawn.later notBack

/-- One step of the walk writes what it visits as memory holds it. -/
theorem scanned (lockstep : now.InLockstep offset) (reading : before.reading = now.instant) :
    Drawing offset origin base (before, scan.step before.dict now) := by
  obtain ⟨reached, truth, drawn, puts⟩ := drawing
  dsimp only at reached truth drawn puts
  cases standing : scan.cursor with
  | none =>
    have idle : scan.step before.dict now = scan := by
      simp only [ImageScan.step, standing]
    rw [idle]
    exact ⟨reached, truth, drawn, puts⟩
  | some cursor =>
    have valid := truth.sound.toValid
    have entries : (scan.step before.dict now).entries = scan.entries ++
        (before.dict.scan cursor).1.map (ImageScan.entryOf now) := by
      simp only [ImageScan.step, standing]
    refine ⟨reached, truth, ?_, ?_⟩
    · have pictures : pictured (scan.step before.dict now).entries =
          Effect.actAll (pictured scan.entries)
            ((before.dict.scan cursor).1.map (ImageScan.entryOf now)) := by
        rw [entries, pictured, Effect.actAll_append]
        rfl
      dsimp only
      rw [pictures]
      apply drawn.redraw truth reading lockstep
      · intro key entry visited
        exact Dict.get_of_mem_scan valid visited
      · intro key present waiting missed
        rcases waiting.step now valid present with ⟨other, same, visited⟩ | still
        · rw [standing, Option.some.injEq] at same
          rw [same] at missed
          exact (missed visited).elim
        · exact still
    · intro entry member
      dsimp only at member
      rw [entries, List.mem_append] at member
      rcases member with earlier | written
      · exact puts entry earlier
      · obtain ⟨item, -, rfl⟩ := List.mem_map.mp written
        trivial

end Drawing

/-- What happens while a cycle is open: the shard serves, the walk takes a
step, or the image is started over with the same base. -/
inductive CycleInput where
  | serve (input : ShardInput)
  | scan
  | restart
deriving DecidableEq, Repr

def cycleTake (shard : Nat) (state : ShardState L × ImageScan)
    (input : Now × CycleInput) : ShardState L × ImageScan :=
  match input.2 with
  | .serve served => (state.1.take shard input.1 served, state.2)
  | .scan =>
    ({ state.1 with reading := input.1.instant },
      state.2.step state.1.dict input.1)
  | .restart => ({ state.1 with reading := input.1.instant }, ImageScan.fresh)

def cycleTakeAll (shard : Nat) (state : ShardState L × ImageScan)
    (inputs : List (Now × CycleInput)) : ShardState L × ImageScan :=
  inputs.foldl (cycleTake shard) state

theorem Drawing.cycleTake {state : ShardState L × ImageScan} {input : Now × CycleInput}
    (drawing : Drawing offset origin base state) (lockstep : input.1.InLockstep offset)
    (notBack : state.1.reading ≤ input.1.instant) :
    Drawing offset origin base (cycleTake shard state input) ∧
      (Seedstone.cycleTake shard state input).1.reading = input.1.instant := by
  obtain ⟨now, input⟩ := input
  have advanced := drawing.advance notBack
  cases input with
  | serve served =>
    exact advanced.moves lockstep rfl (ShardState.moves_take drawing.truth.sound served)
  | scan => exact ⟨advanced.scanned lockstep rfl, rfl⟩
  | restart => exact ⟨advanced.restart, rfl⟩

theorem Tracks.cycleTake {since : Nat} {origin : Nat} {state : ShardState L × ImageScan}
    {input : Now × CycleInput} (tracks : Tracks offset start base since state.1)
    (numbered : Numbered origin state.1) (lockstep : input.1.InLockstep offset)
    (notBack : state.1.reading ≤ input.1.instant) :
    Tracks offset start base since (Seedstone.cycleTake shard state input).1 ∧
      Numbered origin (Seedstone.cycleTake shard state input).1 := by
  obtain ⟨now, input⟩ := input
  cases input with
  | serve served =>
    exact ⟨(tracks.take lockstep notBack served).1, numbered.take tracks.agrees.sound served⟩
  | scan | restart => exact ⟨tracks.advance notBack, numbered.seq, numbered.records⟩

theorem loadImage_eq (seed : DictSeed) (puts : ∀ entry ∈ entries, entry.IsPut) (now : Now) :
    loadImage seed entries now =
      some (entries.foldl (replayEffect now) (Dict.withSeed seed, [])) := by
  unfold loadImage
  generalize (Dict.withSeed seed, ([] : List Bytes)) = state
  induction entries generalizing state with
  | nil => rfl
  | cons entry rest induction =>
    have first : takeEntry now state entry = some (replayEffect now state entry) := by
      cases entry with
      | put key value millis => rfl
      | del key => exact (puts (.del key) (by simp)).elim
      | deadline key millis => exact (puts (.deadline key millis) (by simp)).elim
      | flush => exact (puts .flush (by simp)).elim
      | rebase => exact (puts .rebase (by simp)).elim
    rw [List.foldlM_cons, first, List.foldl_cons]
    exact induction (fun other member => puts other (by simp [member])) _

omit [SipHasher] in
theorem foldl_seq_range' (base count : Nat)
    (numbered : records.map Record.seq = List.range' base count) :
    (records.map fun record => (record.seq, record.effect)).foldl
      (fun _ record => record.1 + 1) base = base + count := by
  cases records using List.reverseRecOn with
  | nil =>
    cases count with
    | zero => rfl
    | succ count => simp [List.range'_succ] at numbered
  | append_singleton rest last =>
    cases count with
    | zero => simp at numbered
    | succ count =>
      rw [List.range'_concat, List.map_append] at numbered
      have ends := List.append_inj_right' numbered rfl
      simp only [List.map_cons, List.map_nil, List.cons.injEq, and_true] at ends
      simp [ends]
      omega

theorem loadAndReplay_contents (seed : DictSeed) (puts : ∀ entry ∈ entries, entry.IsPut)
    (base count : Nat) (numbered : records.map Record.seq = List.range' base count) (now : Now) :
    ∃ dict, loadAndReplay seed entries base records now = some (dict, base + count) ∧
      dict.contents =
        (Effect.actAll (pictured entries) (records.map Record.effect)).resolve now := by
  have loaded := (replayHolds_empty now seed).foldl entries
  have replayed := replayInto_contents loaded base
    (records.map fun record => (record.seq, record.effect))
  refine ⟨_, ?_, replayed.2.trans ?_⟩
  · unfold loadAndReplay
    rw [loadImage_eq seed puts]
    simp only [Option.bind_eq_bind, Option.bind_some, Option.pure_def, Option.some.injEq]
    rw [Prod.ext_iff]
    exact ⟨rfl, foldl_seq_range' base count numbered⟩
  · rw [List.map_map]
    rfl

/-- After a finished walk memory agrees with the image and the records since its base.
-/
theorem Drawing.finished {state : ShardState L × ImageScan}
    (drawing : Drawing offset origin base state) (done : state.2.cursor = none) :
    Agrees offset state.1.reading (fun _ => False) state.1.dict
      (Effect.actAll (pictured state.2.entries) (state.1.effects.drop base)) := by
  apply drawing.drawn.pending_of
  rintro key - - ⟨cursor, standing, -⟩
  rw [done] at standing
  simp at standing

/-- From the end of the walk on, the image takes the place of everything before
its base. -/
theorem Tracks.of_drawing {first since : Nat} {state : ShardState L × ImageScan}
    (drawing : Drawing offset origin base state) (done : state.2.cursor = none)
    (tracks : Tracks offset start first since state.1) :
    Tracks offset (pictured state.2.entries) base state.1.records.length state.1 where
  reached := drawing.reached
  agrees := drawing.finished done
  length := tracks.length
  past := by
    intro index instant dict recent _ located
    rw [List.getElem?_eq_none (by rw [tracks.length]; exact recent)] at located
    simp at located

theorem cycle_invariants (agrees : Agrees offset 0 (fun _ => False) dict start)
    (shard seq : Nat) (answers : Nat → Bool) {earlier : List (Now × ShardInput)}
    {cycle : List (Now × CycleInput)} (before : Lockstep offset earlier)
    (during : Lockstep offset cycle)
    (ordered : ∀ first ∈ earlier, ∀ second ∈ cycle, first.1.instant ≤ second.1.instant) :
    let opened := (startedShard dict seq answers).takeAll shard earlier
    let scanned := cycleTakeAll shard (opened, ImageScan.fresh) cycle
    (Drawing offset (Effect.actAll start opened.effects) opened.records.length scanned ∧
      Tracks offset start 0 0 scanned.1 ∧ Numbered seq scanned.1) ∧
    ∀ bound, (∀ input ∈ earlier, input.1.instant ≤ bound) →
      (∀ input ∈ cycle, input.1.instant ≤ bound) → scanned.1.reading ≤ bound := by
  intro opened scanned
  obtain ⟨⟨numbered, tracks⟩, last⟩ := startedShard_takeAll agrees shard seq answers before
  have truth : Agrees offset opened.reading (fun _ => False) opened.dict
      (Effect.actAll (Effect.actAll start opened.effects)
        (opened.effects.drop opened.records.length)) := by
    rw [List.drop_of_length_le (by simp)]
    exact tracks.agrees
  have opening : Drawing offset (Effect.actAll start opened.effects)
      opened.records.length (opened, ImageScan.fresh) :=
    ⟨Nat.le_refl _, truth, truth.tail_alone (ImageScan.pending_fresh truth.sound.toValid),
      by simp [ImageScan.fresh]⟩
  obtain ⟨kept, lastScan⟩ := during.foldl_invariant (cycleTake shard)
    (fun state => state.1.reading)
    (fun state => Drawing offset (Effect.actAll start opened.effects) opened.records.length state ∧
      Tracks offset start 0 0 state.1 ∧ Numbered seq state.1)
    (by
      rintro state input ⟨drawing, tracks, numbered⟩ lockstep notBack
      obtain ⟨drawn, reading⟩ := drawing.cycleTake lockstep notBack
      exact ⟨⟨drawn, tracks.cycleTake numbered lockstep notBack⟩, reading⟩)
    ⟨opening, tracks, numbered⟩
    (fun second member => last second.1.instant
      (fun first firstMember => ordered first firstMember second member))
  exact ⟨kept, fun bound early => lastScan bound (last bound early)⟩

omit [SipHasher] in
theorem Numbered.slice {origin : Nat} {state : ShardState L}
    (numbered : Numbered origin state) {count : Nat} (upTo : count ≤ state.records.length) :
    ((state.records.take count).drop base).map Record.seq =
      List.range' (origin + base) (count - base) := by
  rw [List.map_drop, List.map_take, numbered.records, List.take_range'_of_length_ge upTo,
    List.drop_range', Nat.mul_one]

/-- Loading an image and replaying up to a position gives the keyspace described there.
-/
theorem loadAndReplay_slice {origin : Nat} {state : ShardState L}
    (numbered : Numbered origin state) (puts : ∀ entry ∈ entries, entry.IsPut)
    (seed : DictSeed) {count : Nat} (onward : base ≤ count)
    (upTo : count ≤ state.records.length) (now : Now) :
    ∃ dict, loadAndReplay seed entries (origin + base)
        ((state.records.take count).drop base) now = some (dict, origin + count) ∧
      dict.contents = (Effect.actAll (pictured entries)
        ((state.effects.take count).drop base)).resolve now := by
  obtain ⟨dict, loaded, contents⟩ := loadAndReplay_contents seed puts (origin + base) (count - base)
      (numbered.slice upTo) now
  refine ⟨dict, ?_, ?_⟩
  · rw [loaded, Nat.add_assoc, Nat.add_sub_cancel' onward]
  · rw [contents, List.map_drop, List.map_take]
    rfl

theorem loadImage_holds {seed : DictSeed} {state : Dict × List Bytes}
    (loaded : loadImage seed entries now = some state) :
    ReplayHolds now state (pictured entries) := by
  have puts : ∀ entry ∈ entries, entry.IsPut := by
    unfold loadImage at loaded
    generalize (Dict.withSeed seed, ([] : List Bytes)) = first at loaded
    induction entries generalizing first with
    | nil => simp
    | cons entry rest induction =>
      rw [List.foldlM_cons] at loaded
      obtain ⟨next, taken, remaining⟩ := Option.bind_eq_some_iff.mp loaded
      intro other member
      rcases List.mem_cons.mp member with rfl | later
      · cases other with
        | put key value millis => trivial
        | del | deadline | flush | rebase => simp [takeEntry] at taken
      · exact induction next remaining other later
  rw [loadImage_eq seed puts, Option.some.injEq] at loaded
  rw [← loaded]
  exact (replayHolds_empty now seed).foldl entries

omit [SipHasher] in
/-- Every deadline read at a clock is an instant still ahead of it. -/
theorem Keyspace.resolve_deadline {keyspace : Keyspace} {key value : Bytes}
    {deadline : Nat} (found : keyspace.resolve now key = some (value, some deadline)) :
    now.instant ≤ deadline ∧ deadline ≤ instantMax := by
  unfold Keyspace.resolve at found
  obtain ⟨entry, -, resolved⟩ := Option.bind_eq_some_iff.mp found
  split at resolved
  · simp at resolved
  · next ahead =>
      rw [Option.some.injEq, Prod.mk.injEq] at resolved
      obtain ⟨-, resolved⟩ := resolved
      revert ahead resolved
      cases entry.2 with
      | none => simp [resolveDeadline]
      | some millis =>
        unfold resolveDeadline Now.replayDeadline
        intro ahead resolved
        by_cases passed : millis ≤ now.unixMillis
        · simp [passed] at ahead
        · simp only [passed, if_false] at resolved
          exact ShardState.checkedAdd_storable resolved

/-- What a start hands over: a sound dict whose deadlines the clock can
represent. -/
theorem agrees_of_loadAndReplay {seed : DictSeed} {seq : Nat}
    (recovered : loadAndReplay seed entries base records now = some (dict, seq))
    (lockstep : now.InLockstep offset) (instant : Nat) :
    Agrees offset instant (fun _ => False) dict (dict.keyspace offset) := by
  obtain ⟨⟨first, due⟩, loaded, replayed⟩ := Option.bind_eq_some_iff.mp recovered
  rw [Option.pure_def, Option.some.injEq] at replayed
  obtain ⟨sound, contents⟩ := replayInto_contents (loadImage_holds loaded) base
    (records.map fun record => (record.seq, record.effect))
  rw [replayed] at sound contents
  apply Agrees.of_sound sound
  intro key value deadline found
  dsimp only at contents
  rw [contents] at found
  obtain ⟨ahead, fits⟩ := Keyspace.resolve_deadline found
  unfold Now.InLockstep at lockstep
  exact ⟨fits, by omega⟩

/-- Whatever a shard recovered, whatever it served before, between the steps of
the walk and after it, over however many ticks and restarts the walk went:
loading the image and replaying the records from its base on gives what memory
held at the position they lead to, for every position from the end of the walk
on, and what it holds now. -/
theorem image_and_tail_eq_memory (replaySeed : DictSeed) (offset : Int) (shard : Nat)
    (answers : Nat → Bool) {seed : DictSeed} {image : List Effect} {first : Nat}
    {log : List Record} {start : Now} {dict : Dict} {origin : Nat}
    (recovered : loadAndReplay seed image first log start = some (dict, origin))
    (started : start.InLockstep offset) (earlier : List (Now × ShardInput))
    (cycle : List (Now × CycleInput)) (later : List (Now × ShardInput))
    (lockstep : Lockstep offset (earlier.map (Prod.map id CycleInput.serve) ++
      (cycle ++ later.map (Prod.map id CycleInput.serve)))) :
    let opened := (startedShard dict origin answers).takeAll shard earlier
    let scanned := cycleTakeAll shard (opened, ImageScan.fresh) cycle
    let final := scanned.1.takeAll shard later
    scanned.2.cursor = none →
    (∀ count instant held, scanned.1.seq ≤ origin + count →
      ((0, dict) :: final.history)[count]? = some (instant, held) →
      ∀ now : Now, now.InLockstep offset → instant ≤ now.instant →
        (∀ input ∈ cycle, input.1.instant ≤ now.instant) →
        ∃ loaded, loadAndReplay replaySeed scanned.2.entries opened.seq
            ((final.records.take count).drop opened.records.length) now =
              some (loaded, origin + count) ∧
          loaded.contents = held.liveCapped offset now.instant) ∧
    ∀ now : Now, now.InLockstep offset →
      (∀ input ∈ cycle, input.1.instant ≤ now.instant) →
      (∀ input ∈ later, input.1.instant ≤ now.instant) →
      ∃ loaded, loadAndReplay replaySeed scanned.2.entries opened.seq
          (final.records.drop opened.records.length) now = some (loaded, final.seq) ∧
        loaded.contents = final.dict.liveCapped offset now.instant := by
  intro opened scanned final done
  have agrees := agrees_of_loadAndReplay recovered started 0
  obtain ⟨before, rest, across⟩ := lockstep.append
  obtain ⟨during, after, onward⟩ := rest.append
  have ordered : ∀ first ∈ earlier, ∀ second ∈ cycle,
      first.1.instant ≤ second.1.instant := by
    intro first member second memberSecond
    exact across _ (List.mem_map_of_mem member) second
      (List.mem_append_left _ memberSecond)
  obtain ⟨⟨drawing, tracks, numbered⟩, last⟩ :
      (Drawing offset (Effect.actAll (dict.keyspace offset) opened.effects)
          opened.records.length scanned ∧
        Tracks offset (dict.keyspace offset) 0 0 scanned.1 ∧ Numbered origin scanned.1) ∧ _ :=
    cycle_invariants agrees shard origin answers before.of_map during ordered
  have base : opened.seq = origin + opened.records.length :=
    (startedShard_takeAll agrees shard origin answers before.of_map).1.1.seq
  have read : ∀ bound, (∀ input ∈ cycle, input.1.instant ≤ bound) →
      scanned.1.reading ≤ bound := by
    intro bound bounded
    apply last bound _ bounded
    intro first member
    obtain ⟨second, memberSecond⟩ : ∃ second, second ∈ cycle := by
      apply List.exists_mem_of_ne_nil
      intro nothing
      simp [scanned, nothing, cycleTakeAll, ImageScan.fresh] at done
    exact (ordered first member second memberSecond).trans (bounded second memberSecond)
  have forward : ∀ input ∈ later, scanned.1.reading ≤ input.1.instant := by
    intro input member
    apply read
    intro second memberSecond
    exact onward second memberSecond _ (List.mem_map_of_mem member)
  obtain ⟨⟨finalNumbered, finalTracks, longer⟩, finalLast⟩ :
      (Numbered origin final ∧ Tracks offset (dict.keyspace offset) 0 0 final ∧
        scanned.1.records <+: final.records) ∧ _ :=
    tracks.takeAll numbered after.of_map forward
  have pictures : Tracks offset (pictured scanned.2.entries) opened.records.length
      scanned.1.records.length final :=
    ((Tracks.of_drawing drawing done tracks).takeAll numbered after.of_map forward).1.2.1
  rw [base, numbered.seq, finalNumbered.seq]
  refine ⟨?_, ?_⟩
  · intro count instant held past located now nowLockstep notBack scannedBefore
    have upTo : count ≤ final.records.length := by
      have inside := (List.getElem?_eq_some_iff.mp located).1
      rw [List.length_cons, finalTracks.length] at inside
      omega
    have passed : scanned.1.records.length ≤ count := by omega
    obtain ⟨loaded, result, contents⟩ := loadAndReplay_slice finalNumbered drawing.puts
      replaySeed (drawing.reached.trans passed) upTo now
    refine ⟨loaded, result, contents.trans ?_⟩
    rcases Nat.eq_or_lt_of_le passed with same | beyond
    · -- The dict the walk ended on and the one its position was reached with
      -- may differ, but the same records describe both.
      have prior : final.effects.take count = scanned.1.effects := by
        rw [← same, ShardState.effects, ← List.map_take, ← List.prefix_iff_eq_take.mp longer]
        rfl
      have described := finalTracks.memory_at agrees located nowLockstep notBack
      rw [prior] at described ⊢
      rw [← described, (drawing.finished done).resolve_eq nowLockstep
        (read now.instant scannedBefore)]
      exact (tracks.agrees.resolve_eq nowLockstep (read now.instant scannedBefore)).symm
    · obtain ⟨index, rfl⟩ : ∃ index, count = index + 1 := ⟨count - 1, by omega⟩
      rw [List.getElem?_cons_succ] at located
      have recent : scanned.1.records.length ≤ index := by omega
      exact (pictures.past index instant held recent (drawing.reached.trans recent)
        located).2.resolve_eq nowLockstep notBack
  · intro now nowLockstep scannedBefore servedBefore
    obtain ⟨loaded, result, contents⟩ := loadAndReplay_slice finalNumbered drawing.puts
      replaySeed pictures.reached (Nat.le_refl _) now
    rw [List.take_of_length_le (Nat.le_refl _)] at result
    rw [List.take_of_length_le (by simp)] at contents
    refine ⟨loaded, result, contents.trans ?_⟩
    exact pictures.agrees.resolve_eq nowLockstep
      (finalLast now.instant (read now.instant scannedBefore) servedBefore)

omit [SipHasher] in
/-- A walk of eight steps with a write in its middle and one after it. -/
theorem image_and_tail_eq_memory_eight_steps :
    let _ : SipHasher := ⟨fun _ _ _ => 3⟩
    let start : Now := ⟨0, 1000, by decide⟩
    let middle : Now := ⟨5, 1005, by decide⟩
    let later : Now := ⟨9, 1009, by decide⟩
    let half := List.replicate 4 (start, CycleInput.scan)
    let rest := List.replicate 4 (middle, CycleInput.scan)
    let write : ShardInput := .command (.pSetEx [107] 700 [2])
    let opened := (emptyShard ⟨0, 0⟩ (fun _ => true)).takeAll 0
      [(start, .command (.setNx [107] [1]))]
    let scanned := cycleTakeAll 0 (opened, ImageScan.fresh)
      (half ++ (middle, .serve write) :: rest)
    let final := scanned.1.takeAll 0 [(later, .command (.setNx [108] [3]))]
    scanned.2.cursor = none ∧ final.seq = 3 ∧
      ∃ loaded, loadAndReplay ⟨0, 0⟩ scanned.2.entries opened.seq
          (final.records.drop opened.records.length) later = some (loaded, final.seq) ∧
        loaded.contents = final.dict.liveCapped 1000 9 := by
  intro hasher start middle later half rest write opened scanned final
  have done : scanned.2.cursor = none := by decide +kernel
  have count : final.seq = 3 := by decide +kernel
  have bounded : ∀ input ∈ half ++ (middle, CycleInput.serve write) :: rest,
      input.1.instant ≤ later.instant := by
    intro input member
    simp only [half, rest, List.mem_append, List.mem_cons, List.mem_replicate] at member
    rcases member with ⟨-, rfl⟩ | rfl | ⟨-, rfl⟩ <;> decide
  have readings : Lockstep 1000
      ([(start, ShardInput.command (.setNx [107] [1]))].map (Prod.map id .serve) ++
        ((half ++ (middle, .serve write) :: rest) ++
          [(later, ShardInput.command (.setNx [108] [3]))].map (Prod.map id .serve))) := by
    refine ⟨by decide, ?_⟩
    intro input member
    simp only [half, rest, List.map_cons, List.map_nil, List.mem_append, List.mem_cons,
      List.mem_replicate, List.not_mem_nil, or_false] at member
    rcases member with rfl | (⟨-, rfl⟩ | rfl | ⟨-, rfl⟩) | rfl <;> rfl
  refine ⟨done, count, ?_⟩
  have nothing : loadAndReplay ⟨0, 0⟩ [] 0 [] start = some (Dict.withSeed ⟨0, 0⟩, 0) := rfl
  exact (image_and_tail_eq_memory ⟨0, 0⟩ 1000 0 (fun _ => true) nothing rfl _ _ _ readings
    done).2 later rfl bounded (by simp)

omit [SipHasher] in
/-- A deadline past the last Unix millisecond an image can name: the shard holds
the key until instant `10 ^ 20`, and the image loaded at the same reading until
`u64Max`. -/
theorem image_of_deadline_past_u64 :
    let _ : SipHasher := ⟨fun _ _ _ => 3⟩
    let now : Now := ⟨0, 0, by decide⟩
    let opened := (emptyShard ⟨0, 0⟩ (fun _ => true)).takeAll 0
      [(now, .command (.setEx [107] (10 ^ 17) [1]))]
    let scanned := cycleTakeAll 0 (opened, ImageScan.fresh)
      (List.replicate 8 (now, .scan))
    now.InLockstep 0 ∧ scanned.2.cursor = none ∧ scanned.1.seq = opened.seq ∧
      scanned.1.dict.live 0 [107] = some ([1], some (10 ^ 20)) ∧
      (loadAndReplay ⟨0, 0⟩ scanned.2.entries opened.seq
        (scanned.1.records.drop opened.seq) now).map
          (fun loaded => loaded.1.contents [107]) = some (some ([1], some u64Max)) ∧
      u64Max ≠ 10 ^ 20 := by
  intro hasher now opened scanned
  refine ⟨rfl, ?_, ?_, ?_, ?_, ?_⟩
  · decide +kernel
  · decide +kernel
  · decide +kernel
  · decide +kernel
  · decide

end Seedstone
