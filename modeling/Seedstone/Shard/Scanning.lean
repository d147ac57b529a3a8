import Seedstone.Dict.Cycle
import Seedstone.Shard.Expiry

/-!
# What a scan step reports

One step of a keyspace walk against one shard: how many buckets it visits, where
the cursor it hands back can lie, and that a live key it had still to come to is
reported or still to come to.  Between two steps a shard takes anything else;
only `FLUSHDB` makes its table smaller, and that leaves no key to miss.
-/

namespace Seedstone

variable {instant : Nat} {key : Bytes} {dict : Dict}

open ReverseBinary

namespace Dict

/-- Both tables have fewer than `bound` buckets. -/
structure TablesBelow (bound : Nat) (dict : Dict) : Prop where
  old : dict.old.length < bound
  new : ∀ new, dict.new = some new → new.length < bound

instance (bound : Nat) (dict : Dict) : Decidable (dict.TablesBelow bound) :=
  decidable_of_iff (dict.old.length < bound ∧ ∀ new ∈ dict.new, new.length < bound)
    ⟨fun ⟨old, new⟩ => ⟨old, new⟩, fun ⟨old, new⟩ => ⟨old, new⟩⟩

variable [SipHasher] {dict : Dict}

theorem isSome_get_of_live (live : dict.live instant key ≠ none) : (dict.get key).isSome := by
  rw [Option.isSome_iff_ne_none]
  intro missing
  exact live (by simp [Dict.live, contents, missing])

omit [SipHasher] in
theorem increment_maskOf_lt {table : Table} {bits : Nat} (power : table.length = 2 ^ bits)
    (cursor : Cursor) : (increment cursor (maskOf table)).toNat < table.length := by
  rw [maskOf_eq_lowMask power, power]
  exact lt_of_lt_of_le (increment_lt_two_pow (Nat.min_le_right _ _) cursor)
    (Nat.pow_le_pow_right (by omega) (Nat.min_le_left _ _))

theorem scan_lt (valid : dict.Valid) {bound : Nat} (below : dict.TablesBelow bound)
    (cursor : Cursor) : (dict.scan cursor).2.toNat < bound := by
  obtain ⟨bits, power⟩ := valid.old.powerOfTwo
  refine Nat.lt_of_le_of_lt ?_ below.old
  by_cases empty : dict.len = 0
  · rw [scan_empty empty]
    exact Nat.zero_le _
  · rw [scan_next valid empty]
    exact Nat.le_of_lt (increment_maskOf_lt power cursor)

end Dict

variable [SipHasher]

/-- What one `scan_step` answers, for a budget that is not zero. -/
structure ScanAnswer (dict : Dict) (pattern : Option Bytes) (instant : Nat) (cursor : Cursor)
    (budget : Nat) (keys : List Bytes) (next : Cursor) (visited : Nat) : Prop where
  some : 1 ≤ visited
  most : visited ≤ budget
  whole : next ≠ 0 → visited = budget
  within : ∀ bound, dict.TablesBelow bound → next.toNat < bound
  reported : ∀ key, dict.Ahead cursor key → dict.live instant key ≠ none →
    pattern.all (fun pattern => Glob.isMatch pattern key) = true →
    key ∈ keys ∨ (next ≠ 0 ∧ dict.Ahead next key)

theorem mem_reported (valid : dict.Valid) {pattern : Option Bytes} {cursor : Cursor}
    (visited : key ∈ (dict.scan cursor).1.map Prod.fst) (live : dict.live instant key ≠ none)
    (wanted : pattern.all (fun pattern => Glob.isMatch pattern key) = true) :
    key ∈ (((dict.scanInOrder cursor reverseBinary).1.filter
      (fun item => !Deadlines.dueOnRead item.2.expiresAt instant)).map Prod.fst).filter
        (fun key => pattern.all (fun pattern => Glob.isMatch pattern key)) := by
  obtain ⟨⟨other, entry⟩, member, rfl⟩ := List.mem_map.mp visited
  have found : dict.get other = some entry := Dict.get_of_mem_scan valid member
  have ahead : Deadlines.dueOnRead entry.expiresAt instant = false := by
    cases due : Deadlines.dueOnRead entry.expiresAt instant with
    | false => rfl
    | true =>
      refine absurd ?_ live
      unfold Deadlines.dueOnRead at due
      simp [Dict.live, Dict.contents, found, due]
  refine List.mem_filter.mpr ⟨List.mem_map.mpr ⟨(other, entry), ?_, rfl⟩, wanted⟩
  exact List.mem_filter.mpr ⟨member, by simp [ahead]⟩

theorem scanAnswer_scanLoop (valid : dict.Valid) (pattern : Option Bytes)
    (instant budget : Nat) (cursor : Cursor) :
    ScanAnswer dict pattern instant cursor (budget + 1)
      (scanLoop dict pattern instant (budget + 1) cursor).1
      (scanLoop dict pattern instant (budget + 1) cursor).2.1
      (scanLoop dict pattern instant (budget + 1) cursor).2.2 := by
  induction budget generalizing cursor with
  | zero =>
    have within : ∀ bound, dict.TablesBelow bound →
        (dict.scanInOrder cursor reverseBinary).2.toNat < bound :=
      fun bound below => Dict.scan_lt valid below cursor
    unfold scanLoop
    dsimp only
    split
    · next ended =>
        refine ⟨Nat.le_refl _, Nat.le_refl _, fun more => rfl, within, ?_⟩
        intro key ahead live wanted
        rcases ahead.scan valid (Dict.isSome_get_of_live live) with visited | ⟨more, -⟩
        · exact Or.inl (mem_reported valid visited live wanted)
        · exact absurd ended more
    · next more =>
        refine ⟨Nat.le_refl _, Nat.le_refl _, fun _ => rfl, within, ?_⟩
        intro key ahead live wanted
        rcases ahead.scan valid (Dict.isSome_get_of_live live) with visited | later
        · exact Or.inl (List.mem_append_left _ (mem_reported valid visited live wanted))
        · exact Or.inr later
  | succ budget induction =>
    rw [scanLoop]
    dsimp only
    split
    · next ended =>
        refine ⟨Nat.le_refl _, Nat.succ_le_succ (Nat.zero_le _),
          fun more => absurd ended more, fun bound below => Dict.scan_lt valid below cursor, ?_⟩
        intro key ahead live wanted
        rcases ahead.scan valid (Dict.isSome_get_of_live live) with visited | ⟨more, -⟩
        · exact Or.inl (mem_reported valid visited live wanted)
        · exact absurd ended more
    · next more =>
        have rest := induction (dict.scanInOrder cursor reverseBinary).2
        refine ⟨Nat.le_add_left _ _, Nat.succ_le_succ rest.most,
          fun more => congrArg Nat.succ (rest.whole more), rest.within, ?_⟩
        intro key ahead live wanted
        rcases ahead.scan valid (Dict.isSome_get_of_live live) with visited | ⟨-, later⟩
        · exact Or.inl (List.mem_append_left _ (mem_reported valid visited live wanted))
        · rcases rest.reported key later live wanted with reported | later
          · exact Or.inl (List.mem_append_right _ reported)
          · exact Or.inr later

omit [SipHasher] in
theorem wanted_of_mem_scanLoop {pattern : Option Bytes} (count : Nat) (cursor : Cursor)
    (returned : key ∈ (scanLoop dict pattern instant count cursor).1) :
    pattern.all (fun pattern => Glob.isMatch pattern key) = true := by
  induction count generalizing cursor with
  | zero => simp [scanLoop] at returned
  | succ count induction =>
    unfold scanLoop at returned
    dsimp only at returned
    split at returned
    · exact (List.mem_filter.mp returned).2
    · rcases List.mem_append.mp returned with now | later
      · exact (List.mem_filter.mp now).2
      · exact induction _ later

/-- A step ends the cycle or hands back a cursor that ranks above its own. -/
theorem scanLoop_advances (valid : dict.Valid) (pattern : Option Bytes)
    (instant budget : Nat) (cursor : Cursor) :
    (scanLoop dict pattern instant (budget + 1) cursor).2.1 = 0 ∨
      rank cursor < rank (scanLoop dict pattern instant (budget + 1) cursor).2.1 := by
  induction budget generalizing cursor with
  | zero =>
    have advanced := Dict.scan_advances valid (Nat.le_refl dict.old.length) cursor
    unfold scanLoop
    dsimp only
    split
    · next ended => exact Or.inl ended
    · exact advanced.imp_right And.left
  | succ budget induction =>
    have advanced := Dict.scan_advances valid (Nat.le_refl dict.old.length) cursor
    rw [scanLoop]
    dsimp only
    split
    · next ended => exact Or.inl ended
    · next more =>
        rcases advanced with zero | ⟨further, -⟩
        · exact absurd zero more
        · exact (induction (dict.scan cursor).2).imp_right further.trans

/-- A validity-keeping change that grows the table at most. -/
def Dict.Steady (before after : Dict) : Prop :=
  before.Valid → after.Valid ∧ Dict.Grows before after

namespace Dict.Steady

variable {first second third : Dict}

theorem refl (dict : Dict) : Steady dict dict :=
  fun valid => ⟨valid, Grows.refl dict⟩

theorem trans (one : Steady first second) (two : Steady second third) : Steady first third := by
  intro valid
  obtain ⟨middle, grown⟩ := one valid
  obtain ⟨last, more⟩ := two middle
  exact ⟨last, grown.trans more⟩

theorem step (dict : Dict) {op : DictOp} (kept : op ≠ .clear) : Steady dict (dict.step op).2 :=
  fun valid => ⟨step_valid valid op, grows_step valid kept⟩

theorem remove (dict : Dict) (key : Bytes) : Steady dict (dict.remove key).2 := by
  have removed : Steady dict (dict.step (.remove key)).2 := step dict (by simp)
  exact removed

end Dict.Steady

namespace ShardState

variable {L : Type} {before after : ShardState L}

def Steady (before after : ShardState L) : Prop :=
  Dict.Steady before.dict after.dict

theorem Steady.of_eq (same : after.dict = before.dict) : Steady before after := by
  unfold Steady
  rw [same]
  exact .refl _

theorem Steady.trans {first second third : ShardState L} (one : Steady first second)
    (two : Steady second third) : Steady first third :=
  Dict.Steady.trans one two

variable [ReplicationLog L] {shard : Nat} {now : Now}

omit [SipHasher] in
theorem dict_mutate (state : ShardState L) (effect : Effect) (next : Dict) :
    (state.mutate shard effect next).2.dict = state.dict ∨
      (state.mutate shard effect next).2.dict = next := by
  unfold mutate append
  rcases ReplicationLog.append state.log _ with ⟨_ | _, log⟩
  · exact .inl rfl
  · exact .inr rfl

theorem Deed.steady {flushes : Prop} (kept : ¬ flushes)
    (deed : Deed flushes shard now before after) : Steady before after := by
  cases deed with
  | count => exact .of_eq rfl
  | touch key =>
    have touched : Dict.Steady before.dict (before.dict.step (.touch key)).2 := .step _ (by simp)
    exact touched
  | forget key due => exact .remove before.dict key
  | mutate mutation proper flush =>
    have changed : Dict.Steady before.dict (mutation.apply before.dict) := by
      cases mutation with
      | put key value expiresAt =>
        have inserted : Dict.Steady before.dict
            (before.dict.step (.insert key ⟨value, expiresAt, 0⟩)).2 := .step _ (by simp)
        have touched : Dict.Steady (before.dict.insert key ⟨value, expiresAt, 0⟩)
            ((before.dict.insert key ⟨value, expiresAt, 0⟩).step (.touch key)).2 :=
          .step _ (by simp)
        exact inserted.trans touched
      | del key => exact .remove before.dict key
      | deadline key expiresAt =>
        have dated : Dict.Steady before.dict
            (before.dict.step (.setDeadline key expiresAt)).2 := .step _ (by simp)
        exact dated
      | flush => exact absurd (flush rfl) kept
    rcases before.dict_mutate (mutation.effect now) (mutation.apply before.dict) with
      same | next
    · exact .of_eq same
    · exact (congrArg (Dict.Steady before.dict) next).mpr changed

theorem Deeds.steady {flushes : Prop} (kept : ¬ flushes)
    (deeds : Deeds flushes shard now before after) : Steady before after := by
  induction deeds with
  | refl => exact .of_eq rfl
  | tail _ last induction => exact induction.trans (last.steady kept)

variable {state : ShardState L}

/-- Whatever a shard takes but a flush keeps its table or grows it. -/
theorem steady_take (sound : state.dict.Sound) {input : ShardInput}
    (kept : input ≠ .command .flushDb) : Steady state (state.take shard now input) := by
  have read : Steady state { state with reading := now.instant } := .of_eq rfl
  cases input with
  | command cmd =>
    have applied : Deeds (cmd = .flushDb) shard now { state with reading := now.instant } _ :=
      deeds_apply (by exact sound) cmd
    exact read.trans (applied.steady fun same => kept (congrArg ShardInput.command same))
  | sweep =>
    have swept : Deeds False shard now { state with reading := now.instant } _ :=
      deeds_sweepExpired now.instant
    exact read.trans (swept.steady not_false)
  | evict spared =>
    have evicted : Deeds False shard now { state with reading := now.instant } _ :=
      deeds_evictOne spared
    exact read.trans (evicted.steady not_false)
  | rehash buckets =>
    have moved : Dict.Steady state.dict (state.dict.step (.rehashStep buckets)).2 :=
      .step _ (by simp)
    exact moved
  | refuse refusing => exact .of_eq rfl

theorem sound_take (sound : state.dict.Sound) (input : ShardInput) :
    (state.take shard now input).dict.Sound :=
  sound_takeAll sound [(now, input)]

theorem flush_take (state : ShardState L) :
    (state.take shard now (.command .flushDb)).dict = state.dict ∨ ∀ instant key,
        (state.take shard now (.command .flushDb)).dict.live instant key = none := by
  have cleared : ∀ instant key, state.dict.clear.live instant key = none := by
    intro instant key
    have none : state.dict.clear.contents key = none :=
      congrFun (Dict.contents_withSeed state.dict.seed) key
    simp [Dict.live, none]
  unfold take apply dispatch flushDb
  dsimp only [Command.route]
  split
  · exact Or.inl rfl
  · rw [answer_snd]
    rcases dict_mutate { state with reading := now.instant } .flush state.dict.clear with
      kept | changed
    · exact Or.inl kept
    · rw [changed]
      exact Or.inr cleared

/-- A key that is live after an input is as far ahead of a walk as before. -/
theorem ahead_take {input : ShardInput} (sound : state.dict.Sound) {cursor : Cursor}
    (ahead : state.dict.Ahead cursor key)
    (live : (state.take shard now input).dict.live instant key ≠ none) :
    (state.take shard now input).dict.Ahead cursor key := by
  by_cases flushes : input = .command .flushDb
  · subst flushes
    rcases flush_take state with kept | cleared
    · rw [kept]
      exact ahead
    · exact absurd (cleared instant key) live
  · exact ahead.grows (steady_take sound flushes sound.toValid).2

end ShardState

end Seedstone
