import Seedstone.Log.Layout

/-!
# A shard with its log as a list

What a shard answers and does to its dict depends on its log only through which
records are taken.  `Journal` is the log that takes every record and keeps them in
order; reading a `FileLog` as the records it took commutes with every command,
and the buffers of a `FileLog` play no part.
-/

namespace Seedstone

/-- The log as the list of the records it took. -/
structure Journal where
  records : List Record
deriving DecidableEq, Repr

instance : ReplicationLog Journal where
  append log record := (true, ⟨log.records ++ [record]⟩)

def FileLog.journal (log : FileLog) : Journal :=
  ⟨log.accepted⟩

namespace ShardState

/-- A shard's state with its log read as something else. -/
def mapLog {L M : Type} (read : L → M) (state : ShardState L) : ShardState M where
  dict := state.dict
  seq := state.seq
  log := read state.log
  expireCursor := state.expireCursor
  evictCursor := state.evictCursor
  evicted := state.evicted
  expired := state.expired
  refusing := state.refusing
  reading := state.reading
  history := state.history

/-- A shard without the buffers of its log. -/
def plain (state : ShardState FileLog) : ShardState Journal :=
  state.mapLog FileLog.journal

section

variable {L M : Type} [ReplicationLog L] [ReplicationLog M]

/-- A reading of a log that appending commutes with. -/
def ReadsAs (read : L → M) : Prop :=
  ∀ log record, ReplicationLog.append (read log) record =
    ((ReplicationLog.append log record).1, read (ReplicationLog.append log record).2)

variable {read : L → M} (reads : ReadsAs read) (state : ShardState L) (shard : Nat)

include reads

theorem mutate_mapLog (effect : Effect) (next : Dict) :
    (state.mapLog read).mutate shard effect next =
      ((state.mutate shard effect next).1, (state.mutate shard effect next).2.mapLog read) := by
  have appended := reads state.log ⟨shard, state.seq, effect⟩
  unfold mutate append
  cases outcome : ReplicationLog.append state.log ⟨shard, state.seq, effect⟩ with
  | mk taken log =>
    rw [outcome] at appended
    have other : ReplicationLog.append (state.mapLog read).log
        ⟨shard, (state.mapLog read).seq, effect⟩ = (taken, read log) := appended
    rw [other]
    cases taken <;> rfl

theorem answer_mutate_mapLog (effect : Effect) (next : Dict) (reply : Reply) :
    answer ((state.mapLog read).mutate shard effect next) reply =
      ((answer (state.mutate shard effect next) reply).1,
        (answer (state.mutate shard effect next) reply).2.mapLog read) := by
  rw [mutate_mapLog reads]
  unfold answer
  cases (state.mutate shard effect next).1 <;> rfl

variable [SipHasher]

theorem dispatch_mapLog (cmd : Command) (now : Now) :
    (state.mapLog read).dispatch shard cmd now =
      ((state.dispatch shard cmd now).1, (state.dispatch shard cmd now).2.mapLog read) := by
  have same : (state.mapLog read).dict = state.dict := rfl
  rw [dispatch_eq_run, dispatch_eq_run, same]
  cases cmd.decide now state.dict with
  | answers | touches => rfl
  | mutates mutation reply => exact answer_mutate_mapLog reads state shard _ _ reply

theorem evictIfExpired_mapLog (key : Bytes) (instant : Nat) :
    (state.mapLog read).evictIfExpired shard key instant =
      ((state.evictIfExpired shard key instant).1,
        (state.evictIfExpired shard key instant).2.mapLog read) := by
  have same : (state.mapLog read).dict = state.dict := rfl
  unfold evictIfExpired
  rw [same, mutate_mapLog reads]
  split
  · cases state.mutate shard (.del key) (state.dict.remove key).2 with
    | mk taken after => cases taken <;> rfl
  · rfl

/-- A command sees no more of the log than the records it took. -/
theorem apply_mapLog (cmd : Command) (now : Now) :
    (state.mapLog read).apply shard cmd now =
      ((state.apply shard cmd now).1, (state.apply shard cmd now).2.mapLog read) := by
  unfold apply
  cases cmd.route with
  | key key =>
    have refusing : (state.mapLog read).refusing = state.refusing := rfl
    dsimp only
    rw [refusing]
    split
    · exact dispatch_mapLog reads { state with dict := _, expired := _ } shard cmd now
    · rw [evictIfExpired_mapLog reads]
      cases state.evictIfExpired shard key now.instant with
      | mk reclaimed after =>
        cases reclaimed with
        | none => rfl
        | some reclaimed =>
          exact dispatch_mapLog reads
            { after with expired := after.expired + reclaimed.toNat } shard cmd now
  | every | unaddressed => exact dispatch_mapLog reads state shard cmd now

end

/-- A `FileLog` takes every record. -/
theorem readsAs_journal : ReadsAs FileLog.journal :=
  fun _ _ => rfl

section

variable {L : Type} [ReplicationLog L] {state : ShardState L} {shard : Nat} {now : Now}

variable [SipHasher]

theorem available_decide (dict : Dict) (cmd : Command) :
    (cmd.decide now dict).reply ≠ .error .shardUnavailable := by
  cases cmd <;>
    simp only [Command.decide, SetArgs.decide, SpanDeadline.decide, incrDecide, ttlReply,
      Seedstone.scanStep] <;> (repeat' split) <;> simp [Decision.reply]

theorem dispatch_available (cmd : Command) :
    (state.dispatch shard cmd now).1 ≠ .error .shardUnavailable := by
  have available : (cmd.decide now state.dict).reply ≠ .error .shardUnavailable :=
    available_decide _ cmd
  rw [dispatch_eq_run]
  generalize cmd.decide now state.dict = decision at available
  cases decision with
  | answers | touches => exact available
  | mutates mutation reply =>
    unfold Decision.run answer
    dsimp only
    split
    · exact available
    · simp

theorem apply_available (cmd : Command) :
    (state.apply shard cmd now).1 ≠ .error .shardUnavailable := by
  have applied : Applied shard cmd now state _ := state.applied cmd
  generalize state.apply shard cmd now = outcome at applied
  cases applied with
  | refused key lost => simp
  | fresh | forgot | evicted => exact dispatch_available cmd

end

end ShardState

end Seedstone
