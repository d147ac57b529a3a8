import Seedstone.Service.KeyspaceWalk
import Mathlib.Data.List.Destutter

/-!
# KEYS is complete or an error

`KEYS` walks every shard at once, each walk woken in whatever order its answers
come, with other clients' commands in between.  What is kept while the walks are
under way: a walk that goes on has every key that stays behind its cursor, one
that has ended has them all, and one has ended with an error exactly when some
shard did not answer or the gathered bytes passed the ceiling.
-/

namespace Seedstone.Service

variable {walks : List KeysWalk} {shard : Nat} {cursor next : Cursor} {walk : KeysWalk}

open ReverseBinary

theorem bytesLe_iff {first second : Bytes} : bytesLe first second = true ↔ first ≤ second := by
  induction first generalizing second with
  | nil => simp [bytesLe]
  | cons head tail induction =>
    cases second with
    | nil => simp [bytesLe]
    | cons other others =>
      rw [List.cons_le_cons_iff, ← induction]
      simp [bytesLe]

theorem mem_destutter_ne (keys : List Bytes) (key : Bytes) :
    key ∈ keys.destutter (· ≠ ·) ↔ key ∈ keys := by
  cases keys with
  | nil => rfl
  | cons first rest =>
    rw [List.destutter_cons']
    induction rest generalizing first with
    | nil => rfl
    | cons second rest induction =>
      by_cases different : first ≠ second
      · rw [List.destutter'_cons_pos _ different, List.mem_cons, induction second,
          List.mem_cons (b := first)]
      · rw [List.destutter'_cons_neg _ different, induction first]
        rw [not_not] at different
        subst different
        simp

theorem mem_sortDedup (keys : List Bytes) (key : Bytes) : key ∈ sortDedup keys ↔ key ∈ keys := by
  unfold sortDedup
  rw [mem_destutter_ne, List.mem_mergeSort]

theorem nodup_of_sorted {keys : List Bytes}
    (sorted : keys.Pairwise (fun first second => bytesLe first second = true))
    (apart : keys.IsChain (· ≠ ·)) : keys.Nodup := by
  induction keys with
  | nil => exact List.nodup_nil
  | cons first rest induction =>
    cases rest with
    | nil => exact List.nodup_singleton first
    | cons second rest =>
      obtain ⟨below, later⟩ := List.pairwise_cons.mp sorted
      rw [List.isChain_cons_cons] at apart
      refine List.nodup_cons.mpr ⟨?_, induction later apart.2⟩
      intro member
      rcases List.mem_cons.mp member with same | further
      · exact apart.1 same
      · have above := (List.pairwise_cons.mp later).1 first further
        exact apart.1 (List.le_antisymm (bytesLe_iff.mp (below second (by simp)))
          (bytesLe_iff.mp above))

theorem nodup_sortDedup (keys : List Bytes) : (sortDedup keys).Nodup := by
  have sorted : (keys.mergeSort bytesLe).Pairwise fun first second =>
      bytesLe first second = true := by
    apply List.pairwise_mergeSort
    · intro first second third one two
      exact bytesLe_iff.mpr (List.le_trans (bytesLe_iff.mp one) (bytesLe_iff.mp two))
    · intro first second
      rw [Bool.or_eq_true, bytesLe_iff, bytesLe_iff]
      exact List.le_total first second
  exact nodup_of_sorted (sorted.sublist (List.destutter_sublist _ _)) (List.isChain_destutter _ _)

/-- A node as the walks meet it: its shards, and whose answer comes next. -/
structure KeysWorld (L : Type) where
  terrain : Terrain L
  wakes : List Nat

/-- The keys of an answered step. -/
def Sent.keys (sent : Sent) : Option (List Bytes) :=
  match sent.reply with
  | .scan _ keys _ => some keys
  | _ => none

def byteCount (keys : List Bytes) : Nat :=
  (keys.map List.length).sum

/-- The bytes all steps together have gathered. -/
def gatheredBytes (sent : List Sent) : Nat :=
  (sent.map fun one => byteCount (one.keys.getD [])).sum

/-- What a walk makes of the answer to its step, and the total it leaves. -/
def heard (ceiling gathered : Nat) (found : List Bytes) (reply : Reply) : KeysWalk × Nat :=
  match reply with
  | .scan next keys _ =>
    let total := gathered + byteCount keys
    if ceiling < total then
      (.ended (.error .tooLarge), total)
    else if next = 0 then
      (.ended (.ok (found ++ keys)), total)
    else
      (.running next (found ++ keys), total)
  | .error error => (.ended (.error (.shard error)), gathered)
  | _ => (.ended (.error (.shard .shardUnavailable)), gathered)

theorem keysStep_eq (pattern : Bytes) (ceiling shard gathered : Nat) (cursor : Cursor)
    (found : List Bytes) :
    keysStep pattern ceiling shard gathered cursor found =
      ask (.dispatchAt shard (.scanStep cursor walkStepBuckets (some pattern))) >>=
        fun reply => pure (heard ceiling gathered found reply) := by
  unfold keysStep
  congr 1
  funext reply
  unfold heard byteCount
  cases reply with
  | scan next keys visited =>
    dsimp only
    split
    · rfl
    · split <;> rfl
  | _ => rfl

theorem heard_cases (ceiling gathered : Nat) (found : List Bytes) (next : Cursor)
    (keys : List Bytes) (visited : Nat) :
    (ceiling < gathered + byteCount keys ∧
        heard ceiling gathered found (.scan next keys visited) =
          (.ended (.error .tooLarge), gathered + byteCount keys)) ∨
      (gathered + byteCount keys ≤ ceiling ∧ next = 0 ∧
        heard ceiling gathered found (.scan next keys visited) =
          (.ended (.ok (found ++ keys)), gathered + byteCount keys)) ∨
      (gathered + byteCount keys ≤ ceiling ∧ next ≠ 0 ∧
        heard ceiling gathered found (.scan next keys visited) =
          (.running next (found ++ keys), gathered + byteCount keys)) := by
  unfold heard
  dsimp only
  split
  · next overrun => exact Or.inl ⟨overrun, rfl⟩
  · next under =>
      split
      · next ended => exact Or.inr (Or.inl ⟨Nat.le_of_not_lt under, ended, rfl⟩)
      · next more => exact Or.inr (Or.inr ⟨Nat.le_of_not_lt under, more, rfl⟩)

theorem mem_waitingWalks {found : List Bytes} :
    (shard, cursor, found) ∈ waitingWalks walks ↔ walks[shard]? = some (.running cursor found) := by
  unfold waitingWalks
  rw [List.mem_filterMap]
  constructor
  · rintro ⟨⟨walk, index⟩, member, same⟩
    rw [List.mem_zipIdx_iff_getElem?] at member
    cases walk with
    | running place keys =>
      simp only [Option.some.injEq, Prod.mk.injEq] at same
      obtain ⟨rfl, rfl, rfl⟩ := same
      exact member
    | ended outcome => simp at same
  · intro held
    exact ⟨(.running cursor found, shard), List.mem_zipIdx_iff_getElem?.mpr held, rfl⟩

theorem joinWalks_spec (ended : waitingWalks walks = []) :
    (∃ founds : List (List Bytes), walks = founds.map (fun found => .ended (.ok found)) ∧
        joinWalks walks = .ok founds.flatten) ∨
      ((∃ stop, KeysWalk.ended (.error stop) ∈ walks) ∧
        ∃ text, joinWalks walks = .error (.error text)) := by
  have overrun : ∀ walk ∈ walks, ∀ cursor found, walk ≠ .running cursor found := by
    rintro walk member cursor found rfl
    obtain ⟨shard, held⟩ := List.mem_iff_getElem?.mp member
    have waits := mem_waitingWalks.mpr held
    rw [ended] at waits
    simp at waits
  clear ended
  induction walks with
  | nil => exact Or.inl ⟨[], rfl, rfl⟩
  | cons walk walks induction =>
    have rest := induction (fun other member => overrun other (List.mem_cons_of_mem _ member))
    cases walk with
    | running cursor found => exact absurd rfl (overrun _ List.mem_cons_self cursor found)
    | ended outcome =>
      cases outcome with
      | error stop =>
        refine Or.inr ⟨⟨stop, List.mem_cons_self⟩, ?_⟩
        cases stop with
        | shard error => exact ⟨_, rfl⟩
        | tooLarge => exact ⟨_, rfl⟩
      | ok found =>
        rcases rest with ⟨founds, same, joined⟩ | ⟨⟨stop, member⟩, text, joined⟩
        · refine Or.inl ⟨found :: founds, by rw [same]; rfl, ?_⟩
          simp only [joinWalks, joined, List.flatten_cons]
        · refine Or.inr ⟨⟨stop, List.mem_cons_of_mem _ member⟩, text, ?_⟩
          simp only [joinWalks, joined]

theorem mem_set_iff {before after : KeysWalk} (held : walks[shard]? = some before)
    (other : walk ≠ before) (different : walk ≠ after) :
    walk ∈ walks.set shard after ↔ walk ∈ walks := by
  rw [List.mem_iff_getElem?, List.mem_iff_getElem?]
  constructor
  · rintro ⟨index, found⟩
    rw [List.getElem?_set] at found
    split at found
    · split at found
      · exact absurd (Option.some.inj found).symm different
      · simp at found
    · exact ⟨index, found⟩
  · rintro ⟨index, found⟩
    refine ⟨index, ?_⟩
    rw [List.getElem?_set]
    split
    · next same =>
        rw [← same, held] at found
        exact absurd (Option.some.inj found).symm other
    · exact found

theorem gatheredBytes_append (sent : List Sent) (one : Sent) :
    gatheredBytes (sent ++ [one]) = gatheredBytes sent + byteCount (one.keys.getD []) := by
  simp [gatheredBytes]

theorem getD_mem {α : Type} (first : α) (others : List α) (index : Nat) :
    (first :: others).getD index first ∈ first :: others := by
  rw [List.getD_eq_getElem?_getD]
  cases found : (first :: others)[index]? with
  | none => simp
  | some chosen => exact List.mem_of_getElem? found

/-- The calls a walk may still make. -/
def KeysWalk.left : KeysWalk → Nat
  | .running cursor _ => 2 ^ 64 - rank cursor
  | .ended _ => 0

def remaining (walks : List KeysWalk) : Nat :=
  (walks.map KeysWalk.left).sum

theorem remaining_set {before : KeysWalk} (held : walks[shard]? = some before) (after : KeysWalk) :
    remaining (walks.set shard after) + before.left = remaining walks + after.left := by
  induction walks generalizing shard with
  | nil => simp at held
  | cons walk walks induction =>
    cases shard with
    | zero =>
      obtain rfl : walk = before := by simpa using held
      simp only [remaining, List.set_cons_zero, List.map_cons, List.sum_cons]
      omega
    | succ shard =>
      have later : walks[shard]? = some before := by simpa using held
      have rest := induction later
      simp only [remaining, List.set_cons_succ, List.map_cons, List.sum_cons] at rest ⊢
      omega

theorem remaining_replicate (shards : Nat) :
    remaining (List.replicate shards (.running 0 [])) = keysTurns shards := by
  have zero : (KeysWalk.running 0 []).left = 18446744073709551616 := by
    simp only [KeysWalk.left]
    rw [(rank_eq_zero_iff 0).mpr rfl]
    rfl
  unfold remaining keysTurns
  rw [List.map_replicate, List.sum_replicate, zero, Nat.nsmul_eq_mul, Nat.mul_comm]

section

variable {L : Type} [ReplicationLog L] [SipHasher] {pattern : Bytes}

namespace KeysWorld

def handle (question : Ask) (world : KeysWorld L) : question.Answer × KeysWorld L :=
  match question with
  | .wake _ => (world.wakes.headD 0, { world with wakes := world.wakes.tail })
  | other =>
    let (answer, terrain) := world.terrain.handle nothingElse other
    (answer, { world with terrain := terrain })

/-- The node once a walk's step was answered. -/
def answered (world : KeysWorld L) (shard : Nat) (cmd : Command) : KeysWorld L :=
  ⟨world.terrain.send shard cmd, world.wakes.tail⟩

end KeysWorld

/-- A turn of the loop: no walk is waiting, or one of those that are makes its
step. -/
theorem run_keysLoop_succ (pattern : Bytes) (ceiling turns : Nat) (walks : List KeysWalk)
    (gathered : Nat) (world : KeysWorld L) :
    (waitingWalks walks = [] ∧
        (keysLoop pattern ceiling (turns + 1) walks gathered).run KeysWorld.handle world =
          (walks, world)) ∨ ∃ shard cursor found, walks[shard]? = some (.running cursor found) ∧
        let step := Command.scanStep cursor walkStepBuckets (some pattern)
        let outcome := heard ceiling gathered found (world.terrain.serve shard step).1
        (keysLoop pattern ceiling (turns + 1) walks gathered).run KeysWorld.handle world =
          (keysLoop pattern ceiling turns (walks.set shard outcome.1) outcome.2).run
            KeysWorld.handle (world.answered shard step) := by
  rw [keysLoop]
  cases waiting : waitingWalks walks with
  | nil => exact Or.inl ⟨rfl, rfl⟩
  | cons first others =>
    have chosen := getD_mem first others (world.wakes.headD 0)
    rw [← waiting] at chosen
    refine Or.inr ⟨_, _, _, mem_waitingWalks.mp chosen, ?_⟩
    rw [waiting]
    simp only [keysStep_eq]
    rfl

/-- What a shard's answer to a step is worth to a walk at `cursor`. -/
structure Reports (dict : Dict) (pattern : Bytes) (instant : Nat) (cursor next : Cursor)
    (keys : List Bytes) : Prop where
  live : ∀ key ∈ keys, dict.live instant key ≠ none
  wanted : ∀ key ∈ keys, Glob.isMatch pattern key = true
  complete : ∀ key, dict.Ahead cursor key → dict.live instant key ≠ none →
    Glob.isMatch pattern key = true → key ∈ keys ∨ (next ≠ 0 ∧ dict.Ahead next key)
  advances : next = 0 ∨ rank cursor < rank next

theorem scanStep_reports {dict : Dict} (valid : dict.Valid) (cursor : Cursor) (count : Nat)
    (pattern : Bytes) (instant : Nat) :
    ∃ next keys visited,
      scanStep dict cursor count (some pattern) instant = .scan next keys visited ∧
        Reports dict pattern instant cursor next keys := by
  obtain ⟨budget, least⟩ : ∃ budget, max count 1 = budget + 1 := ⟨max count 1 - 1, by omega⟩
  have answer := scanAnswer_scanLoop valid (some pattern) instant budget cursor
  have advanced := scanLoop_advances valid (some pattern) instant budget cursor
  refine ⟨_, _, _, rfl, ?_⟩
  rw [least]
  exact {
    live := fun key member => ShardState.live_of_mem_scanLoop valid (budget + 1) cursor member
    wanted := fun key member => wanted_of_mem_scanLoop (budget + 1) cursor member
    complete := answer.reported
    advances := advanced }

theorem left_heard {dict : Dict} {instant : Nat} {keys : List Bytes}
    (reports : Reports dict pattern instant cursor next keys) (ceiling gathered : Nat)
    (found : List Bytes) (visited : Nat) :
    (heard ceiling gathered found (.scan next keys visited)).1.left <
      (KeysWalk.running cursor found).left := by
  have bound := rank_lt cursor
  rcases heard_cases ceiling gathered found next keys visited with
    ⟨-, same⟩ | ⟨-, -, same⟩ | ⟨-, more, same⟩
  · rw [same]
    simp only [KeysWalk.left]
    omega
  · rw [same]
    simp only [KeysWalk.left]
    omega
  · rcases reports.advances with zero | further
    · exact absurd zero more
    · have above := rank_lt next
      rw [same]
      simp only [KeysWalk.left]
      omega

/-- A step of the walk reported the key, from a shard that held it live. -/
def Seen (pattern : Bytes) (terrain : Terrain L) (key : Bytes) : Prop :=
  ∃ sent ∈ terrain.sent, ∃ keys, sent.keys = some keys ∧ key ∈ keys ∧
    ∃ moment ∈ terrain.moments, ∃ state, moment.2[sent.shard]? = some state ∧
      state.dict.live moment.1.instant key ≠ none ∧
      ∃ cursor, sent.cmd = .scanStep cursor walkStepBuckets (some pattern) ∧
        sent.reply = scanStep state.dict cursor walkStepBuckets (some pattern) moment.1.instant

/-- Where the walk of a shard stands. -/
def Standing (pattern : Bytes) (terrain : Terrain L) (shard : Nat) : KeysWalk → Prop
  | .running cursor found =>
    (∀ key ∈ found, Glob.isMatch pattern key = true ∧ Seen pattern terrain key) ∧
      ∀ key, Glob.isMatch pattern key = true → terrain.LiveThroughout shard key →
        key ∈ found ∨ terrain.AheadAt shard cursor key
  | .ended (.ok found) =>
    (∀ key ∈ found, Glob.isMatch pattern key = true ∧ Seen pattern terrain key) ∧
      ∀ key, Glob.isMatch pattern key = true → terrain.LiveThroughout shard key →
        key ∈ found
  | .ended (.error _) => True

/-- What is kept while the walks are under way. -/
structure KeysProgress (pattern : Bytes) (ceiling : Nat) (walks : List KeysWalk)
    (gathered : Nat) (terrain : Terrain L) : Prop where
  sound : terrain.Sound
  length : walks.length = terrain.shards.length
  standing : ∀ shard walk, walks[shard]? = some walk → Standing pattern terrain shard walk
  total : gathered = gatheredBytes terrain.sent
  failed : ((∃ sent ∈ terrain.sent, sent.keys = none) ∨ ceiling < gathered) ↔
    ∃ stop, KeysWalk.ended (.error stop) ∈ walks

omit [ReplicationLog L] in
theorem Seen.later {before after : Terrain L} {key : Bytes}
    (seen : Seen pattern before key) (moments : before.moments <+: after.moments)
    (sent : before.sent <+: after.sent) : Seen pattern after key := by
  obtain ⟨one, member, keys, reported, inside, moment, at_, rest⟩ := seen
  exact ⟨one, sent.subset member, keys, reported, inside, moment, moments.subset at_, rest⟩

omit [ReplicationLog L] in
theorem Standing.later {before after : Terrain L}
    (standing : Standing pattern before shard walk) (sound : before.Sound)
    (follows : before.Follows after) (sent : before.sent <+: after.sent) :
    Standing pattern after shard walk := by
  have kept : ∀ found : List Bytes,
      (∀ key ∈ found, Glob.isMatch pattern key = true ∧ Seen pattern before key) →
      ∀ key ∈ found, Glob.isMatch pattern key = true ∧ Seen pattern after key :=
    fun found seen key member => ⟨(seen key member).1,
      (seen key member).2.later follows.moments sent⟩
  cases walk with
  | running cursor found =>
    obtain ⟨seen, covered⟩ := standing
    refine ⟨kept found seen, ?_⟩
    intro key wanted live
    exact (covered key wanted (live.earlier follows.moments)).imp_right (follows.ahead sound live)
  | ended outcome =>
    cases outcome with
    | error stop => trivial
    | ok found =>
      obtain ⟨seen, covered⟩ := standing
      exact ⟨kept found seen,
        fun key wanted live => covered key wanted (live.earlier follows.moments)⟩

omit [ReplicationLog L] in
theorem Standing.answered {terrain : Terrain L} {one : Sent} {found keys : List Bytes}
    {visited : Nat} (standing : Standing pattern terrain one.shard (.running cursor found))
    {state : ShardState L} {now : Now} (there : terrain.shards[one.shard]? = some state)
    (moment : (now, terrain.shards) ∈ terrain.moments) (sent : one ∈ terrain.sent)
    (cmd : one.cmd = .scanStep cursor walkStepBuckets (some pattern))
    (reply : one.reply = scanStep state.dict cursor walkStepBuckets (some pattern) now.instant)
    (shape : one.reply = .scan next keys visited)
    (reports : Reports state.dict pattern now.instant cursor next keys) (ceiling gathered : Nat) :
    Standing pattern terrain one.shard
      (heard ceiling gathered found (.scan next keys visited)).1 := by
  obtain ⟨seen, covered⟩ := standing
  have carried : one.keys = some keys := by
    unfold Sent.keys
    rw [shape]
  have reported : ∀ key ∈ found ++ keys,
      Glob.isMatch pattern key = true ∧ Seen pattern terrain key := by
    intro key member
    rcases List.mem_append.mp member with before | fresh
    · exact seen key before
    · exact ⟨reports.wanted key fresh, one, sent, keys, carried, fresh, _, moment, state,
        there, reports.live key fresh, cursor, cmd, reply⟩
  have kept : ∀ key, Glob.isMatch pattern key = true → terrain.LiveThroughout one.shard key →
      key ∈ found ++ keys ∨ (next ≠ 0 ∧ terrain.AheadAt one.shard next key) :=
    fun key matched alive => Terrain.returned_or_ahead there moment
      (fun ahead live => reports.complete key ahead live matched) alive (covered key matched alive)
  rcases heard_cases ceiling gathered found next keys visited with
    ⟨-, same⟩ | ⟨-, ended, same⟩ | ⟨-, -, same⟩
  · rw [same]
    trivial
  · rw [same]
    refine ⟨reported, fun key matched alive => ?_⟩
    rcases kept key matched alive with here | ⟨more, -⟩
    · exact here
    · exact absurd ended more
  · rw [same]
    exact ⟨reported, fun key matched alive => (kept key matched alive).imp_right And.right⟩

section Turn

variable {pattern : Bytes} {ceiling gathered : Nat} {walks : List KeysWalk}
  {terrain after : Terrain L} {shard : Nat} {cursor : Cursor} {found : List Bytes}

variable (progress : KeysProgress pattern ceiling walks gathered terrain)

include progress

omit [ReplicationLog L] in
theorem KeysProgress.replace (follows : terrain.Follows after)
    (onward : terrain.sent <+: after.sent) (here : Standing pattern after shard walk)
    {total : Nat} (counted : total = gatheredBytes after.sent)
    (failed : ((∃ sent ∈ after.sent, sent.keys = none) ∨ ceiling < total) ↔
      ∃ stop, KeysWalk.ended (.error stop) ∈ walks.set shard walk) :
    KeysProgress pattern ceiling (walks.set shard walk) total after where
  sound := follows.sound progress.sound
  length := by
    rw [List.length_set, follows.shards]
    exact progress.length
  standing := by
    intro other stood there
    rw [List.getElem?_set] at there
    by_cases same : shard = other
    · rw [if_pos same] at there
      split at there
      · rw [← same, ← Option.some.inj there]
        exact here
      · simp at there
    · rw [if_neg same] at there
      exact (progress.standing other stood there).later progress.sound follows onward
  total := counted
  failed := failed

variable (held : walks[shard]? = some (.running cursor found))

include held

theorem KeysProgress.refused {step : Command} {error : ReplyError}
    (reply : (terrain.serve shard step).1 = .error error) :
    KeysProgress pattern ceiling
      (walks.set shard (heard ceiling gathered found (terrain.serve shard step).1).1)
      (heard ceiling gathered found (terrain.serve shard step).1).2 (terrain.send shard step) := by
  have sent := terrain.sent_send shard step
  rw [reply] at sent ⊢
  have inside : shard < walks.length := (List.getElem?_eq_some_iff.mp held).1
  have onward : terrain.sent <+: (terrain.send shard step).sent := by
    rw [sent]
    exact List.prefix_append _ _
  have stopped : Standing pattern (terrain.send shard step) shard
      (.ended (.error (.shard error))) := trivial
  refine progress.replace (terrain.follows_send shard step) onward stopped ?_ ?_
  · rw [sent, gatheredBytes_append, ← progress.total]
    rfl
  · refine ⟨fun _ => ⟨.shard error, List.mem_set inside _⟩, fun _ => Or.inl ?_⟩
    refine ⟨⟨shard, step, .error error⟩, ?_, rfl⟩
    rw [sent]
    exact List.mem_append_right _ List.mem_cons_self

theorem KeysProgress.answered {state : ShardState L} {now : Now} {step : Command}
    (asked : step = .scanStep cursor walkStepBuckets (some pattern))
    (there : (terrain.send shard step).shards[shard]? = some state)
    (moment : (now, (terrain.send shard step).shards) ∈ (terrain.send shard step).moments)
    (reply : (terrain.serve shard step).1 =
      scanStep state.dict cursor walkStepBuckets (some pattern) now.instant)
    {keys : List Bytes} {visited : Nat}
    (shape : (terrain.serve shard step).1 = .scan next keys visited)
    (reports : Reports state.dict pattern now.instant cursor next keys) :
    KeysProgress pattern ceiling
      (walks.set shard (heard ceiling gathered found (terrain.serve shard step).1).1)
      (heard ceiling gathered found (terrain.serve shard step).1).2 (terrain.send shard step) := by
  have sent := terrain.sent_send shard step
  rw [shape] at sent ⊢
  have follows := terrain.follows_send shard step
  have inside : shard < walks.length := (List.getElem?_eq_some_iff.mp held).1
  have onward : terrain.sent <+: (terrain.send shard step).sent := by
    rw [sent]
    exact List.prefix_append _ _
  have member : ⟨shard, step, .scan next keys visited⟩ ∈ (terrain.send shard step).sent := by
    rw [sent]
    exact List.mem_append_right _ List.mem_cons_self
  have stood := (progress.standing shard _ held).later progress.sound follows onward
  have here : Standing pattern (terrain.send shard step) shard
      (heard ceiling gathered found (.scan next keys visited)).1 :=
    Standing.answered stood there moment member asked (shape.symm.trans reply) rfl reports
      ceiling gathered
  have counted : gatheredBytes (terrain.send shard step).sent = gathered + byteCount keys := by
    rw [sent, gatheredBytes_append, ← progress.total]
    rfl
  have missing : (∃ sent ∈ (terrain.send shard step).sent, sent.keys = none) ↔
      ∃ sent ∈ terrain.sent, sent.keys = none := by
    rw [sent]
    simp [Sent.keys]
  -- Only a walk that passes the ceiling ends in an error here.
  have kept : ∀ walk, (∀ stop, walk ≠ .ended (.error stop)) → gathered + byteCount keys ≤ ceiling →
      (((∃ sent ∈ (terrain.send shard step).sent, sent.keys = none) ∨
          ceiling < gathered + byteCount keys) ↔
        ∃ stop, KeysWalk.ended (.error stop) ∈ walks.set shard walk) := by
    intro walk goes under
    have before := progress.failed
    rw [missing]
    have unchanged : (∃ stop, KeysWalk.ended (.error stop) ∈ walks.set shard walk) ↔
        ∃ stop, KeysWalk.ended (.error stop) ∈ walks :=
      exists_congr fun stop =>
        mem_set_iff held (by simp) (fun same => goes stop same.symm)
    rw [unchanged, ← before]
    constructor
    · rintro (lost | last)
      · exact Or.inl lost
      · omega
    · rintro (lost | last)
      · exact Or.inl lost
      · omega
  rcases heard_cases ceiling gathered found next keys visited with
    ⟨overrun, same⟩ | ⟨under, -, same⟩ | ⟨under, -, same⟩
  · rw [same] at here ⊢
    exact progress.replace follows onward here counted.symm
      ⟨fun _ => ⟨_, List.mem_set inside _⟩, fun _ => Or.inr overrun⟩
  · rw [same] at here ⊢
    exact progress.replace follows onward here counted.symm (kept _ (by simp) under)
  · rw [same] at here ⊢
    exact progress.replace follows onward here counted.symm (kept _ (by simp) under)

/-- One turn: the walk that was woken makes its step, and is one call nearer to
its end. -/
theorem KeysProgress.turn :
    let step := Command.scanStep cursor walkStepBuckets (some pattern)
    let outcome := heard ceiling gathered found (terrain.serve shard step).1
    KeysProgress pattern ceiling (walks.set shard outcome.1) outcome.2 (terrain.send shard step) ∧
      remaining (walks.set shard outcome.1) < remaining walks := by
  intro step outcome
  have spent := remaining_set held outcome.1
  rcases Terrain.serve_scanStep_cases progress.sound shard walkStepBuckets cursor
    (some pattern) with ⟨error, refused⟩ | ⟨state, now, there, moment, sound, reply⟩
  · refine ⟨progress.refused held refused, ?_⟩
    have stopped : outcome.1.left = 0 := by
      simp only [outcome, step, refused]
      rfl
    have going : 0 < (KeysWalk.running cursor found).left := Nat.sub_pos_of_lt (rank_lt cursor)
    omega
  · obtain ⟨next, keys, visited, shape, reports⟩ := scanStep_reports sound.toValid cursor
      walkStepBuckets pattern now.instant
    refine ⟨progress.answered held rfl there moment reply (reply.trans shape) reports, ?_⟩
    have less := left_heard reports ceiling gathered found visited
    rw [← shape, ← reply] at less
    change outcome.1.left < _ at less
    omega

end Turn

omit [ReplicationLog L] in
theorem keysProgress_start (pattern : Bytes) (ceiling : Nat) {shards : List (ShardState L)}
    (sound : ∀ state ∈ shards, state.dict.Sound) (upcoming : List Interlude) :
    KeysProgress pattern ceiling (List.replicate shards.length (.running 0 [])) 0
      (.start shards upcoming) where
  sound := sound
  length := List.length_replicate
  standing := by
    intro shard walk held
    rw [List.getElem?_replicate] at held
    split at held
    · next inside =>
        rw [← Option.some.inj held]
        refine ⟨by simp, fun key _ _ => Or.inr ?_⟩
        have valid := (sound _ (List.getElem_mem inside)).toValid
        exact ⟨shards[shard], List.getElem?_eq_getElem inside, Dict.ahead_zero valid key⟩
    · simp at held
  total := rfl
  failed := by
    simp [Terrain.start, List.mem_replicate]

/-- With as many turns as the walks have calls left, every walk ends. -/
theorem run_keysLoop {ceiling : Nat} (turns : Nat) {gathered : Nat} (world : KeysWorld L)
    (progress : KeysProgress pattern ceiling walks gathered world.terrain)
    (enough : remaining walks ≤ turns) :
    let result := (keysLoop pattern ceiling turns walks gathered).run KeysWorld.handle world
    result.1.length = walks.length ∧ waitingWalks result.1 = [] ∧
      ∃ total, KeysProgress pattern ceiling result.1 total result.2.terrain := by
  induction turns generalizing walks gathered world with
  | zero =>
    refine ⟨rfl, ?_, gathered, progress⟩
    show waitingWalks walks = []
    rw [List.eq_nil_iff_forall_not_mem]
    rintro ⟨shard, cursor, found⟩ member
    have held := mem_waitingWalks.mp member
    have spent := remaining_set held (.ended (.ok []))
    have going : 0 < (KeysWalk.running cursor found).left := Nat.sub_pos_of_lt (rank_lt cursor)
    have overrun : (KeysWalk.ended (.ok [])).left = 0 := rfl
    omega
  | succ turns induction =>
    rcases run_keysLoop_succ pattern ceiling turns walks gathered world with
      ⟨waiting, same⟩ | ⟨shard, cursor, found, held, same⟩
    · rw [same]
      exact ⟨rfl, waiting, gathered, progress⟩
    · obtain ⟨onward, less⟩ := progress.turn held
      rw [same]
      have rest := induction (world.answered shard _) onward (by omega)
      rw [List.length_set] at rest
      exact rest

/-- What `KEYS` answers once its walks are joined. -/
def keysFrame : Except Frame (List Bytes) → Frame
  | .error frame => frame
  | .ok all => .array ((sortDedup all).map .bulk)

theorem run_keys (pattern : Bytes) (ceiling : Nat) (world : KeysWorld L) :
    (keys pattern ceiling).run KeysWorld.handle world =
      let walked := (keysLoop pattern ceiling (keysTurns world.terrain.shards.length)
        (List.replicate world.terrain.shards.length (.running 0 [])) 0).run KeysWorld.handle world
      (keysFrame (joinWalks walked.1), walked.2) := by
  unfold keys
  rw [run_ask_bind, Program.run_bind]
  dsimp only [KeysWorld.handle, Terrain.handle]
  cases joinWalks _ <;> rfl

omit [ReplicationLog L] in
theorem keysFrame_spec {ceiling total : Nat} {terrain : Terrain L}
    (progress : KeysProgress pattern ceiling walks total terrain)
    (ended : waitingWalks walks = []) :
    (∀ entries, keysFrame (joinWalks walks) = .array entries →
      ∃ all : List Bytes, entries = all.map .bulk ∧ all.Nodup ∧
        (∀ shard key, shard < walks.length → Glob.isMatch pattern key = true →
          terrain.LiveThroughout shard key → key ∈ all) ∧
        ∀ key ∈ all, Glob.isMatch pattern key = true ∧ Seen pattern terrain key) ∧
      (((∃ sent ∈ terrain.sent, sent.keys = none) ∨ ceiling < gatheredBytes terrain.sent) ↔
        ∃ text, keysFrame (joinWalks walks) = .error text) ∧
      ((∃ entries, keysFrame (joinWalks walks) = .array entries) ∨
        ∃ text, keysFrame (joinWalks walks) = .error text) := by
  rw [← progress.total, progress.failed]
  rcases joinWalks_spec ended with ⟨founds, same, joined⟩ | ⟨stopped, text, joined⟩
  · have served : ¬ ∃ stop, KeysWalk.ended (.error stop) ∈ walks := by
      rw [same]
      simp
    have answer : keysFrame (joinWalks walks) = .array ((sortDedup founds.flatten).map .bulk) := by
      rw [joined]
      rfl
    have standing : ∀ shard found, founds[shard]? = some found →
        Standing pattern terrain shard (.ended (.ok found)) := by
      intro shard found there
      apply progress.standing
      rw [same, List.getElem?_map, there]
      rfl
    refine ⟨?_, ⟨fun stopped => absurd stopped served, ?_⟩, Or.inl ⟨_, answer⟩⟩
    · intro entries array
      rw [answer, Frame.array.injEq] at array
      refine ⟨_, array.symm, nodup_sortDedup _, ?_, ?_⟩
      · intro shard key inside matched live
        rw [same, List.length_map] at inside
        rw [mem_sortDedup, List.mem_flatten]
        exact ⟨_, List.getElem_mem inside,
          (standing shard _ (List.getElem?_eq_getElem inside)).2 key matched live⟩
      · intro key member
        rw [mem_sortDedup, List.mem_flatten] at member
        obtain ⟨found, member, inside⟩ := member
        obtain ⟨shard, there⟩ := List.mem_iff_getElem?.mp member
        exact (standing shard found there).1 key inside
    · rintro ⟨text, error⟩
      rw [answer] at error
      simp at error
  · have answer : keysFrame (joinWalks walks) = .error text := by
      rw [joined]
      rfl
    refine ⟨?_, ⟨fun _ => ⟨text, answer⟩, fun _ => stopped⟩, Or.inr ⟨text, answer⟩⟩
    intro entries array
    rw [answer] at array
    simp at array

/-- `KEYS` on any node, whatever other clients do between the steps of its walks
and in whatever order the walks are woken.  An array holds every matching key
that was live throughout, only matching keys that some step met live, and none
of them twice; and the answer is an error exactly when a step was not answered or
the gathered bytes passed the ceiling, and otherwise an array. -/
theorem keys_complete_or_error (pattern : Bytes) (ceiling : Nat)
    (shards : List (ShardState L)) (upcoming : List Interlude) (wakes : List Nat)
    (sound : ∀ state ∈ shards, state.dict.Sound) :
    let result := (keys pattern ceiling).run KeysWorld.handle ⟨.start shards upcoming, wakes⟩
    let terrain := result.2.terrain
    (∀ entries, result.1 = .array entries →
      ∃ all : List Bytes, entries = all.map .bulk ∧ all.Nodup ∧
        (∀ shard key, shard < shards.length → Glob.isMatch pattern key = true →
          terrain.LiveThroughout shard key → key ∈ all) ∧
        ∀ key ∈ all, Glob.isMatch pattern key = true ∧ Seen pattern terrain key) ∧
      (((∃ sent ∈ terrain.sent, sent.keys = none) ∨ ceiling < gatheredBytes terrain.sent) ↔
        ∃ text, result.1 = .error text) ∧
      ((∃ entries, result.1 = .array entries) ∨ ∃ text, result.1 = .error text) := by
  dsimp only
  rw [run_keys]
  have started := keysProgress_start pattern ceiling sound upcoming
  obtain ⟨length, ended, total, progress⟩ := run_keysLoop (keysTurns shards.length)
    ⟨.start shards upcoming, wakes⟩ started (Nat.le_of_eq (remaining_replicate shards.length))
  have spec := keysFrame_spec progress ended
  rw [length, List.length_replicate] at spec
  exact spec

omit [SipHasher] [ReplicationLog L] in
/-- Two shards, the second walk woken first, and a key set on the first shard before
its walk is answered. -/
theorem keys_complete_or_error_two_shards :
    let _ : SipHasher := ⟨fun _ _ _ => 3⟩
    let now : Now := ⟨5, 5, by decide⟩
    let fresh : ShardState RefusingLog :=
      .recovered (Dict.withSeed ⟨0, 0⟩) 0 ⟨fun _ => true, 0, []⟩
    let shards := [fresh.take 0 now (.command (.setNx [97] [49])),
      fresh.take 1 now (.command (.setNx [98] [50]))]
    let upcoming : List Interlude :=
      [⟨[], .ok now⟩, ⟨[(0, now, .command (.setNx [99] [51]))], .ok now⟩]
    let result := (keys [42] 100).run KeysWorld.handle ⟨.start shards upcoming, [1]⟩
    ∃ all : List Bytes, result.1 = .array (all.map .bulk) ∧ [97] ∈ all ∧ [98] ∈ all := by
  intro hasher now fresh shards upcoming
  dsimp only
  have blank : fresh.dict.Sound := Dict.sound_withSeed _
  have sound : ∀ state ∈ shards, state.dict.Sound := by
    simp only [shards, List.forall_mem_cons]
    exact ⟨ShardState.sound_take blank _, ShardState.sound_take blank _,
      nofun⟩
  obtain ⟨complete, errors, answered⟩ :=
    keys_complete_or_error [42] 100 shards upcoming [1] sound
  have served : ¬ ((∃ sent ∈ ((keys [42] 100).run KeysWorld.handle
        ⟨.start shards upcoming, [1]⟩).2.terrain.sent, sent.keys = none) ∨
      100 < gatheredBytes ((keys [42] 100).run KeysWorld.handle
        ⟨.start shards upcoming, [1]⟩).2.terrain.sent) := by decide +kernel
  have first : ((keys [42] 100).run KeysWorld.handle
      ⟨.start shards upcoming, [1]⟩).2.terrain.LiveThroughout 0 [97] := by decide +kernel
  have second : ((keys [42] 100).run KeysWorld.handle
      ⟨.start shards upcoming, [1]⟩).2.terrain.LiveThroughout 1 [98] := by decide +kernel
  obtain ⟨entries, array⟩ := answered.resolve_right fun error => served (errors.mpr error)
  obtain ⟨all, same, -, members, -⟩ := complete entries array
  rw [same] at array
  exact ⟨all, array, members 0 [97] (by decide) (by decide) first,
    members 1 [98] (by decide) (by decide) second⟩

end

end Seedstone.Service
