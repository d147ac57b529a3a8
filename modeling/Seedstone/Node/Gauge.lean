import Seedstone.Library.SharedCounter
import Seedstone.Node.Pool
import Seedstone.Shard.Bookkeeping
import Seedstone.Shard.Eviction
import Mathlib.Algebra.BigOperators.Fin

/-!
# The memory gauge

`memory.rs` and the spans of `executor.rs` around it.  The executors of a pool
share one gauge.  Each changes the dict of one of its shards, by a command, a
tick or one round of evictions, and then moves the gauge by the difference; the
steps of different executors interleave, and the log refuses what it likes.
-/

namespace Seedstone

/-- A pool between two atomic steps.  A shard's span is open, with what its
dict was accounted at before, from the change of the dict until the gauge has
it; a shard that is evicting is in the loop of `evict_until_fits`, with the key
the loop spares. -/
structure GaugedPool (pool : ShardPool) (L : Type) where
  states : Fin pool.shards → ShardState L
  spans : Fin pool.shards → Option Nat
  evicting : Fin pool.shards → Option (Option Bytes)
  gauge : Nat

namespace GaugedPool

variable {pool : ShardPool} {L : Type} {shard : Fin pool.shards} {state : ShardState L}

def used (node : GaugedPool pool L) (shard : Fin pool.shards) : Nat :=
  (node.states shard).dict.usedBytes

/-- The pool as `spawn` builds it: the gauge takes what each dict holds. -/
def spawn (states : Fin pool.shards → ShardState L) : GaugedPool pool L where
  states := states
  spans := fun _ => none
  evicting := fun _ => none
  gauge := (List.finRange pool.shards).foldl
    (fun gauge shard => MemoryGauge.apply gauge 0 (states shard).dict.usedBytes) 0

/-- The executor that hosts a shard is at rest, on every shard it hosts. -/
def Idle (node : GaugedPool pool L) (shard : Fin pool.shards) : Prop :=
  ∀ other : Fin pool.shards, pool.executorFor other = pool.executorFor shard →
    node.spans other = none ∧ node.evicting other = none

/-- A shard's dict has changed and the gauge has not. -/
def change (node : GaugedPool pool L) (shard : Fin pool.shards) (state : ShardState L)
    (evicting : Option (Option Bytes)) : GaugedPool pool L :=
  { node with
    states := Function.update node.states shard state
    spans := Function.update node.spans shard (some (node.used shard))
    evicting := Function.update node.evicting shard evicting }

/-- A shard's state changes and its dict does not, or not yet. -/
def replace (node : GaugedPool pool L) (shard : Fin pool.shards) (state : ShardState L) :
    GaugedPool pool L :=
  { node with states := Function.update node.states shard state }

/-- The eviction loop of a shard returns. -/
def leave (node : GaugedPool pool L) (shard : Fin pool.shards) : GaugedPool pool L :=
  { node with evicting := Function.update node.evicting shard none }

/-- The gauge takes a shard's span. -/
def settle (node : GaugedPool pool L) (shard : Fin pool.shards) (before : Nat) :
    GaugedPool pool L :=
  { node with
    gauge := MemoryGauge.apply node.gauge before (node.used shard)
    spans := Function.update node.spans shard none }

variable [ReplicationLog L] [SipHasher]

/-- The steps of the executors, one shard at a time. -/
inductive Step (limit : MemoryLimit) : GaugedPool pool L → GaugedPool pool L → Prop where
  /-- A command that reaches its handler; the evictions it may have to make
  room with come after its span. -/
  | command (node : GaugedPool pool L) (shard : Fin pool.shards) (cmd : Command) (now : Now)
      (idle : node.Idle shard) :
      Step limit node (node.change shard ((node.states shard).apply shard cmd now).2
        (if limit.mode = .allKeysLru ∧ !(node.states shard).refusing then
          some (Executor.spared cmd)
        else
          none))
  | tick (node : GaugedPool pool L) (shard : Fin pool.shards) (now : Now)
      (idle : node.Idle shard) :
      Step limit node (node.change shard (Executor.tickShard (node.states shard).refusing
        now.instant shard (node.states shard)) none)
  | settle (node : GaugedPool pool L) (shard : Fin pool.shards) (before : Nat)
      (span : node.spans shard = some before) :
      Step limit node (node.settle shard before)
  /-- One round of evictions that took a victim. -/
  | evict (node : GaugedPool pool L) (shard : Fin pool.shards) (spared : Option Bytes)
      (closed : node.spans shard = none) (evicting : node.evicting shard = some spared)
      (overrun : limit.exceeded node.gauge)
      (taken : ((node.states shard).evictOne shard spared).1 = true) :
      Step limit node
        (node.change shard ((node.states shard).evictOne shard spared).2 (some spared))
  /-- A round that found no victim, or whose record was refused. -/
  | giveUp (node : GaugedPool pool L) (shard : Fin pool.shards) (spared : Option Bytes)
      (closed : node.spans shard = none) (evicting : node.evicting shard = some spared)
      (overrun : limit.exceeded node.gauge)
      (failed : ((node.states shard).evictOne shard spared).1 = false) :
      Step limit node
        ((node.replace shard ((node.states shard).evictOne shard spared).2).leave shard)
  | fits (node : GaugedPool pool L) (shard : Fin pool.shards) (spared : Option Bytes)
      (closed : node.spans shard = none) (evicting : node.evicting shard = some spared)
      (under : limit.exceeded node.gauge = false) :
      Step limit node (node.leave shard)
  /-- What an executor does to a shard beside its dict: it hands the log's
  buffer on, begins or ends a refusal, advances a checkpoint. -/
  | beside (node : GaugedPool pool L) (shard : Fin pool.shards) (state : ShardState L)
      (same : state.dict = (node.states shard).dict) :
      Step limit node (node.replace shard state)

/-- The gauge is what the dicts are charged, and every dict is the outcome of
operations on a new one. -/
structure Exact (node : GaugedPool pool L) : Prop where
  gauge : node.gauge = SharedCounter.charged node.used node.spans
  grown : ∀ shard, ∃ seed, (Dict.withSeed seed).Follows (node.states shard).dict

omit [ReplicationLog L] [SipHasher] in
theorem spawn_gauge (states : Fin pool.shards → ShardState L) :
    (spawn states).gauge = ∑ shard, (states shard).dict.usedBytes := by
  have summed : ∀ (shards : List (Fin pool.shards)) (gauge : Nat),
      shards.foldl (fun gauge shard =>
          MemoryGauge.apply gauge 0 (states shard).dict.usedBytes) gauge =
        gauge + (shards.map fun shard => (states shard).dict.usedBytes).sum := by
    intro shards
    induction shards with
    | nil => intro gauge; rfl
    | cons shard rest induction =>
      intro gauge
      rw [List.foldl_cons, induction, MemoryGauge.apply_eq, List.map_cons, List.sum_cons]
      omega
  rw [Fin.sum_univ_def]
  exact (summed _ 0).trans (Nat.zero_add _)

omit [ReplicationLog L] [SipHasher] in
theorem used_replace (node : GaugedPool pool L) (shard : Fin pool.shards) (state : ShardState L) :
    (node.replace shard state).used = Function.update node.used shard state.dict.usedBytes := by
  funext other
  show (Function.update node.states shard state other).dict.usedBytes = _
  by_cases same : other = shard
  · rw [same, Function.update_self, Function.update_self]
  · rw [Function.update_of_ne same, Function.update_of_ne same]
    rfl

variable {node after : GaugedPool pool L} {limit : MemoryLimit}

omit [ReplicationLog L] in
theorem grown_update (exact : node.Exact) (follows : (node.states shard).dict.Follows state.dict) :
    ∀ other, ∃ seed, (Dict.withSeed seed).Follows
      (Function.update node.states shard state other).dict := by
  intro other
  by_cases same : other = shard
  · obtain ⟨seed, grown⟩ := exact.grown shard
    rw [same, Function.update_self]
    exact ⟨seed, grown.trans follows⟩
  · rw [Function.update_of_ne same]
    exact exact.grown other

omit [ReplicationLog L] in
/-- Changing a dict opens a span on it, which leaves what is charged. -/
theorem Exact.change (exact : node.Exact) (closed : node.spans shard = none)
    (follows : (node.states shard).dict.Follows state.dict)
    (evicting : Option (Option Bytes)) : (node.change shard state evicting).Exact where
  gauge := by
    refine exact.gauge.trans ?_
    have sizes : (node.change shard state evicting).used =
        Function.update node.used shard state.dict.usedBytes := used_replace node shard state
    rw [sizes]
    exact (SharedCounter.charged_open closed _).symm
  grown := grown_update exact follows

omit [ReplicationLog L] in
theorem Exact.replace (exact : node.Exact) (same : state.dict = (node.states shard).dict) :
    (node.replace shard state).Exact where
  gauge := by
    have sizes : (node.replace shard state).used = node.used := by
      rw [used_replace, same]
      exact Function.update_eq_self shard node.used
    rw [sizes]
    exact exact.gauge
  grown := grown_update exact (same ▸ .refl _)

omit [ReplicationLog L] in
/-- A gauge that is what is charged covers every span it has yet to take. -/
theorem Exact.covers (exact : node.Exact) {before : Nat}
    (span : node.spans shard = some before) : before ≤ node.gauge := by
  rw [exact.gauge]
  exact SharedCounter.le_charged span

omit [ReplicationLog L] in
theorem Exact.settle (exact : node.Exact) {before : Nat}
    (span : node.spans shard = some before) : (node.settle shard before).Exact where
  gauge := by
    have covered := exact.covers span
    have closed : SharedCounter.charged node.used (Function.update node.spans shard none) +
        before = SharedCounter.charged node.used node.spans + node.used shard :=
      SharedCounter.charged_close span
    have charged := exact.gauge
    show MemoryGauge.apply node.gauge before (node.used shard) =
      SharedCounter.charged node.used (Function.update node.spans shard none)
    rw [MemoryGauge.apply_eq]
    omega
  grown := exact.grown

theorem evictOne_follows (state : ShardState L) (shard : Nat) (spared : Option Bytes) :
    state.dict.Follows (state.evictOne shard spared).2.dict ∧
      ((state.evictOne shard spared).1 = false →
        (state.evictOne shard spared).2.dict = state.dict) := by
  have outcome := ShardState.evictOne_outcome state shard spared
  generalize state.evictOne shard spared = result at outcome
  cases outcome with
  | nothing | refused => exact ⟨.refl _, fun _ => rfl⟩
  | taken cursor victim log sampled accepted =>
    exact ⟨.step state.dict (.remove victim), fun impossible => by simp at impossible⟩

theorem follows_tickShard (refuses : Bool) (state : ShardState L) (shard : Nat) (now : Now) :
    state.dict.Follows (Executor.tickShard refuses now.instant shard state).dict := by
  have rehashed : state.dict.Follows (state.dict.rehashStep rehashBucketsPerTick) :=
    .step state.dict (.rehashStep rehashBucketsPerTick)
  unfold Executor.tickShard
  dsimp only
  split
  · exact rehashed
  · have swept : ShardState.Deeds False shard now { state with
        reading := now.instant
        dict := state.dict.rehashStep rehashBucketsPerTick } _ :=
      ShardState.deeds_sweepExpired now.instant
    exact rehashed.trans swept.moves.follows

theorem Step.exact (step : Step limit node after) (exact : node.Exact) : after.Exact := by
  cases step with
  | command shard cmd now idle =>
    obtain ⟨seed, ops, grown⟩ := exact.grown shard
    have sound : (node.states shard).dict.Sound := by
      rw [grown]
      exact ((Dict.accounted_withSeed seed).run ops).toSound
    exact exact.change (idle shard rfl).1 (ShardState.deeds_apply sound cmd).moves.follows _
  | tick shard now idle =>
    exact exact.change (idle shard rfl).1 (follows_tickShard _ (node.states shard) shard now) none
  | settle shard before span => exact exact.settle span
  | evict shard spared closed evicting overrun taken =>
    exact exact.change closed (evictOne_follows (node.states shard) shard spared).1 (some spared)
  | giveUp shard spared closed evicting overrun failed =>
    have kept := exact.replace ((evictOne_follows (node.states shard) shard spared).2 failed)
    exact ⟨kept.gauge, kept.grown⟩
  | fits shard spared closed evicting under => exact ⟨exact.gauge, exact.grown⟩
  | beside shard state same => exact exact.replace same

omit [ReplicationLog L] in
theorem exact_spawn {states : Fin pool.shards → ShardState L}
    (grown : ∀ shard, ∃ seed, (Dict.withSeed seed).Follows (states shard).dict) :
    (spawn states).Exact where
  gauge := (spawn_gauge states).trans (SharedCounter.charged_of_closed (fun _ => rfl)).symm
  grown := grown

theorem exact_of_reached {start : GaugedPool pool L} (exact : start.Exact)
    (reached : Relation.ReflTransGen (Step limit) start node) : node.Exact := by
  induction reached with
  | refl => exact exact
  | tail _ step induction => exact step.exact induction

/-- In every state the executors of a pool can reach, by any interleaving of
their steps: the gauge is the sum of `used_bytes` whenever no span is open;
every `used_bytes` is a full recount of its dict; a gauge update that takes
something off takes no more than the gauge holds; and every dict is the outcome
of operations none of which took from a counter more than it held, as none of
the next will. -/
theorem memory_gauge_exact (limit : MemoryLimit) {states : Fin pool.shards → ShardState L}
    (grown : ∀ shard, ∃ seed, (Dict.withSeed seed).Follows (states shard).dict)
    (reached : Relation.ReflTransGen (Step limit) (spawn states) node) :
    ((∀ shard, node.spans shard = none) → node.gauge = ∑ shard, node.used shard) ∧
      (∀ shard, node.used shard = (node.states shard).dict.recount) ∧
      (∀ shard before, node.spans shard = some before →
        before - node.used shard ≤ node.gauge) ∧
      (∀ shard, ∃ seed ops, (node.states shard).dict = ((Dict.withSeed seed).run ops).2 ∧
        ∀ first op rest, ops = first ++ op :: rest →
          ∀ taken ∈ ((Dict.withSeed seed).run first).2.subtractions op,
            taken.2 ≤ taken.1) ∧
      ∀ shard op, ∀ taken ∈ (node.states shard).dict.subtractions op,
        taken.2 ≤ taken.1 := by
  have exact := exact_of_reached (exact_spawn grown) reached
  have accounted : ∀ shard, (node.states shard).dict.Accounted := by
    intro shard
    obtain ⟨seed, ops, same⟩ := exact.grown shard
    rw [same]
    exact (Dict.accounted_withSeed seed).run ops
  refine ⟨?_, fun shard => (accounted shard).bytes, ?_, ?_,
    fun shard => (accounted shard).subtractions_le⟩
  · intro closed
    rw [exact.gauge, SharedCounter.charged_of_closed closed]
  · intro shard before span
    exact (Nat.sub_le _ _).trans (exact.covers span)
  · intro shard
    obtain ⟨seed, ops, same⟩ := exact.grown shard
    refine ⟨seed, ops, same, ?_⟩
    intro first op rest _
    exact ((Dict.accounted_withSeed seed).run first).subtractions_le op

omit [ReplicationLog L] [SipHasher] in
/-- Two shards of two executors take a `SET` each, and the spans of both are open at once. -/
theorem memory_gauge_exact_two_spans :
    let _ : SipHasher := ⟨fun _ _ _ => 3⟩
    let pool : ShardPool := ⟨2, 2, by decide, by decide⟩
    let states : Fin pool.shards → ShardState RefusingLog :=
      fun _ => .recovered (Dict.withSeed ⟨0, 0⟩) 0 ⟨fun _ => true, 0, []⟩
    let limit : MemoryLimit := ⟨none, .noEviction⟩
    ∃ node : GaugedPool pool RefusingLog,
      Relation.ReflTransGen (Step limit) (spawn states) node ∧
        node.gauge = ∑ shard, node.used shard ∧ node.gauge = 580 := by
  intro hasher pool states limit
  let first : Fin pool.shards := ⟨0, by decide⟩
  let second : Fin pool.shards := ⟨1, by decide⟩
  let put : Command := .set [1] [7] none none false false
  have one : Step limit (spawn states) _ :=
    .command _ first put ⟨0, 0, by decide⟩ fun other _ => ⟨rfl, rfl⟩
  have spanned := (Relation.ReflTransGen.single one).tail
    (.command _ second put ⟨0, 0, by decide⟩ (by unfold Idle; decide +kernel))
  have reached := (spanned.tail (.settle _ first 192 (by decide +kernel))).tail
    (.settle _ second 192 (by decide +kernel))
  have grown : ∀ shard, ∃ seed, (Dict.withSeed seed).Follows (states shard).dict :=
    fun _ => ⟨_, .refl _⟩
  refine ⟨_, reached, (memory_gauge_exact limit grown reached).1 ?_, ?_⟩
  · decide +kernel
  · decide +kernel

end GaugedPool

end Seedstone
