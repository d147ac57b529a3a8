import Seedstone.Node.Pool
import Seedstone.Recovery.Recover
import Mathlib.Algebra.Order.Floor.Div
import Mathlib.Order.Interval.Finset.Nat

/-!
# Routing and the executors a pool spawns

`executor_of` cuts the shards into ranges and `spawn_spec` builds one executor
for each, so that an executor's place in the pool, its first shard and the
offset of a state all follow from the shard a key is in.
-/

namespace Seedstone

namespace ShardPool

variable (pool : ShardPool)

/-- Where an executor's range begins, and the range before it ends. -/
def rangeStart (executor : Nat) : Nat :=
  executor * pool.shards ⌈/⌉ pool.executors

theorem le_executorFor (executor shard : Nat) :
    executor ≤ pool.executorFor shard ↔ pool.rangeStart executor ≤ shard := by
  have positive := pool.positive
  have enough := pool.enough
  unfold executorFor executorOf rangeStart
  rw [Nat.le_div_iff_mul_le (by omega), ceilDiv_le_iff_le_mul (by omega), Nat.mul_comm shard]

theorem executorFor_eq (executor shard : Nat) :
    pool.executorFor shard = executor ↔
      pool.rangeStart executor ≤ shard ∧ shard < pool.rangeStart (executor + 1) := by
  have lower := pool.le_executorFor executor shard
  have upper := pool.le_executorFor (executor + 1) shard
  omega

theorem rangeStart_le (executor shard : Nat) :
    pool.rangeStart executor ≤ shard ↔ executor * pool.shards ≤ pool.executors * shard :=
  ceilDiv_le_iff_le_mul pool.positive

theorem rangeStart_zero : pool.rangeStart 0 = 0 :=
  Nat.le_zero.mp ((pool.rangeStart_le 0 0).mpr (by simp))

theorem rangeStart_executors : pool.rangeStart pool.executors = pool.shards := by
  apply Nat.le_antisymm
  · exact (pool.rangeStart_le _ _).mpr (Nat.le_refl _)
  · exact Nat.le_of_mul_le_mul_left ((pool.rangeStart_le _ _).mp (Nat.le_refl _)) pool.positive

/-- A range holds the quotient of the two counts, or one shard more. -/
theorem range_balanced (executor : Nat) :
    pool.rangeStart executor + pool.shards / pool.executors ≤ pool.rangeStart (executor + 1) ∧
      pool.rangeStart (executor + 1) ≤
        pool.rangeStart executor + pool.shards / pool.executors + 1 := by
  have here := (pool.rangeStart_le executor _).mp (Nat.le_refl _)
  have next := (pool.rangeStart_le (executor + 1) _).mp (Nat.le_refl _)
  have quotient := Nat.div_add_mod pool.shards pool.executors
  have remainder := Nat.mod_lt pool.shards pool.positive
  have behind : pool.shards / pool.executors ≤ pool.rangeStart (executor + 1) := by
    apply Nat.le_of_mul_le_mul_left _ pool.positive
    rw [Nat.add_mul] at next
    omega
  constructor
  · rw [← Nat.le_sub_iff_add_le behind, rangeStart_le, Nat.mul_sub]
    rw [Nat.add_mul] at next
    omega
  · rw [rangeStart_le, Nat.add_mul, Nat.mul_add, Nat.mul_add]
    omega

theorem rangeStart_lt (executor : Nat) :
    pool.rangeStart executor < pool.rangeStart (executor + 1) := by
  have balanced := pool.range_balanced executor
  have some := Nat.div_pos pool.enough pool.positive
  omega

theorem executorFor_mono {first second : Nat} (ordered : first ≤ second) :
    pool.executorFor first ≤ pool.executorFor second :=
  Nat.div_le_div_right (Nat.mul_le_mul_right _ ordered)

theorem executorFor_rangeStart (executor : Nat) :
    pool.executorFor (pool.rangeStart executor) = executor :=
  (pool.executorFor_eq executor _).mpr ⟨Nat.le_refl _, pool.rangeStart_lt executor⟩

theorem executorFor_succ_le (shard : Nat) :
    pool.executorFor (shard + 1) ≤ pool.executorFor shard + 1 := by
  have here := (pool.executorFor_eq _ shard).mp rfl
  have next := pool.rangeStart_lt (pool.executorFor shard + 1)
  have behind := pool.le_executorFor (pool.executorFor shard + 1 + 1) (shard + 1)
  omega

theorem rangeStart_le_shards {executor : Nat} (inside : executor < pool.executors) :
    pool.rangeStart (executor + 1) ≤ pool.shards := by
  rw [rangeStart_le]
  exact Nat.mul_le_mul_right _ inside

theorem hosted_eq {executor : Nat} (inside : executor < pool.executors) :
    ((Finset.range pool.shards).filter fun shard => pool.executorFor shard = executor) =
      Finset.Ico (pool.rangeStart executor) (pool.rangeStart (executor + 1)) := by
  have below := pool.rangeStart_le_shards inside
  ext shard
  rw [Finset.mem_filter, Finset.mem_range, Finset.mem_Ico, pool.executorFor_eq]
  omega

end ShardPool

/-- `PoolSpec`, with what `check_shape` asserts of it. -/
structure PoolSpec (Link : Type) extends ShardPool where
  seed : DictSeed
  makeLog : Nat → FileLog
  limit : MemoryLimit
  recovered : List Recovery.RecoveredShard
  generation : Nat
  config : CheckpointConfig
  sync : SyncPolicy
  writerLinks : List Link
  everyShard : recovered.length = 0 ∨ recovered.length = shards
  everyLink : writerLinks.length = 0 ∨ writerLinks.length = executors

def recoveredState (recovered : Recovery.RecoveredShard) (log : FileLog) : ShardState FileLog :=
  .recovered recovered.dict recovered.seq log

/-- The variables of `spawn_spec`: the executors so far, each with its link, the one
being gathered, and what is left of the links and of the recovered shards. -/
structure Spawning (Link : Type) where
  spawned : List (Executor × Option Link)
  pending : Option (Nat × List (ShardState FileLog))
  links : List Link
  recovered : List Recovery.RecoveredShard

namespace PoolSpec

variable {Link : Type} (spec : PoolSpec Link)

def fresh (shard : Nat) : Recovery.RecoveredShard where
  dict := .withSeed (shardSeed spec.seed (BitVec.ofNat 16 shard))
  seq := 0
  lossy := false
  cut := false
  imageUnixMillis := none

/-- `spawn_executor` of what was gathered. -/
def executorOn (firstShard : Nat) (states : List (ShardState FileLog)) (link : Option Link) :
    Executor :=
  { Executor.new (spec.executorFor firstShard) firstShard states spec.limit spec.sync
      spec.generation spec.config with
    sync := { SyncState.new spec.sync with link := link.isSome } }

def spawn (walk : Spawning Link) (firstShard : Nat) (states : List (ShardState FileLog)) :
    Spawning Link :=
  { walk with
    spawned := walk.spawned ++
      [(spec.executorOn firstShard states walk.links.head?, walk.links.head?)]
    pending := none
    links := walk.links.tail }

/-- One shard of the loop. -/
def gather (walk : Spawning Link) (shard : Nat) : Spawning Link :=
  let state := recoveredState (walk.recovered.head?.getD (spec.fresh shard))
    (spec.makeLog shard)
  let walk := { walk with recovered := walk.recovered.tail }
  match walk.pending with
  | some (firstShard, states) =>
    if spec.executorFor shard = spec.executorFor firstShard then
      { walk with pending := some (firstShard, states ++ [state]) }
    else
      { spec.spawn walk firstShard states with pending := some (shard, [state]) }
  | none => { walk with pending := some (shard, [state]) }

def spawnSpec : List (Executor × Option Link) :=
  let walk := (List.range spec.shards).foldl spec.gather
    ⟨[], none, spec.writerLinks, spec.recovered⟩
  match walk.pending with
  | some (firstShard, states) => (spec.spawn walk firstShard states).spawned
  | none => walk.spawned

/-- The state of a shard at the start: what was recovered of it, or a fresh one. -/
def stateAt (shard : Nat) : ShardState FileLog :=
  recoveredState (spec.recovered[shard]?.getD (spec.fresh shard)) (spec.makeLog shard)

/-- The states of the shards from `first` up to `stop`. -/
def statesAt (first stop : Nat) : List (ShardState FileLog) :=
  (List.range' first (stop - first)).map spec.stateAt

/-- The executor of a range, with its link. -/
def executorAt (executor : Nat) : Executor × Option Link :=
  (spec.executorOn (spec.rangeStart executor)
    (spec.statesAt (spec.rangeStart executor) (spec.rangeStart (executor + 1)))
    spec.writerLinks[executor]?, spec.writerLinks[executor]?)

/-- The loop in the range of `executor`, before the shard `stop`. -/
def walkAt (executor stop : Nat) : Spawning Link where
  spawned := (List.range executor).map spec.executorAt
  pending := some (spec.rangeStart executor, spec.statesAt (spec.rangeStart executor) stop)
  links := spec.writerLinks.drop executor
  recovered := spec.recovered.drop stop

theorem statesAt_succ {first stop : Nat} (ordered : first ≤ stop) :
    spec.statesAt first (stop + 1) = spec.statesAt first stop ++ [spec.stateAt stop] := by
  unfold statesAt
  rw [show stop + 1 - first = stop - first + 1 by omega, List.range'_1_concat,
    List.map_append, show first + (stop - first) = stop by omega]
  rfl

theorem gather_walkAt (shard : Nat) :
    spec.gather (spec.walkAt (spec.executorFor shard) (shard + 1)) (shard + 1) =
      spec.walkAt (spec.executorFor (shard + 1)) (shard + 1 + 1) := by
  have here := (spec.executorFor_eq _ shard).mp rfl
  have state : recoveredState ((spec.recovered.drop (shard + 1)).head?.getD
      (spec.fresh (shard + 1))) (spec.makeLog (shard + 1)) = spec.stateAt (shard + 1) := by
    rw [List.head?_drop]
    rfl
  unfold gather
  dsimp only [walkAt]
  rw [state, spec.executorFor_rangeStart, List.tail_drop]
  split
  · next same =>
      have longer : spec.rangeStart (spec.executorFor shard) ≤ shard + 1 := by omega
      rw [same, spec.statesAt_succ longer]
  · next other =>
      have next : spec.executorFor (shard + 1) = spec.executorFor shard + 1 := by
        have ordered := spec.executorFor_mono (Nat.le_add_right shard 1)
        have close := spec.executorFor_succ_le shard
        omega
      have begins : spec.rangeStart (spec.executorFor shard + 1) = shard + 1 := by
        have within := (spec.executorFor_eq _ (shard + 1)).mp next
        omega
      have first : spec.statesAt (shard + 1) (shard + 1 + 1) = [spec.stateAt (shard + 1)] := by
        rw [spec.statesAt_succ (Nat.le_refl _)]
        simp [statesAt]
      rw [next]
      simp only [spawn, List.head?_drop, List.tail_drop, List.range_succ, List.map_append,
        List.map_cons, List.map_nil, executorAt, begins, first]

theorem foldl_gather (shard : Nat) :
    (List.range (shard + 1)).foldl spec.gather ⟨[], none, spec.writerLinks, spec.recovered⟩ =
      spec.walkAt (spec.executorFor shard) (shard + 1) := by
  induction shard with
  | zero =>
    have zero : spec.executorFor 0 = 0 := by simp [ShardPool.executorFor, executorOf]
    simp [walkAt, gather, zero, spec.rangeStart_zero, statesAt, stateAt, List.head?_eq_getElem?,
      List.range_succ]
  | succ shard induction =>
    rw [List.range_succ, List.foldl_append, induction]
    exact spec.gather_walkAt shard

theorem spawnSpec_eq : spec.spawnSpec = (List.range spec.executors).map spec.executorAt := by
  have positive := spec.positive
  have enough := spec.enough
  obtain ⟨last, isLast⟩ := Nat.exists_eq_add_of_le' (positive.trans enough)
  obtain ⟨final, isFinal⟩ := Nat.exists_eq_add_of_le' positive
  have ends := spec.rangeStart_executors
  have hosted : spec.executorFor last = final := by
    rw [spec.executorFor_eq, ← isFinal, ends]
    have starts := spec.rangeStart_lt final
    rw [← isFinal, ends] at starts
    omega
  unfold spawnSpec
  rw [isLast, spec.foldl_gather last, hosted, isFinal]
  rw [isFinal, isLast] at ends
  simp only [walkAt, spawn, List.head?_drop, List.range_succ, List.map_append, List.map_cons,
    List.map_nil, executorAt, ends]

theorem executorAt_states (executor : Nat) :
    (spec.executorAt executor).1.states =
        (List.range' (spec.rangeStart executor)
          (spec.executorAt executor).1.states.length).map spec.stateAt ∧
      spec.rangeStart executor + (spec.executorAt executor).1.states.length =
        spec.rangeStart (executor + 1) := by
  have longer := spec.rangeStart_lt executor
  simp only [executorAt, executorOn, Executor.new, statesAt, List.length_map,
    List.length_range', true_and]
  omega

theorem executorAt_stateOf {executor shard : Nat} (hosted : spec.executorFor shard = executor) :
    (spec.executorAt executor).1.firstShard ≤ shard ∧
      (spec.executorAt executor).1.stateOf shard = some (spec.stateAt shard) := by
  have within := (spec.executorFor_eq executor shard).mp hosted
  have starts : (spec.executorAt executor).1.firstShard = spec.rangeStart executor := rfl
  obtain ⟨states, ends⟩ := spec.executorAt_states executor
  refine ⟨within.1, ?_⟩
  unfold Executor.stateOf
  rw [if_neg (by omega), states, starts, List.getElem?_map, List.getElem?_range' (by omega),
    Option.map_some, show spec.rangeStart executor + 1 * (shard - spec.rangeStart executor) =
      shard by omega]

/-- Routing lands on the owner.  `executor_of` is monotone, within its count, onto
it, and its ranges differ by one shard at most; `spawn_spec` builds the executor of
each range in its place, with its link and its states in the order of the shards;
so the executor a key is sent to holds the key's shard where it looks for it. -/
theorem routing_lands_on_owner (small : spec.shards < 2 ^ 16) :
    (∀ first second, first ≤ second →
      executorOf first spec.shards spec.executors ≤
        executorOf second spec.shards spec.executors) ∧
    (∀ shard, shard < spec.shards → shard * spec.executors < 2 ^ 32 ∧
      executorOf shard spec.shards spec.executors < spec.executors) ∧
    (∀ executor, executor < spec.executors →
      ∃ shard, shard < spec.shards ∧ executorOf shard spec.shards spec.executors = executor) ∧
    (∀ executor other, executor < spec.executors → other < spec.executors →
      ((Finset.range spec.shards).filter fun shard =>
          executorOf shard spec.shards spec.executors = executor).card ≤
        ((Finset.range spec.shards).filter fun shard =>
          executorOf shard spec.shards spec.executors = other).card + 1) ∧
    spec.spawnSpec.length = spec.executors ∧
    (∀ executor, executor < spec.executors → ∃ this,
      spec.spawnSpec[executor]? = some (this, spec.writerLinks[executor]?) ∧
        this.index = executor ∧ this.sync.link = spec.writerLinks[executor]?.isSome ∧
        (∀ shard, executorOf shard spec.shards spec.executors = executor ↔
          this.firstShard ≤ shard ∧ shard < this.firstShard + this.states.length) ∧
        this.states = (List.range' this.firstShard this.states.length).map spec.stateAt) ∧
    ∀ key, ∃ this link,
      spec.spawnSpec[executorOf (shardOf key spec.shards) spec.shards spec.executors]? =
          some (this, link) ∧
        this.firstShard ≤ shardOf key spec.shards ∧
        this.stateOf (shardOf key spec.shards) =
          some (spec.stateAt (shardOf key spec.shards)) := by
  have positive := spec.positive
  have enough := spec.enough
  have spawned : ∀ executor, executor < spec.executors →
      spec.spawnSpec[executor]? = some (spec.executorAt executor) := by
    intro executor inside
    rw [spec.spawnSpec_eq, List.getElem?_map, List.getElem?_range inside]
    rfl
  have inside : ∀ shard, shard < spec.shards → spec.executorFor shard < spec.executors := by
    intro shard owned
    have ends := spec.rangeStart_executors
    have behind := spec.le_executorFor spec.executors shard
    omega
  refine ⟨fun first second => spec.executorFor_mono, fun shard owned => ⟨?_, inside shard owned⟩,
    fun executor hosts => ?_, fun executor other hosts too => ?_, ?_,
    fun executor hosts => ?_, fun key => ?_⟩
  · have product : shard * spec.executors < 2 ^ 16 * 2 ^ 16 :=
      Nat.mul_lt_mul'' (owned.trans small) (enough.trans_lt small)
    exact product
  · have longer := spec.rangeStart_lt executor
    have below := spec.rangeStart_le_shards hosts
    exact ⟨spec.rangeStart executor, by omega, spec.executorFor_rangeStart executor⟩
  · have first := spec.range_balanced executor
    have second := spec.range_balanced other
    have hosted := spec.hosted_eq hosts
    have hostedToo := spec.hosted_eq too
    unfold ShardPool.executorFor at hosted hostedToo
    rw [hosted, hostedToo, Nat.card_Ico, Nat.card_Ico]
    omega
  · rw [spec.spawnSpec_eq, List.length_map, List.length_range]
  · obtain ⟨states, ends⟩ := spec.executorAt_states executor
    refine ⟨(spec.executorAt executor).1, spawned executor hosts,
      spec.executorFor_rangeStart executor, rfl, fun shard => ?_, states⟩
    refine (spec.executorFor_eq executor shard).trans ?_
    rw [← ends]
    rfl
  · have owned : shardOf key spec.shards < spec.shards := Nat.mod_lt _ (by omega)
    exact ⟨_, _, spawned _ (inside _ owned), spec.executorAt_stateOf rfl⟩

/-- Seven fresh shards on three executors. -/
def seven : PoolSpec (Fin 3) where
  shards := 7
  executors := 3
  positive := by decide
  enough := by decide
  seed := ⟨1, 2⟩
  makeLog := fun _ => ⟨[], none, none, none, []⟩
  limit := ⟨none, .noEviction⟩
  recovered := []
  generation := 1
  config := ⟨0, 1, 1⟩
  sync := ⟨none, true⟩
  writerLinks := [0, 1, 2]
  everyShard := Or.inl rfl
  everyLink := Or.inr rfl

theorem routing_lands_on_owner_seven :
    seven.spawnSpec.map (fun spawned =>
        (spawned.1.index, spawned.1.firstShard, spawned.1.states.length, spawned.2)) =
      [(0, 0, 3, some 0), (1, 3, 2, some 1), (2, 5, 2, some 2)] ∧
    ∃ this link, seven.spawnSpec[executorOf (shardOf [102, 111, 111] 7) 7 3]? =
        some (this, link) ∧
      this.firstShard ≤ shardOf [102, 111, 111] 7 ∧
      this.stateOf (shardOf [102, 111, 111] 7) =
        some (seven.stateAt (shardOf [102, 111, 111] 7)) :=
  ⟨by decide +kernel,
    (routing_lands_on_owner seven (by decide)).2.2.2.2.2.2 [102, 111, 111]⟩

end PoolSpec

end Seedstone
