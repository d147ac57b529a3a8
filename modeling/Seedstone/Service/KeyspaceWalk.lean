import Seedstone.Resp.Decimal
import Seedstone.Service.Options
import Seedstone.Service.Terrain

/-!
# A walk over the whole keyspace

One client sends `SCAN` again and again, starts at cursor `0` and hands back
each cursor it is given.  `Progress` is where the walk stands: every shard before
the one it is in has had its cursor taken from `0` back to `0` and has reported
the keys that stayed, and the one it is in has reported such a key or has it
still ahead.
-/

namespace Seedstone.Service

variable {shard : Nat} {sent counted : List Sent} {last : Sent} {cursor : Cursor}
  {crossing : Crossing}

open ReverseBinary

theorem unpackCursor_packCursor {internal : Cursor} (few : shard < 65536)
    (below : internal.toNat < 281474976710656) :
    unpackCursor (packCursor shard internal) = (shard, internal) := by
  have low : (internal &&& cursorInternalMask).toNat = internal.toNat := by
    have mask : cursorInternalMask.toNat = 2 ^ 48 - 1 := rfl
    rw [BitVec.toNat_and, mask, Nat.and_two_pow_sub_one_eq_mod]
    exact Nat.mod_eq_of_lt below
  have high : (BitVec.ofNat 64 shard <<< cursorInternalBits).toNat = shard <<< 48 := by
    rw [BitVec.toNat_shiftLeft, BitVec.toNat_ofNat, Nat.mod_eq_of_lt (a := shard) (by omega)]
    simp only [cursorInternalBits, Nat.shiftLeft_eq]
    omega
  have packed : (packCursor shard internal).toNat = shard * 281474976710656 + internal.toNat := by
    unfold packCursor
    rw [BitVec.toNat_or, low, high, ← Nat.shiftLeft_add_eq_or_of_lt below, Nat.shiftLeft_eq]
  unfold unpackCursor
  rw [Prod.mk.injEq]
  constructor
  · rw [BitVec.toNat_ushiftRight, packed, Nat.shiftRight_eq_div_pow]
    simp only [cursorInternalBits]
    omega
  · apply BitVec.eq_of_toNat_eq
    have mask : cursorInternalMask.toNat = 2 ^ 48 - 1 := rfl
    rw [BitVec.toNat_and, mask, Nat.and_two_pow_sub_one_eq_mod, packed]
    omega

theorem parseU64_decimal (cursor : Cursor) :
    parseU64 (decimal cursor.toNat) = some cursor.toNat := by
  have digits := all_isAsciiDigit_decimal cursor.toNat
  have some : (decimal cursor.toNat).isEmpty = false := by
    rw [List.isEmpty_eq_false_iff]
    exact decimal_ne_nil _
  have bound : cursor.toNat ≤ u64Max := by
    have := cursor.isLt
    unfold u64Max
    omega
  unfold parseU64
  rw [digits, some, digitsValue_decimal, if_neg (by simp), if_neg, if_pos bound]
  rintro ⟨leading, long⟩
  rw [head?_decimal leading, decimal_zero] at long
  simp at long

/-- The cursor a client goes on at, as the server reads it back. -/
def resumeCursor : Frame → Option Cursor
  | .array [.bulk text, .array _] => (parseU64 text).map (BitVec.ofNat 64)
  | _ => none

def returnedKeys : Frame → List Bytes
  | .array [.bulk _, .array keys] => keys.map bulk
  | _ => []

theorem resumeCursor_scanFrame (crossing : Crossing) :
    resumeCursor (scanFrame crossing) = some crossing.finish.1 := by
  simp only [scanFrame, resumeCursor, parseU64_decimal, Option.map_some, BitVec.ofNat_toNat,
    BitVec.setWidth_eq]

theorem returnedKeys_scanFrame (crossing : Crossing) :
    returnedKeys (scanFrame crossing) = crossing.keys := by
  have back : bulk ∘ Frame.bulk = id := rfl
  simp only [scanFrame, returnedKeys, Crossing.finish, List.map_map, back, List.map_id]

/-- The cursor a shard was sent and the one it answered. -/
def Sent.leg (sent : Sent) : Option (Cursor × Cursor) :=
  match sent.cmd, sent.reply with
  | .scanStep cursor _ _, .scan next _ _ => some (cursor, next)
  | _, _ => none

def legsOf (shard : Nat) (sent : List Sent) : List (Cursor × Cursor) :=
  (sent.filter (fun one => one.shard = shard)).filterMap Sent.leg

/-- From `place` back to `0`, each step taken up where the last one ended. -/
def FullCycle : Cursor → List (Cursor × Cursor) → Prop
  | _, [] => False
  | place, (origin, next) :: rest =>
    origin = place ∧ if next = 0 then rest = [] else FullCycle next rest

/-- From `place` to `stop` without coming back to `0`. -/
def OpenCycle : Cursor → List (Cursor × Cursor) → Cursor → Prop
  | place, [], stop => place = stop
  | place, (origin, next) :: rest, stop =>
    origin = place ∧ next ≠ 0 ∧ OpenCycle next rest stop

theorem OpenCycle.further {legs : List (Cursor × Cursor)} {place stop next : Cursor}
    (way : OpenCycle place legs stop) (more : next ≠ 0) :
    OpenCycle place (legs ++ [(stop, next)]) next := by
  induction legs generalizing place with
  | nil => exact ⟨way.symm, more, rfl⟩
  | cons leg legs induction => exact ⟨way.1, way.2.1, induction way.2.2⟩

theorem OpenCycle.close {legs : List (Cursor × Cursor)} {place stop : Cursor}
    (way : OpenCycle place legs stop) : FullCycle place (legs ++ [(stop, 0)]) := by
  induction legs generalizing place with
  | nil =>
    refine ⟨way.symm, ?_⟩
    rw [if_pos rfl]
  | cons leg legs induction =>
    refine ⟨way.1, ?_⟩
    rw [if_neg way.2.1]
    exact induction way.2.2

/-- The answered envelopes of a walk that stands at a shard's cursor. -/
inductive Crossed : List Sent → Nat → Cursor → Prop where
  | start : Crossed [] 0 0
  | within {sent : List Sent} {last : Sent} {shard : Nat} {cursor next : Cursor}
      (before : Crossed sent shard cursor) (here : last.shard = shard)
      (leg : last.leg = some (cursor, next)) (more : next ≠ 0) :
      Crossed (sent ++ [last]) shard next
  | across {sent : List Sent} {last : Sent} {shard : Nat} {cursor : Cursor}
      (before : Crossed sent shard cursor) (here : last.shard = shard)
      (leg : last.leg = some (cursor, 0)) : Crossed (sent ++ [last]) (shard + 1) 0

theorem legsOf_append_same {leg : Cursor × Cursor} (moves : last.leg = some leg) :
    legsOf last.shard (sent ++ [last]) = legsOf last.shard sent ++ [leg] := by
  simp [legsOf, List.filter_append, List.filterMap_append, moves]

theorem legsOf_append_other (other : last.shard ≠ shard) :
    legsOf shard (sent ++ [last]) = legsOf shard sent := by
  simp [legsOf, List.filter_append, other]

/-- The shards behind have gone full cycle, the one at hand is on its way, and
those ahead have not been asked. -/
theorem Crossed.cycles (crossed : Crossed sent shard cursor) :
    (∀ earlier < shard, FullCycle 0 (legsOf earlier sent)) ∧
      OpenCycle 0 (legsOf shard sent) cursor ∧ ∀ later, shard < later → legsOf later sent = [] := by
  induction crossed with
  | start => exact ⟨fun earlier impossible => by omega, rfl, fun _ _ => rfl⟩
  | @within sent last shard cursor next before here leg more induction =>
    obtain ⟨behind, at_, ahead⟩ := induction
    subst here
    refine ⟨fun earlier below => ?_, ?_, fun later above => ?_⟩
    · rw [legsOf_append_other (by omega)]
      exact behind earlier below
    · rw [legsOf_append_same leg]
      exact at_.further more
    · rw [legsOf_append_other (by omega)]
      exact ahead later above
  | @across sent last shard cursor before here leg induction =>
    obtain ⟨behind, at_, ahead⟩ := induction
    subst here
    refine ⟨fun earlier below => ?_, ?_, fun later above => ?_⟩
    · by_cases same : last.shard = earlier
      · subst same
        rw [legsOf_append_same leg]
        exact at_.close
      · rw [legsOf_append_other same]
        exact behind earlier (by omega)
    · rw [legsOf_append_other (by omega), ahead _ (Nat.lt_succ_self _)]
      rfl
    · rw [legsOf_append_other (by omega)]
      exact ahead later (by omega)

theorem Crossed.start_eq (crossed : Crossed sent shard cursor) (first : shard = 0)
    (zero : cursor = 0) : sent = [] := by
  cases crossed with
  | start => rfl
  | within before here leg more => exact absurd zero more
  | across before here leg => omega

/-- At the start of a shard that is not the first, the last answer ended the one
before. -/
theorem Crossed.ended (crossed : Crossed sent shard cursor) (zero : cursor = 0) (some : sent ≠ []) :
    ∃ last origin, sent.getLast? = Option.some last ∧ last.shard + 1 = shard ∧
      last.leg = Option.some (origin, 0) := by
  cases crossed with
  | start => exact absurd rfl some
  | within before here leg more => exact absurd zero more
  | @across sent last shard cursor before here leg =>
    exact ⟨last, cursor, by simp, by rw [here], leg⟩

/-- Where a call stands; behind the last shard once that is spent. -/
def Crossing.place (crossing : Crossing) : Nat × Cursor :=
  if crossing.finished then (crossing.shards, 0) else (crossing.shard, crossing.internal)

/-- What an answer makes of a call: it goes on in the shard, in the next one, or is
over. -/
theorem Crossing.feed_cases (crossing : Crossing) (next : Cursor) (keys : List Bytes)
    (visited : Nat) :
    (next ≠ 0 ∧ crossing.feed next keys visited = { crossing with
        keys := crossing.keys ++ keys
        bucketsLeft := crossing.bucketsLeft - max visited 1
        internal := next }) ∨
      (next = 0 ∧ crossing.shard + 1 < crossing.shards ∧
        crossing.feed next keys visited = { crossing with
          keys := crossing.keys ++ keys
          bucketsLeft := crossing.bucketsLeft - max visited 1
          shard := crossing.shard + 1
          internal := 0 }) ∨
      (next = 0 ∧ crossing.shards ≤ crossing.shard + 1 ∧
        crossing.feed next keys visited = { crossing with
          keys := crossing.keys ++ keys
          bucketsLeft := crossing.bucketsLeft - max visited 1
          finished := true }) := by
  unfold feed
  by_cases spent : next = 0
  · right
    by_cases more : crossing.shard + 1 < crossing.shards
    · exact Or.inl ⟨spent, more, by simp [spent, more]⟩
    · exact Or.inr ⟨spent, Nat.not_lt.mp more, by simp [spent, more]⟩
  · exact Or.inl ⟨spent, by rw [if_pos spent]⟩

theorem Crossing.place_feed (going : crossing.finished = false)
    (inside : crossing.shard < crossing.shards) (next : Cursor) (keys : List Bytes)
    (visited : Nat) :
    (crossing.feed next keys visited).place =
      if next = 0 then (crossing.shard + 1, 0) else (crossing.shard, next) := by
  rcases crossing.feed_cases next keys visited with
    ⟨more, fed⟩ | ⟨spent, more, fed⟩ | ⟨spent, last, fed⟩
  · rw [fed, if_neg more]
    simp [place, going]
  · rw [fed, if_pos spent]
    simp [place, going]
  · have behind : crossing.shards = crossing.shard + 1 := by omega
    rw [fed, if_pos spent]
    simp [place, behind]

theorem Crossing.wantsStep_eq_some {step : Step} (wants : crossing.wantsStep = some step) :
    crossing.finished = false ∧ 0 < crossing.bucketsLeft ∧
      step = ⟨crossing.shard, crossing.internal, crossing.bucketsLeft⟩ := by
  unfold wantsStep at wants
  split at wants
  · cases wants
  · next going =>
      rw [not_or, not_or] at going
      exact ⟨by simpa using going.1, Nat.pos_of_ne_zero going.2.2, (Option.some.inj wants).symm⟩

/-- Behind a step there is none in the same shard: a cursor that stays within it
has spent the call's budget. -/
theorem Crossing.wantsStep_feed (next : Cursor) (keys : List Bytes) {visited : Nat}
    (whole : next ≠ 0 → crossing.bucketsLeft ≤ visited) :
    (crossing.feed next keys visited).wantsStep = none ∨
      (crossing.feed next keys visited).shard = crossing.shard + 1 := by
  rcases crossing.feed_cases next keys visited with
    ⟨more, fed⟩ | ⟨spent, more, fed⟩ | ⟨spent, last, fed⟩
  · left
    have none : crossing.bucketsLeft - max visited 1 = 0 := by
      have := whole more
      omega
    rw [fed]
    simp [wantsStep, none]
  · right
    rw [fed]
  · left
    rw [fed]
    simp [wantsStep]

/-- A crossing still under way is on one of its shards. -/
def Crossing.Inside (crossing : Crossing) : Prop :=
  crossing.finished = false → crossing.shard < crossing.shards

/-- What a call that went on means for the next: it starts where this one stopped. -/
theorem unpackCursor_finish (few : crossing.shards ≤ 65536) (inside : crossing.Inside)
    (below : crossing.place.2.toNat < 281474976710656) (more : crossing.finish.1 ≠ 0) :
    unpackCursor crossing.finish.1 = crossing.place := by
  unfold Crossing.finish at more ⊢
  unfold Crossing.place at below ⊢
  cases finished : crossing.finished with
  | true => simp [finished] at more
  | false =>
    have shard := inside finished
    simp only [finished, Bool.false_eq_true, if_false] at below ⊢
    exact unpackCursor_packCursor (by omega) below

/-- A call that moved the walk and returned `0` has spent the last shard. -/
theorem place_of_finish_zero (few : crossing.shards ≤ 65536) (inside : crossing.Inside)
    (below : crossing.place.2.toNat < 281474976710656)
    (crossed : Crossed counted crossing.place.1 crossing.place.2) (moved : counted ≠ [])
    (zero : crossing.finish.1 = 0) : crossing.place = (crossing.shards, 0) := by
  unfold Crossing.finish at zero
  unfold Crossing.place at below crossed ⊢
  cases finished : crossing.finished with
  | true => rfl
  | false =>
    have shard := inside finished
    simp only [finished, Bool.false_eq_true, if_false] at below zero crossed
    have unpacked := unpackCursor_packCursor (show crossing.shard < 65536 by omega) below
    have start : unpackCursor 0 = (0, 0) := by decide
    rw [zero, start, Prod.mk.injEq] at unpacked
    exact absurd (crossed.start_eq unpacked.1.symm unpacked.2.symm) moved

section

variable {L : Type} [SipHasher] {pattern : Option Bytes} {before after terrain : Terrain L}
  {returned : List Bytes}

/-- What `MATCH` lets through. -/
def Wanted (pattern : Option Bytes) (key : Bytes) : Prop :=
  pattern.all (fun pattern => Glob.isMatch pattern key) = true

structure Progress (pattern : Option Bytes) (terrain : Terrain L) (counted : List Sent)
    (returned : List Bytes) (place : Nat × Cursor) : Prop where
  crossed : Crossed counted place.1 place.2
  within : place.2.toNat < 281474976710656
  passed : ∀ earlier key, earlier < place.1 → Wanted pattern key →
    terrain.LiveThroughout earlier key → key ∈ returned
  here : ∀ key, place.1 < terrain.shards.length → Wanted pattern key →
    terrain.LiveThroughout place.1 key →
    key ∈ returned ∨ terrain.AheadAt place.1 place.2 key

theorem Progress.start (pattern : Option Bytes) (sound : terrain.Sound) :
    Progress pattern terrain [] [] (0, 0) where
  crossed := .start
  within := by decide
  passed := by
    intro earlier key impossible
    exact absurd impossible (Nat.not_lt_zero _)
  here := by
    intro key inside _ _
    have member := List.getElem_mem inside
    exact Or.inr ⟨terrain.shards[0], List.getElem?_eq_getElem inside,
      Dict.ahead_zero (sound _ member).toValid key⟩

theorem Progress.follows {place : Nat × Cursor}
    (progress : Progress pattern before counted returned place) (sound : before.Sound)
    (follows : before.Follows after) : Progress pattern after counted returned place where
  __ := progress
  passed := by
    intro earlier key below wanted live
    exact progress.passed earlier key below wanted (live.earlier follows.moments)
  here := by
    intro key inside wanted live
    rw [follows.shards] at inside
    rcases progress.here key inside wanted (live.earlier follows.moments) with returned | ahead
    · exact Or.inl returned
    · exact Or.inr (follows.ahead sound live ahead)

theorem Progress.step {count visited : Nat} {next : Cursor} {keys : List Bytes}
    {state : ShardState L} {now : Now}
    (progress : Progress pattern terrain counted returned (shard, cursor))
    (sound : terrain.Sound) (found : terrain.shards[shard]? = some state)
    (moment : (now, terrain.shards) ∈ terrain.moments)
    (answer : ScanAnswer state.dict pattern now.instant cursor count keys next visited)
    (below : terrain.TablesBelow 281474976710656) (target : last.shard = shard)
    (leg : last.leg = some (cursor, next)) :
    Progress pattern terrain (counted ++ [last]) (returned ++ keys)
      (if next = 0 then (shard + 1, 0) else (shard, next)) := by
  have member : state ∈ terrain.shards := List.mem_of_getElem? found
  have inside : shard < terrain.shards.length := (List.getElem?_eq_some_iff.mp found).1
  have reported : ∀ key, Wanted pattern key → terrain.LiveThroughout shard key →
      key ∈ returned ++ keys ∨ (next ≠ 0 ∧ terrain.AheadAt shard next key) :=
    fun key wanted live => Terrain.returned_or_ahead found moment
      (fun ahead alive => answer.reported key ahead alive wanted) live
      (progress.here key inside wanted live)
  by_cases spent : next = 0
  · subst spent
    rw [if_pos rfl]
    have zero : (0 : Cursor).toNat < 281474976710656 := by decide
    refine ⟨.across progress.crossed target leg, zero, ?_, ?_⟩
    · intro earlier key before wanted live
      by_cases same : earlier = shard
      · subst same
        rcases reported key wanted live with reported | ⟨more, -⟩
        · exact reported
        · exact absurd rfl more
      · have before : earlier < shard + 1 := before
        exact List.mem_append_left _
          (progress.passed earlier key (show earlier < shard by omega) wanted live)
    · intro key inside _ _
      have valid := (sound _ (List.getElem_mem inside)).toValid
      exact Or.inr ⟨_, List.getElem?_eq_getElem inside, Dict.ahead_zero valid key⟩
  · rw [if_neg spent]
    refine ⟨.within progress.crossed target leg spent,
      answer.within _ (below _ moment state member), ?_, ?_⟩
    · intro earlier key before wanted live
      exact List.mem_append_left _ (progress.passed earlier key before wanted live)
    · intro key inside wanted live
      exact (reported key wanted live).imp_right And.right

end

section

variable {L : Type} [SipHasher] {pattern : Option Bytes} {before middle after : Terrain L}
  {calls : List Sent} {first : Sent}

/-- What the loop of one call comes to. -/
structure Journey (pattern : Option Bytes) (crossing : Crossing) (before after : Terrain L)
    (outcome : Except Frame Crossing) (calls : List Sent) : Prop where
  follows : before.Follows after
  sent : after.sent = before.sent ++ calls
  rising : (calls.map Sent.shard).Pairwise (· < ·)
  onward : ∀ call ∈ calls, crossing.shard ≤ call.shard
  still : crossing.wantsStep = none → calls = []
  moves : crossing.wantsStep ≠ none → calls ≠ []
  refused : ∀ frame, outcome = .error frame → ∃ text, frame = .error text
  overrun : ∀ last, outcome = .ok last → last.wantsStep = none
  inside : ∀ last, outcome = .ok last → last.shards = crossing.shards ∧ last.Inside
  arrives : ∀ last, outcome = .ok last → after.TablesBelow 281474976710656 →
    ∀ counted returned,
      Progress pattern before counted (returned ++ crossing.keys) crossing.place →
      Progress pattern after (counted ++ calls) (returned ++ last.keys) last.place

theorem Journey.stay (terrain : Terrain L) (inside : crossing.Inside)
    (overrun : crossing.wantsStep = none) :
    Journey pattern crossing terrain terrain (.ok crossing) [] where
  follows := .refl terrain
  sent := (List.append_nil _).symm
  rising := .nil
  onward := by simp
  still := fun _ => rfl
  moves := fun wants => absurd overrun wants
  refused := nofun
  overrun := fun last same => by
    cases same
    exact overrun
  inside := fun last same => by
    cases same
    exact ⟨rfl, inside⟩
  arrives := fun last same _ counted returned progress => by
    cases same
    rw [List.append_nil]
    exact progress

theorem Journey.cons {fed : Crossing} {outcome : Except Frame Crossing}
    (wants : crossing.wantsStep ≠ none)
    (follows : before.Follows middle) (sent : middle.sent = before.sent ++ [first])
    (target : first.shard = crossing.shard)
    (elsewhere : fed.wantsStep = none ∨ fed.shard = crossing.shard + 1)
    (shards : fed.shards = crossing.shards)
    (moved : middle.TablesBelow 281474976710656 → ∀ counted returned,
      Progress pattern before counted (returned ++ crossing.keys) crossing.place →
      Progress pattern middle (counted ++ [first]) (returned ++ fed.keys) fed.place)
    (rest : Journey pattern fed middle after outcome calls) :
    Journey pattern crossing before after outcome (first :: calls) where
  follows := follows.trans rest.follows
  sent := by rw [rest.sent, sent, List.append_assoc, List.singleton_append]
  rising := by
    rw [List.map_cons, List.pairwise_cons]
    refine ⟨?_, rest.rising⟩
    intro shard member
    obtain ⟨call, listed, rfl⟩ := List.mem_map.mp member
    rcases elsewhere with overrun | next
    · rw [rest.still overrun] at listed
      cases listed
    · have := rest.onward call listed
      omega
  onward := by
    intro call member
    rcases List.mem_cons.mp member with rfl | listed
    · exact Nat.le_of_eq target.symm
    · rcases elsewhere with overrun | next
      · rw [rest.still overrun] at listed
        cases listed
      · have := rest.onward call listed
        omega
  still := fun overrun => absurd overrun wants
  moves := fun _ => List.cons_ne_nil _ _
  __ := rest
  inside := by
    rw [← shards]
    exact rest.inside
  arrives := by
    intro last same below counted returned progress
    have arrived := rest.arrives last same below (counted ++ [first]) returned
      (moved (below.earlier rest.follows.moments) counted returned progress)
    rwa [List.append_assoc, List.singleton_append] at arrived

theorem Journey.fail (text : Bytes) (wants : crossing.wantsStep ≠ none)
    (follows : before.Follows after)
    (sent : after.sent = before.sent ++ [first]) (target : first.shard = crossing.shard) :
    Journey pattern crossing before after (.error (.error text)) [first] where
  follows := follows
  sent := sent
  rising := by simp
  onward := by
    intro call member
    rw [List.mem_singleton] at member
    rw [member, target]
  still := fun overrun => absurd overrun wants
  moves := fun _ => List.cons_ne_nil _ _
  refused := fun frame same => by
    cases same
    exact ⟨text, rfl⟩
  overrun := nofun
  inside := nofun
  arrives := nofun

/-- What a call of a client comes to: an error, or an answer that takes it further. -/
structure Called (pattern : Option Bytes) (cursor : Cursor) (before after : Terrain L)
    (frame : Frame) (calls : List Sent) : Prop where
  follows : before.Follows after
  sent : after.sent = before.sent ++ calls
  rising : (calls.map Sent.shard).Pairwise (· < ·)
  answered : (∃ text, frame = .error text) ∨ ∃ last : Crossing, frame = scanFrame last ∧
    calls ≠ [] ∧ last.shards = before.shards.length ∧ last.Inside ∧
    (after.TablesBelow 281474976710656 → ∀ counted returned,
      Progress pattern before counted returned (unpackCursor cursor) →
      Progress pattern after (counted ++ calls) (returned ++ last.keys) last.place)

variable [ReplicationLog L]

theorem journey_scanLoop (elsewhere : (question : Ask) → question.Answer)
    (pattern : Option Bytes) (budget : Nat) :
    ∀ {crossing : Crossing} {terrain : Terrain L}, crossing.bucketsLeft ≤ budget →
      crossing.shards = terrain.shards.length → crossing.Inside → terrain.Sound →
      ∃ calls, Journey pattern crossing terrain
        ((scanLoop pattern budget crossing).run (Terrain.handle elsewhere) terrain).2
        ((scanLoop pattern budget crossing).run (Terrain.handle elsewhere) terrain).1 calls := by
  induction budget with
  | zero =>
    intro crossing terrain enough _ inside _
    refine ⟨[], Journey.stay terrain inside ?_⟩
    have none : crossing.bucketsLeft = 0 := by omega
    simp [Crossing.wantsStep, none]
  | succ budget induction =>
    intro crossing terrain enough same inside sound
    cases wants : crossing.wantsStep with
    | none =>
      rw [scanLoop, wants]
      exact ⟨[], Journey.stay terrain inside wants⟩
    | some step =>
      obtain ⟨unfinished, positive, rfl⟩ := Crossing.wantsStep_eq_some wants
      have wanted : crossing.wantsStep ≠ none := by
        rw [wants]
        exact Option.some_ne_none _
      have target := inside unfinished
      have follows := terrain.follows_send crossing.shard
        (.scanStep crossing.internal crossing.bucketsLeft pattern)
      have sent := terrain.sent_send crossing.shard
        (.scanStep crossing.internal crossing.bucketsLeft pattern)
      rw [scanLoop, wants]
      dsimp only
      rw [run_ask_bind, Terrain.handle_dispatchAt]
      rcases Terrain.serve_scanStep sound with
        ⟨error, refused⟩ | ⟨keys, next, visited, replied, state, now, found, moment, answer⟩
      · rw [refused]
        exact ⟨_, Journey.fail _ wanted follows sent rfl⟩
      · rw [replied]
        have room : max crossing.bucketsLeft 1 = crossing.bucketsLeft := by omega
        rw [room] at answer
        have whole : next ≠ 0 → crossing.bucketsLeft ≤ visited :=
          fun more => Nat.le_of_eq (answer.whole more).symm
        have shards : (crossing.feed next keys visited).shards = crossing.shards ∧
            (crossing.feed next keys visited).bucketsLeft ≤ budget ∧
            ((crossing.feed next keys visited).finished = false →
              (crossing.feed next keys visited).shard < crossing.shards) ∧
            (crossing.feed next keys visited).keys = crossing.keys ++ keys := by
          rcases crossing.feed_cases next keys visited with
            ⟨more, fed⟩ | ⟨spent, more, fed⟩ | ⟨spent, last, fed⟩
          · rw [fed]
            exact ⟨rfl, by dsimp only; omega, fun _ => target, rfl⟩
          · rw [fed]
            exact ⟨rfl, by dsimp only; omega, fun _ => more, rfl⟩
          · rw [fed]
            exact ⟨rfl, by dsimp only; omega, nofun, rfl⟩
        obtain ⟨count, budgeted, stays, gathered⟩ := shards
        have reached : (crossing.feed next keys visited).shards =
            (terrain.send crossing.shard
              (.scanStep crossing.internal crossing.bucketsLeft pattern)).shards.length := by
          rw [count, same, follows.shards]
        obtain ⟨calls, rest⟩ := induction budgeted reached
          (fun going => count ▸ stays going) (follows.sound sound)
        refine ⟨_, Journey.cons wanted follows sent rfl
          (Crossing.wantsStep_feed next keys whole) count ?_ rest⟩
        intro below counted returned progress
        have stood : crossing.place = (crossing.shard, crossing.internal) := by
          simp [Crossing.place, unfinished]
        rw [stood] at progress
        rw [Crossing.place_feed unfinished target, gathered, ← List.append_assoc]
        apply (progress.follows sound follows).step (follows.sound sound) found moment
          answer below rfl
        rw [replied]
        rfl

theorem called_scan (elsewhere : (question : Ask) → question.Answer) (pattern : Option Bytes)
    (cursor : Cursor) (keyTarget : Nat) {terrain : Terrain L} (sound : terrain.Sound) :
    ∃ calls, Called pattern cursor terrain
      ((scan cursor pattern keyTarget).run (Terrain.handle elsewhere) terrain).2
      ((scan cursor pattern keyTarget).run (Terrain.handle elsewhere) terrain).1 calls := by
  have shards : Terrain.handle elsewhere .shards terrain = (terrain.shards.length, terrain) := rfl
  unfold scan
  rw [run_ask_bind, shards]
  dsimp only
  cases begun : Crossing.begin terrain.shards.length cursor keyTarget walkStepBuckets with
  | none => exact ⟨[], .refl terrain, (List.append_nil _).symm, .nil, Or.inl ⟨_, rfl⟩⟩
  | some crossing =>
    have fresh : (unpackCursor cursor).1 < terrain.shards.length ∧
        crossing = ⟨terrain.shards.length, (unpackCursor cursor).1, (unpackCursor cursor).2,
          max keyTarget 1, max walkStepBuckets 1, [], false⟩ := by
      unfold Crossing.begin at begun
      dsimp only at begun
      split at begun
      · cases begun
      · next inside => exact ⟨Nat.not_le.mp inside, (Option.some.inj begun).symm⟩
    obtain ⟨inside, same⟩ := fresh
    have count : crossing.shards = terrain.shards.length := by rw [same]
    have stands : crossing.place = unpackCursor cursor ∧ crossing.keys = [] := by
      rw [same]
      exact ⟨rfl, rfl⟩
    have within : crossing.Inside := by
      rw [same]
      exact fun _ => inside
    have wants : crossing.wantsStep ≠ none := by
      rw [same]
      simp [Crossing.wantsStep, walkStepBuckets]
    have enough : crossing.bucketsLeft ≤ crossing.bucketsLeft := Nat.le_refl _
    obtain ⟨calls, journey⟩ :=
      journey_scanLoop elsewhere pattern crossing.bucketsLeft enough count within sound
    dsimp only
    rw [Program.run_bind]
    generalize (scanLoop pattern crossing.bucketsLeft crossing).run
      (Terrain.handle elsewhere) terrain = ran at journey ⊢
    obtain ⟨outcome, after⟩ := ran
    cases outcome with
    | error frame =>
      obtain ⟨text, rfl⟩ := journey.refused frame rfl
      exact ⟨calls, journey.follows, journey.sent, journey.rising, Or.inl ⟨text, rfl⟩⟩
    | ok last =>
      obtain ⟨shards, stays⟩ := journey.inside last rfl
      refine ⟨calls, journey.follows, journey.sent, journey.rising,
        Or.inr ⟨last, rfl, journey.moves wants, shards.trans count, stays, ?_⟩⟩
      intro below counted returned progress
      apply journey.arrives last rfl below counted returned
      rw [stands.1, stands.2, List.append_nil]
      exact progress

end

/-- One call: its answer and the envelopes it sent. -/
structure CallRecord where
  frame : Frame
  sent : List Sent

/-- The envelopes of the calls that returned a cursor. -/
def answeredSent (records : List CallRecord) : List Sent :=
  (records.filter fun record => (resumeCursor record.frame).isSome).flatMap CallRecord.sent

def allReturned (records : List CallRecord) : List Bytes :=
  records.flatMap fun record => returnedKeys record.frame

/-- The walk has come to its end. -/
def Finished (records : List CallRecord) : Prop :=
  ∃ record ∈ records, resumeCursor record.frame = some 0

instance (records : List CallRecord) : Decidable (Finished records) :=
  inferInstanceAs (Decidable (∃ record ∈ records, resumeCursor record.frame = some 0))

section

variable {L : Type} [SipHasher] {pattern : Option Bytes} {before middle after : Terrain L}
  {calls : List Sent} {records : List CallRecord}

structure Walked (pattern : Option Bytes) (cursor : Cursor) (before after : Terrain L)
    (records : List CallRecord) : Prop where
  follows : before.Follows after
  rising : ∀ record ∈ records, (record.sent.map Sent.shard).Pairwise (· < ·)
  arrives : after.TablesBelow 281474976710656 → ∀ counted returned,
    Progress pattern before counted returned (unpackCursor cursor) →
    (∀ record ∈ records, resumeCursor record.frame = some 0 →
      ∃ last origin, record.sent.getLast? = some last ∧
        last.shard + 1 = before.shards.length ∧ last.leg = some (origin, 0)) ∧
    (Finished records → Progress pattern after (counted ++ answeredSent records)
      (returned ++ allReturned records) (before.shards.length, 0))

theorem Walked.nil (pattern : Option Bytes) (cursor : Cursor) (terrain : Terrain L) :
    Walked pattern cursor terrain terrain [] where
  follows := .refl terrain
  rising := nofun
  arrives := by
    intro _ counted returned _
    refine ⟨nofun, ?_⟩
    rintro ⟨record, impossible, _⟩
    cases impossible

theorem Walked.refused {text : Bytes}
    (called : Called pattern cursor before middle (.error text) calls)
    (sound : before.Sound) (rest : Walked pattern cursor middle after records) :
    Walked pattern cursor before after (⟨.error text, calls⟩ :: records) where
  follows := called.follows.trans rest.follows
  rising := List.forall_mem_cons.mpr ⟨called.rising, rest.rising⟩
  arrives := by
    intro below counted returned progress
    obtain ⟨ended, arrived⟩ := rest.arrives below counted returned
      (progress.follows sound called.follows)
    rw [called.follows.shards] at ended arrived
    refine ⟨List.forall_mem_cons.mpr ⟨nofun, ended⟩, ?_⟩
    rintro ⟨record, member, zero⟩
    rcases List.mem_cons.mp member with rfl | listed
    · cases zero
    · exact arrived ⟨record, listed, zero⟩

theorem Walked.ended (called : Called pattern cursor before after (scanFrame crossing) calls)
    (few : before.shards.length ≤ 65536) (moved : calls ≠ [])
    (shards : crossing.shards = before.shards.length) (inside : crossing.Inside)
    (arrives : after.TablesBelow 281474976710656 → ∀ counted returned,
      Progress pattern before counted returned (unpackCursor cursor) →
      Progress pattern after (counted ++ calls) (returned ++ crossing.keys) crossing.place)
    (zero : crossing.finish.1 = 0) :
    Walked pattern cursor before after [⟨scanFrame crossing, calls⟩] where
  follows := called.follows
  rising := by
    rw [List.forall_mem_singleton]
    exact called.rising
  arrives := by
    intro below counted returned progress
    have arrived := arrives below counted returned progress
    have some : counted ++ calls ≠ [] := by simp [moved]
    have place := place_of_finish_zero (shards ▸ few) inside arrived.within arrived.crossed
      some zero
    rw [place, shards] at arrived
    refine ⟨?_, fun _ => ?_⟩
    · rw [List.forall_mem_singleton]
      intro _
      obtain ⟨last, origin, final, target, leg⟩ := arrived.crossed.ended rfl some
      rw [List.getLast?_append_of_ne_nil _ moved] at final
      exact ⟨last, origin, final, target, leg⟩
    · simpa [answeredSent, allReturned, resumeCursor_scanFrame, returnedKeys_scanFrame]
        using arrived

theorem Walked.onward (called : Called pattern cursor before middle (scanFrame crossing) calls)
    (few : before.shards.length ≤ 65536) (shards : crossing.shards = before.shards.length)
    (inside : crossing.Inside)
    (arrives : middle.TablesBelow 281474976710656 → ∀ counted returned,
      Progress pattern before counted returned (unpackCursor cursor) →
      Progress pattern middle (counted ++ calls) (returned ++ crossing.keys) crossing.place)
    (more : crossing.finish.1 ≠ 0) (rest : Walked pattern crossing.finish.1 middle after records) :
    Walked pattern cursor before after (⟨scanFrame crossing, calls⟩ :: records) where
  follows := called.follows.trans rest.follows
  rising := List.forall_mem_cons.mpr ⟨called.rising, rest.rising⟩
  arrives := by
    intro below counted returned progress
    have arrived := arrives (below.earlier rest.follows.moments) counted returned progress
    have place := unpackCursor_finish (shards ▸ few) inside arrived.within more
    rw [← place] at arrived
    obtain ⟨ended, last⟩ := rest.arrives below _ _ arrived
    rw [called.follows.shards] at ended last
    refine ⟨List.forall_mem_cons.mpr ⟨?_, ended⟩, ?_⟩
    · intro zero
      rw [resumeCursor_scanFrame] at zero
      exact absurd (Option.some.inj zero) more
    · rintro ⟨record, member, zero⟩
      rcases List.mem_cons.mp member with rfl | listed
      · rw [resumeCursor_scanFrame] at zero
        exact absurd (Option.some.inj zero) more
      · have finished := last ⟨record, listed, zero⟩
        simpa [answeredSent, allReturned, resumeCursor_scanFrame, returnedKeys_scanFrame]
          using finished

variable [ReplicationLog L]

/-- A client's calls until one returns `0`; a refused one is made again. -/
def scanCalls (elsewhere : (question : Ask) → question.Answer) (pattern : Option Bytes) :
    List Nat → Cursor → Terrain L → List CallRecord × Terrain L
  | [], _, terrain => ([], terrain)
  | count :: counts, cursor, terrain =>
    let (frame, after) :=
      (scan cursor pattern count).run (Terrain.handle elsewhere) terrain
    let record := ⟨frame, after.sent.drop terrain.sent.length⟩
    match resumeCursor frame with
    | none =>
      let (records, last) := scanCalls elsewhere pattern counts cursor after
      (record :: records, last)
    | some next =>
      if next = 0 then
        ([record], after)
      else
        let (records, last) := scanCalls elsewhere pattern counts next after
        (record :: records, last)

theorem walked_scanCalls (elsewhere : (question : Ask) → question.Answer)
    (pattern : Option Bytes) (counts : List Nat) :
    ∀ (cursor : Cursor) {terrain : Terrain L}, terrain.shards.length ≤ 65536 → terrain.Sound →
      Walked pattern cursor terrain (scanCalls elsewhere pattern counts cursor terrain).2
        (scanCalls elsewhere pattern counts cursor terrain).1 := by
  induction counts with
  | nil => exact fun cursor terrain _ _ => .nil pattern cursor terrain
  | cons count counts induction =>
    intro cursor terrain few sound
    obtain ⟨calls, called⟩ := called_scan elsewhere pattern cursor count sound
    unfold scanCalls
    generalize (scan cursor pattern count).run (Terrain.handle elsewhere) terrain = ran
      at called ⊢
    obtain ⟨frame, after⟩ := ran
    have own : after.sent.drop terrain.sent.length = calls := by
      have sent : after.sent = terrain.sent ++ calls := called.sent
      rw [sent, List.drop_left]
    have reached : after.Sound := called.follows.sound sound
    have still : after.shards.length ≤ 65536 := by
      have same : after.shards.length = terrain.shards.length := called.follows.shards
      rw [same]
      exact few
    dsimp only at called ⊢
    rw [own]
    rcases called.answered with
      ⟨text, rfl⟩ | ⟨crossing, rfl, moved, shards, inside, arrives⟩
    · exact Walked.refused called sound (induction cursor still reached)
    · rw [resumeCursor_scanFrame]
      dsimp only
      by_cases zero : crossing.finish.1 = 0
      · rw [if_pos zero]
        exact Walked.ended called few moved shards inside arrives zero
      · rw [if_neg zero]
        exact Walked.onward called few shards inside arrives zero
          (induction crossing.finish.1 still reached)

/-- A client's walk over a node of any shards, with anything done to them between its
envelopes.  No call sends two envelopes to one shard; a call returns `0` only when
its last answer ended the last shard; and once one has, the cursor of every shard
has gone from `0` back to `0`, and every key the pattern lets through that was
live at each moment has been returned. -/
theorem scan_walk_complete (elsewhere : (question : Ask) → question.Answer)
    (pattern : Option Bytes) (counts : List Nat) (shards : List (ShardState L))
    (upcoming : List Interlude) (few : shards.length ≤ 65536)
    (sound : ∀ state ∈ shards, state.dict.Sound)
    (below : (scanCalls elsewhere pattern counts 0 (.start shards upcoming)).2.TablesBelow
      281474976710656) :
    let walk := scanCalls elsewhere pattern counts 0 (.start shards upcoming)
    (∀ record ∈ walk.1, (record.sent.map Sent.shard).Nodup) ∧
      (∀ record ∈ walk.1, resumeCursor record.frame = some 0 →
        ∃ last origin, record.sent.getLast? = some last ∧ last.shard + 1 = shards.length ∧
          last.leg = some (origin, 0)) ∧
      (Finished walk.1 →
        (∀ shard < shards.length, FullCycle 0 (legsOf shard (answeredSent walk.1))) ∧
        ∀ shard key, shard < shards.length → Wanted pattern key →
          walk.2.LiveThroughout shard key →
          ∃ record ∈ walk.1, key ∈ returnedKeys record.frame) := by
  intro walk
  have walked : Walked pattern 0 (.start shards upcoming) walk.2 walk.1 :=
    walked_scanCalls elsewhere pattern counts 0 few sound
  have zero : unpackCursor 0 = (0, 0) := by decide
  have started : Progress pattern (.start shards upcoming) [] [] (unpackCursor 0) := by
    rw [zero]
    exact .start pattern sound
  obtain ⟨ended, arrived⟩ := walked.arrives below [] [] started
  refine ⟨?_, ended, fun finished => ?_⟩
  · intro record member
    exact (walked.rising record member).imp Nat.ne_of_lt
  · have progress := arrived finished
    refine ⟨progress.crossed.cycles.1, ?_⟩
    intro shard key inside wanted live
    have returned := progress.passed shard key inside wanted live
    rw [List.nil_append] at returned
    exact List.mem_flatMap.mp returned

/-- What a node answers that serves nothing but the envelopes of the walk. -/
def nothingElse : (question : Ask) → question.Answer
  | .look => ⟨[], 6379, [], 10000, 0, ⟨none, .noEviction⟩, none, none⟩
  | .shards => 0
  | .dispatch _ => .error .shardUnavailable
  | .dispatchAt _ _ => .error .shardUnavailable
  | .dispatchMany _ => []
  | .dispatchEvery _ => []
  | .info _ => []
  | .wake _ => 0
  | .write _ => true
  | .stop => ()

omit [SipHasher] [ReplicationLog L] in
/-- Two shards and calls for one key each: another client sets a key under way, the
second call is refused and made again, and the last returns `0`. -/
theorem scan_walk_complete_two_shards :
    let _ : SipHasher := ⟨fun _ _ _ => 3⟩
    let now : Now := ⟨5, 5, by decide⟩
    let fresh : ShardState RefusingLog :=
      .recovered (Dict.withSeed ⟨0, 0⟩) 0 ⟨fun _ => true, 0, []⟩
    let shards := [fresh.take 0 now (.command (.setNx [97] [49])),
      fresh.take 1 now (.command (.setNx [98] [50]))]
    let upcoming : List Interlude :=
      [⟨[], .ok now⟩, ⟨[(0, now, .command (.setNx [99] [51]))], .error .shardUnavailable⟩,
        ⟨[], .ok now⟩]
    let walk := scanCalls nothingElse none [1, 1, 1] 0 (.start shards upcoming)
    walk.1.map (fun record => resumeCursor record.frame) =
        [some (packCursor 1 0), none, some 0] ∧
      (∀ shard < shards.length, FullCycle 0 (legsOf shard (answeredSent walk.1))) ∧
      ∃ record ∈ walk.1, [98] ∈ returnedKeys record.frame := by
  intro hasher now fresh shards upcoming
  dsimp only
  have blank : fresh.dict.Sound := Dict.sound_withSeed _
  have sound : ∀ state ∈ shards, state.dict.Sound := by
    simp only [shards, List.forall_mem_cons]
    exact ⟨ShardState.sound_take blank _, ShardState.sound_take blank _,
      nofun⟩
  obtain ⟨-, -, complete⟩ := scan_walk_complete nothingElse none [1, 1, 1] shards upcoming
    (by decide) sound (by decide +kernel)
  obtain ⟨cycles, returned⟩ := complete (by decide +kernel)
  have live : (scanCalls nothingElse none [1, 1, 1] 0
      (.start shards upcoming)).2.LiveThroughout 1 [98] := by decide +kernel
  refine ⟨by decide +kernel, ?_, returned 1 [98] (by decide) rfl live⟩
  -- `exact` would run the walk to see what `FullCycle` unfolds to
  assumption

end

end Seedstone.Service
