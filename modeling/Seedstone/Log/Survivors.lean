import Seedstone.Log.WholeRead

/-!
# What the reader finds

A body of intact records with damaged stretches between them.  As long as no hole
goes past the cap, the resynchronising reader yields the intact records, each where
it lies, and counts the stretches, whatever its chunk size.
-/

namespace Seedstone

variable {damage : Damage}

/-- What every reader at a place yields from there on. -/
def Place.Shows (body : Bytes) (place : Place) (items : List (Item × Damage))
    (last : Damage) : Prop :=
  ∀ reader : Reader, Reader.Sees body reader place → reader.Yields items last

namespace Place

variable {body : Bytes} {place after : Place} {items : List (Item × Damage)} {last : Damage}

/-- Every reader at a place comes to decide what stands there, and goes where the place
goes. -/
theorem shows_of_turn (ongoing : place.accounts.damage.abandoned = false)
    (calm : place.accounts.overdrawn = false)
    (goes : ∀ ready, Reader.Follows body ready place ready.turn → ready.Yields items last) :
    place.Shows body items last := by
  intro reader sees
  obtain ⟨ready, _, _, decided, yields⟩ :=
    sees.settles ongoing (fun _ => True) (fun _ _ _ => trivial) trivial
  exact yields (goes ready (decided.follows (by simp [calm])))

theorem Shows.again (moved : place.turn body = .again after)
    (ongoing : place.accounts.damage.abandoned = false)
    (calm : place.accounts.overdrawn = false) (rest : after.Shows body items last) :
    place.Shows body items last := by
  refine shows_of_turn ongoing calm fun ready follows => ?_
  rw [Reader.Follows, moved] at follows
  obtain ⟨next, turned, later, _⟩ := follows
  exact .again turned (rest next later)

theorem Shows.item {item : Item} (moved : place.turn body = .last (.item item, after))
    (ongoing : place.accounts.damage.abandoned = false)
    (calm : place.accounts.overdrawn = false) (rest : after.Shows body items last) :
    place.Shows body ((item, after.accounts.damage) :: items) last := by
  refine shows_of_turn ongoing calm fun ready follows => ?_
  rw [Reader.Follows, moved] at follows
  obtain ⟨next, turned, later, _⟩ := follows
  rw [← later.accounts]
  exact .item turned (rest next later)

theorem Shows.finished (moved : place.turn body = .last (.finished, after))
    (ongoing : place.accounts.damage.abandoned = false) (calm : place.accounts.overdrawn = false) :
    place.Shows body [] after.accounts.damage := by
  refine shows_of_turn ongoing calm fun ready follows => ?_
  rw [Reader.Follows, moved] at follows
  obtain ⟨next, turned, accounts⟩ := follows
  rw [← accounts]
  exact .finished turned

end Place

/-- A stretch of damage in front of `behind`: what its candidates make the reader
checksum. -/
def checksummedOver (behind : Bytes) : Bytes → Nat
  | [] => 0
  | byte :: stretch =>
    (checksummedLen (byte :: stretch ++ behind)).getD 0 + checksummedOver behind stretch

/-- No record is read inside the stretch, and the hole it makes stays within the cap. -/
structure DamagedStretch (stretch behind : Bytes) : Prop where
  unread : ∀ offset < stretch.length, ∀ shard seq payload consumed,
    decodeRecord ((stretch ++ behind).drop offset) ≠ .record shard seq payload consumed
  within : checksummedOver behind stretch ≤ resyncCap

namespace Accounts

/-- At a trusted boundary, with no hole open. -/
def trusted (damage : Damage) : Accounts :=
  ⟨false, none, none, 0, damage⟩

/-- In a hole that opened in front of `suffix`, before its first byte is passed. -/
def opened (suffix : Bytes) (damage : Damage) : Accounts where
  resynchronising := true
  holeAtTail := if decodeRecord suffix = .needMore then some damage.bytes else none
  holeAtEnd := if decodeRecord suffix = .endOfLog then some damage else none
  spent := 0
  damage := { damage with holes := damage.holes + 1 }

/-- Further on in a hole: so many bytes passed, and so many checksummed. -/
def further (accounts : Accounts) (spent bytes : Nat) : Accounts :=
  { accounts with
    spent := accounts.spent + spent
    damage := { accounts.damage with bytes := accounts.damage.bytes + bytes } }

theorem further_further (accounts : Accounts) (spent bytes more others : Nat) :
    (accounts.further spent bytes).further more others =
      accounts.further (spent + more) (bytes + others) := by
  simp [further, Nat.add_assoc]

end Accounts

/-- No record is read in front of `bytes`. -/
abbrev Unread (bytes : Bytes) : Prop :=
  ∀ shard seq payload consumed, decodeRecord bytes ≠ .record shard seq payload consumed

namespace Place

variable {body behind : Bytes} {offset : Nat} {items : List (Item × Damage)} {last : Damage}

theorem turn_inHole {accounts : Accounts} (inside : offset < body.length)
    (unread : Unread (body.drop offset)) (entered : accounts.resynchronising = true)
    (ongoing : accounts.damage.abandoned = false) (calm : accounts.overdrawn = false) :
    turn body ⟨offset, accounts⟩ =
      .again ⟨offset + 1, accounts.further ((checksummedLen (body.drop offset)).getD 0) 1⟩ := by
  have stays (accounts : Accounts) (ongoing : accounts.damage.abandoned = false) :
      past ⟨offset, accounts⟩ accounts 1 = .again ⟨offset + 1, accounts.further 0 1⟩ := by
    simp [past, settle, Accounts.step, Accounts.further, ongoing]
  unfold turn
  rw [if_neg (Nat.not_le.mpr inside)]
  dsimp only
  cases reads : decodeRecord (body.drop offset) with
  | record shard seq payload consumed => exact absurd reads (unread _ _ _ _)
  | endOfLog =>
    have marked : accounts.atMarker = accounts := by
      unfold Accounts.atMarker
      rw [if_pos entered]
    dsimp only
    rw [checksummedLen_eq_none (.inr reads), marked]
    exact stays accounts ongoing
  | needMore =>
    dsimp only
    rw [checksummedLen_eq_none (.inl reads), if_pos entered]
    exact stays accounts ongoing
  | corrupt skip =>
    have one : skip = 1 := decodeRecord_inside.2 skip reads
    have hole : accounts.enterHole = accounts := by
      unfold Accounts.enterHole
      rw [if_pos entered]
    dsimp only
    rw [one]
    unfold Accounts.atDamage
    cases checksummedLen (body.drop offset) with
    | none =>
      dsimp only
      rw [hole]
      exact stays accounts ongoing
    | some declared =>
      dsimp only
      rw [hole]
      simp [Accounts.charge, calm, past, settle, Accounts.step, Accounts.further, ongoing]

/-- A hole opens: its first byte is passed as any later one. -/
theorem turn_trusted (unread : Unread (body.drop offset)) (inside : offset < body.length) :
    turn body ⟨offset, .trusted damage⟩ =
      turn body ⟨offset, .opened (body.drop offset) damage⟩ := by
  unfold turn
  rw [if_neg (Nat.not_le.mpr inside), if_neg (Nat.not_le.mpr inside)]
  dsimp only
  cases reads : decodeRecord (body.drop offset) with
  | record shard seq payload consumed => exact absurd reads (unread _ _ _ _)
  | endOfLog =>
    simp [Accounts.opened, reads, past, Accounts.atMarker, Accounts.trusted, Accounts.enterHole]
  | needMore =>
    simp [Accounts.opened, reads, past, Accounts.atTail, Accounts.trusted, Accounts.enterHole]
  | corrupt skip =>
    simp [Accounts.opened, reads, past, Accounts.atDamage, Accounts.trusted, Accounts.enterHole]

/-- A place that moves on as one in a hole does. -/
theorem Shows.hole {place : Place} {accounts : Accounts} (stretch : Bytes)
    (start : stretch = [] → place = ⟨offset, accounts⟩)
    (alike : Unread (body.drop offset) → offset < body.length →
      place.turn body = turn body ⟨offset, accounts⟩) (sight : body.drop offset = stretch ++ behind)
    (unread : ∀ offset < stretch.length, Unread ((stretch ++ behind).drop offset))
    (entered : accounts.resynchronising = true) (ongoing : accounts.damage.abandoned = false)
    (active : place.accounts.damage.abandoned = false)
    (spent : place.accounts.spent ≤ accounts.spent)
    (within : accounts.spent + checksummedOver behind stretch ≤ resyncCap)
    (rest : Shows body ⟨offset + stretch.length,
      accounts.further (checksummedOver behind stretch) stretch.length⟩ items last) :
    place.Shows body items last := by
  induction stretch generalizing offset place accounts with
  | nil =>
    rw [start rfl]
    exact rest
  | cons byte stretch induction =>
    have inside : offset < body.length := by
      by_contra beyond
      rw [List.drop_eq_nil_of_le (by omega)] at sight
      simp at sight
    have calm : accounts.overdrawn = false ∧ place.accounts.overdrawn = false := by
      simp only [Accounts.overdrawn, decide_eq_false_iff_not]
      omega
    rw [checksummedOver] at within rest
    have here : Unread (body.drop offset) := by
      rw [sight]
      exact unread 0 (by simp)
    refine .again ((alike here inside).trans (turn_inHole inside here entered ongoing calm.1))
      active calm.2 ?_
    rw [sight]
    refine induction (fun _ => rfl) (fun _ _ => rfl) ?_ ?_ entered ongoing ongoing
      (Nat.le_refl _) ?_ ?_
    · rw [← List.drop_drop, sight]
      rfl
    · intro later before
      exact unread (later + 1) (by simpa using before)
    · simp only [Accounts.further]
      omega
    · rw [Accounts.further_further, Nat.add_assoc, Nat.add_comm 1]
      exact rest

theorem Shows.stretch {stretch : Bytes} (nonempty : stretch ≠ [])
    (sight : body.drop offset = stretch ++ behind)
    (damaged : DamagedStretch stretch behind) (ongoing : damage.abandoned = false)
    (rest : Shows body ⟨offset + stretch.length,
      (Accounts.opened (stretch ++ behind) damage).further (checksummedOver behind stretch)
      stretch.length⟩ items last) : Shows body ⟨offset, .trusted damage⟩ items last := by
  rw [← sight] at rest
  exact .hole stretch (absurd · nonempty) turn_trusted sight damaged.unread rfl ongoing ongoing
    (Nat.le_refl _) (by simpa [Accounts.opened] using damaged.within) rest

end Place

/-- An intact record, and the damaged stretch right before it, which may be empty. -/
structure Survivor where
  stretch : Bytes
  record : Bytes
  shard : Nat
  seq : Nat
  payload : Bytes
  intact : decodeRecord record = .record shard seq payload record.length

/-- A body of survivors, and a last stretch. -/
def bodyWith (last : Bytes) : List Survivor → Bytes
  | [] => last
  | survivor :: rest => survivor.stretch ++ (survivor.record ++ bodyWith last rest)

/-- Every stretch of a body is damaged. -/
def AllDamaged (last : Bytes) : List Survivor → Prop
  | [] => DamagedStretch last []
  | survivor :: rest =>
    DamagedStretch survivor.stretch (survivor.record ++ bodyWith last rest) ∧
      AllDamaged last rest

/-- The survivors as the reader yields them. -/
def survivingItems (offset : Nat) : List Survivor → List Item
  | [] => []
  | survivor :: rest =>
    let start := offset + survivor.stretch.length
    let stop := start + survivor.record.length
    ⟨survivor.shard, survivor.seq, survivor.payload, start, stop⟩ :: survivingItems stop rest

/-- A last stretch that begins with a candidate whose body runs past the end: its
header declares more than there is, or is itself cut short. -/
def RunsPastEnd (last : Bytes) : Prop :=
  last.head? = some magic ∧
    (last.length < headerLen ∨
      plausibleLen (declaredLen last) = true ∧ last.length < headerLen + declaredLen last)

instance (last : Bytes) : Decidable (RunsPastEnd last) := by
  unfold RunsPastEnd
  infer_instance

/-- The damaged stretches that count as holes. -/
def holesOf (last : Bytes) (survivors : List Survivor) : List Bytes :=
  (survivors.map Survivor.stretch ++
      if last.head? = some endOfLogMarker ∨ RunsPastEnd last then [] else [last]).filter
    (· ≠ [])

def damageOf (last : Bytes) (survivors : List Survivor) : Damage where
  bytes := ((holesOf last survivors).map List.length).sum
  holes := (holesOf last survivors).length
  truncatedTail := if RunsPastEnd last then last.length else 0
  abandoned := false

theorem decodeRecord_endOfLog_iff {buf : Bytes} :
    decodeRecord buf = .endOfLog ↔ buf.head? = some endOfLogMarker := by
  constructor
  · intro reads
    unfold decodeRecord at reads
    cases stands : buf.head? with
    | none =>
      rw [stands] at reads
      cases reads
    | some first =>
      rw [stands] at reads
      dsimp only at reads
      split at reads
      · next marker => rw [marker]
      · repeat' split at reads
        all_goals cases reads
  · intro stands
    exact (decodeRecord_marker stands).1

theorem decodeRecord_needMore_iff {buf : Bytes} (nonempty : buf ≠ []) :
    decodeRecord buf = .needMore ↔ RunsPastEnd buf := by
  constructor
  · intro reads
    cases front buf with
    | marker other | damage other =>
      rw [other] at reads
      cases reads
    | short _ less first => exact ⟨first.resolve_left nonempty, .inl less⟩
    | candidate candidate =>
      refine ⟨candidate.first, .inr ⟨candidate.length, ?_⟩⟩
      by_contra whole
      obtain ⟨_, other | ⟨_, _, _, other⟩⟩ := candidate.whole (by omega)
      · rw [other] at reads
        cases reads
      · rw [other] at reads
        cases reads
  · rintro ⟨first, less | ⟨length, less⟩⟩
    · unfold decodeRecord
      rw [first]
      dsimp only
      rw [if_neg (by decide), if_neg (by simp), if_pos less]
    · by_cases header : headerLen ≤ buf.length
      · exact Candidate.needMore ⟨first, header, length⟩ less
      · unfold decodeRecord
        rw [first]
        dsimp only
        rw [if_neg (by decide), if_neg (by simp), if_pos (by omega)]

namespace Damage

/-- Damage met after damage met before. -/
def plus (before later : Damage) : Damage :=
  ⟨before.bytes + later.bytes, before.holes + later.holes,
    before.truncatedTail + later.truncatedTail, before.abandoned || later.abandoned⟩

/-- A stretch as a hole of its own. -/
def ofStretch (stretch : Bytes) : Damage :=
  if stretch = [] then .none else ⟨stretch.length, 1, 0, false⟩

theorem plus_assoc (first second third : Damage) :
    (first.plus second).plus third = first.plus (second.plus third) := by
  simp [plus, Nat.add_assoc, Bool.or_assoc]

@[simp]
theorem plus_none (damage : Damage) : damage.plus .none = damage := by
  simp [plus, none]

@[simp]
theorem none_plus (damage : Damage) : Damage.none.plus damage = damage := by
  simp [plus, none]

end Damage

theorem damageOf_cons (last : Bytes) (survivor : Survivor) (rest : List Survivor) :
    damageOf last (survivor :: rest) =
      (Damage.ofStretch survivor.stretch).plus (damageOf last rest) := by
  by_cases empty : survivor.stretch = []
  · simp [damageOf, holesOf, Damage.ofStretch, empty, Damage.plus, Damage.none]
  · simp [damageOf, holesOf, Damage.ofStretch, empty, Damage.plus, Nat.add_comm]

namespace Place

variable {body : Bytes} {offset : Nat}

theorem shows_last {last : Bytes} (sight : body.drop offset = last)
    (within : offset ≤ body.length) (damaged : DamagedStretch last [])
    (ongoing : damage.abandoned = false) :
    Shows body ⟨offset, .trusted damage⟩ [] (damage.plus (damageOf last [])) := by
  have ends {accounts : Accounts} {offset : Nat} (ended : body.length ≤ offset) :
      turn body ⟨offset, accounts⟩ = .last (.finished, ⟨offset, accounts.endOfSegment⟩) := by
    unfold turn
    rw [if_pos ended]
  have length : body.length = offset + last.length := by
    rw [← sight, List.length_drop]
    omega
  by_cases nonempty : last = []
  · subst nonempty
    have none : damage.plus (damageOf [] []) = damage := Damage.plus_none damage
    rw [none]
    exact Shows.finished (ends (by simp [length])) ongoing rfl
  · have calm : ((Accounts.opened last damage).further (checksummedOver [] last)
        last.length).overdrawn = false := by
      have within := damaged.within
      rw [Accounts.overdrawn, decide_eq_false_iff_not]
      simp only [Accounts.further, Accounts.opened]
      omega
    have final : ((Accounts.opened last damage).further (checksummedOver [] last)
        last.length).endOfSegment.damage = damage.plus (damageOf last []) := by
      by_cases marker : decodeRecord last = .endOfLog
      · have stands := decodeRecord_endOfLog_iff.mp marker
        have other : ¬ RunsPastEnd last := by
          rintro ⟨first, _⟩
          rw [stands] at first
          cases first
        simp [Accounts.endOfSegment, Accounts.further, Accounts.opened, marker, damageOf, holesOf,
          stands, other, Damage.plus]
      · have unmarked : ¬ last.head? = some endOfLogMarker := fun stands =>
          marker (decodeRecord_endOfLog_iff.mpr stands)
        by_cases past : decodeRecord last = .needMore
        · have runs := (decodeRecord_needMore_iff nonempty).mp past
          simp [Accounts.endOfSegment, Accounts.further, Accounts.opened, past, damageOf,
            holesOf, runs, Damage.plus]
        · have whole : ¬ RunsPastEnd last := fun runs =>
            past ((decodeRecord_needMore_iff nonempty).mpr runs)
          simp [Accounts.endOfSegment, Accounts.further, Accounts.opened, past, marker, damageOf,
            holesOf, whole, unmarked, nonempty, Damage.plus]
    refine .stretch nonempty (sight.trans (List.append_nil last).symm) damaged ongoing ?_
    rw [List.append_nil, ← final]
    exact .finished (ends (by omega)) ongoing calm

theorem Shows.survivor {survivor : Survivor} {behind : Bytes}
    {items : List (Item × Damage)} {last : Damage}
    (sight : body.drop offset = survivor.stretch ++ (survivor.record ++ behind))
    (damaged : DamagedStretch survivor.stretch (survivor.record ++ behind))
    (ongoing : damage.abandoned = false)
    (rest : Shows body
      ⟨offset + survivor.stretch.length + survivor.record.length,
      .trusted (damage.plus (.ofStretch survivor.stretch))⟩ items last) :
    Shows body ⟨offset, .trusted damage⟩
      ((⟨survivor.shard, survivor.seq, survivor.payload, offset + survivor.stretch.length,
          offset + survivor.stretch.length + survivor.record.length⟩,
        damage.plus (.ofStretch survivor.stretch)) :: items) last := by
  have here : body.drop (offset + survivor.stretch.length) = survivor.record ++ behind := by
    rw [← List.drop_drop, sight, List.drop_left]
  have reads : decodeRecord (body.drop (offset + survivor.stretch.length)) =
      .record survivor.shard survivor.seq survivor.payload survivor.record.length := by
    rw [here, (decodeRecord_append (by rw [survivor.intact]; simp) behind).1, survivor.intact]
  have moved (accounts : Accounts) :
      turn body ⟨offset + survivor.stretch.length, accounts⟩ =
        .last (.item ⟨survivor.shard, survivor.seq, survivor.payload,
            offset + survivor.stretch.length,
            offset + survivor.stretch.length + survivor.record.length⟩,
          ⟨offset + survivor.stretch.length + survivor.record.length, accounts.found⟩) :=
    turn_record reads
  by_cases empty : survivor.stretch = []
  · have same : damage.plus (.ofStretch survivor.stretch) = damage := by
      rw [Damage.ofStretch, if_pos empty, Damage.plus_none]
    rw [same] at rest ⊢
    have start : offset = offset + survivor.stretch.length := by simp [empty]
    have first := moved (.trusted damage)
    rw [← start] at first rest ⊢
    exact .item first ongoing rfl rest
  · have grown : ((Accounts.opened (survivor.stretch ++ (survivor.record ++ behind)) damage).further
          (checksummedOver (survivor.record ++ behind) survivor.stretch)
          survivor.stretch.length).found =
        .trusted (damage.plus (.ofStretch survivor.stretch)) := by
      simp [Accounts.found, Accounts.further, Accounts.opened, Accounts.trusted, Damage.plus,
        Damage.ofStretch, empty]
    refine .stretch empty sight damaged ongoing ?_
    rw [← grown] at rest
    have passed := moved ((Accounts.opened (survivor.stretch ++ (survivor.record ++ behind))
      damage).further (checksummedOver (survivor.record ++ behind) survivor.stretch)
        survivor.stretch.length)
    have shown := Shows.item passed ongoing ?_ rest
    · rw [grown] at shown
      exact shown
    · have within := damaged.within
      rw [Accounts.overdrawn, decide_eq_false_iff_not]
      simp only [Accounts.further, Accounts.opened]
      omega

theorem shows_survivors {last : Bytes} (survivors : List Survivor) (damage : Damage)
    (sight : body.drop offset = bodyWith last survivors) (within : offset ≤ body.length)
    (damaged : AllDamaged last survivors) (ongoing : damage.abandoned = false) :
    ∃ items, items.map Prod.fst = survivingItems offset survivors ∧
      Shows body ⟨offset, .trusted damage⟩ items (damage.plus (damageOf last survivors)) := by
  induction survivors generalizing offset damage with
  | nil => exact ⟨[], rfl, shows_last sight within damaged ongoing⟩
  | cons survivor rest induction =>
    have length := congrArg List.length sight
    rw [bodyWith] at sight length
    simp only [List.length_drop, List.length_append] at length
    have later : body.drop (offset + survivor.stretch.length + survivor.record.length) =
        bodyWith last rest := by
      rw [← List.drop_drop, ← List.drop_drop, sight, List.drop_left, List.drop_left]
    have still : (damage.plus (.ofStretch survivor.stretch)).abandoned = false := by
      unfold Damage.ofStretch
      split <;> simp [Damage.plus, Damage.none, ongoing]
    obtain ⟨items, surviving, shows⟩ := induction _ later (by omega) damaged.2 still
    rw [damageOf_cons, ← Damage.plus_assoc]
    refine ⟨_, ?_, Shows.survivor sight damaged.1 ongoing shows⟩
    rw [List.map_cons, surviving]
    rfl

end Place

/-- The resynchronising reader yields exactly the intact records, each where it lies,
and counts exactly the damaged stretches between them. -/
theorem scan_survivors (chunk : Nat) (survivors : List Survivor) (last : Bytes)
    (damaged : AllDamaged last survivors) :
    let body := bodyWith last survivors
    Reader.scan .resynchronising chunk body =
        (survivingItems 0 survivors, damageOf last survivors) ∧
      (Reader.withChunk ⟨body, false⟩ body.length .resynchronising chunk).readAll.2.1 =
        .finished := by
  obtain ⟨items, surviving, shows⟩ :=
    Place.shows_survivors survivors .none rfl (Nat.zero_le _) damaged rfl
  rw [Damage.none_plus] at shows
  refine ⟨?_, (Reader.busy_withChunk _ chunk).readAll.1⟩
  rw [Reader.scan_of_yields (shows _ (Reader.sees_withChunk _ chunk)), surviving]

theorem scan_survivors_cut_short :
    Reader.scan .resynchronising 3 ([7, 0] ++ (encodeRecord 1 4 [5] ++ [0xA5, 30])) =
      ([⟨1, 4, [5], 2, 22⟩], ⟨2, 1, 2, false⟩) := by
  have intact : decodeRecord (encodeRecord 1 4 [5]) = .record 1 4 [5] 20 := by decide +kernel
  have between : DamagedStretch [7, 0] (encodeRecord 1 4 [5] ++ [0xA5, 30]) := by
    have first : decodeRecord ([7, 0] ++ (encodeRecord 1 4 [5] ++ [0xA5, 30])) = .corrupt 1 := by
      decide +kernel
    have second : decodeRecord ([0] ++ (encodeRecord 1 4 [5] ++ [0xA5, 30])) = .endOfLog := by
      decide +kernel
    refine ⟨?_, by decide +kernel⟩
    intro offset inside shard seq payload consumed reads
    match offset, inside with
    | 0, _ => cases first.symm.trans reads
    | 1, _ => cases second.symm.trans reads
  have behind : DamagedStretch [0xA5, 30] [] := by
    have first : decodeRecord [0xA5, 30] = .needMore := by decide +kernel
    have second : decodeRecord [30] = .corrupt 1 := by decide +kernel
    refine ⟨?_, by decide +kernel⟩
    intro offset inside shard seq payload consumed reads
    match offset, inside with
    | 0, _ => cases first.symm.trans reads
    | 1, _ => cases second.symm.trans reads
  exact (scan_survivors 3 [⟨[7, 0], encodeRecord 1 4 [5], 1, 4, [5], intact⟩] [0xA5, 30]
    ⟨between, behind⟩).1

end Seedstone
