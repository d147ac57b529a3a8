import Seedstone.Recovery.Images

/-!
# What a snapshot comes to

One file of the third pass.  Its verdict is its own, whatever is wanted of it, and each
shard that wants it has the file's entries replayed over what it held.
-/

namespace Seedstone

def Effect.isPut : Effect → Bool
  | .put _ _ _ => true
  | _ => false

theorem takeEntry_eq [SipHasher] (now : Now) (state : Dict × List Bytes) (effect : Effect) :
    takeEntry now state effect =
      if effect.isPut then some (replayEffect now state effect) else none := by
  cases effect <;> rfl

namespace Recovery

variable {shard : Nat}

/-- A record that is an entry of the image: a put of a shard the header lists. -/
def isEntry (header : SnapshotHeader) (item : Item) : Bool :=
  item.shard ≠ footerShard && header.bases.any (fun (shard, _) => shard = item.shard) &&
    (Effect.decode item.payload).any Effect.isPut

/-- The records a snapshot's body reads as. -/
def imageItems (mode : ReaderMode) (stored : Stored) (header : SnapshotHeader) : List Item :=
  match stored.len, stored.source with
  | some len, some src =>
    if src.bytes.length < header.encodedLen then
      []
    else
      (Reader.new ⟨src.bytes.drop header.encodedLen, src.faulty⟩ (len - header.encodedLen)
        mode).readAll.1.map Prod.fst
  | _, _ => []

/-- The entries of one shard among records, up to the first that is none. -/
def entriesIn (header : SnapshotHeader) (items : List Item) (shard : Nat) : List Effect :=
  (items.takeWhile (isEntry header)).filterMap fun item =>
    if item.shard = shard then Effect.decode item.payload else none

/-- The entries a snapshot holds of a shard. -/
def imageEntries (mode : ReaderMode) (stored : Stored) (header : SnapshotHeader) (shard : Nat) :
    List Effect :=
  entriesIn header (imageItems mode stored header) shard

variable [SipHasher]

/-- The verdict on a snapshot. -/
def verdictOf (spec : RecoverSpec) (stored : Stored) (header : SnapshotHeader) :
    Except Halt Verdict :=
  (readImage spec stored header [] (Choosing.begin spec.seed).building).map Prod.fst

omit [SipHasher] in
theorem countEntry_eq_none_iff {counts : List (Nat × Nat)} :
    countEntry shard counts = none ↔ shard ∉ counts.map Prod.fst := by
  induction counts with
  | nil => simp [countEntry]
  | cons count rest induction =>
    obtain ⟨other, number⟩ := count
    unfold countEntry
    by_cases same : other = shard
    · simp [same]
    · rw [if_neg same, Option.map_eq_none_iff, induction]
      simp [Ne.symm same]

omit [SipHasher] in
theorem countEntry_shards {counts after : List (Nat × Nat)}
    (counted : countEntry shard counts = some after) :
    after.map Prod.fst = counts.map Prod.fst := by
  induction counts generalizing after with
  | nil => cases counted
  | cons count rest induction =>
    obtain ⟨other, number⟩ := count
    unfold countEntry at counted
    split at counted
    · cases counted
      rfl
    · obtain ⟨others, found, rfl⟩ := Option.map_eq_some_iff.mp counted
      simp [induction found]

namespace ImagePass

variable {one two pass : ImagePass}

/-- What an entry does to the dicts. -/
def put (now : Now) (wanted : List (Nat × Nat)) (building : Building) (shard : Nat)
    (effect : Effect) : Building :=
  if wanted.any fun point => point.1 = shard then
    Function.update building shard (replayEffect now (building shard) effect)
  else
    building

theorem takeEntry_spec (now : Now) (wanted : List (Nat × Nat)) (pass : ImagePass) (item : Item) :
    pass.takeEntry now wanted item = match countEntry item.shard pass.counts with
      | none => { pass with clean := false }
      | some counts =>
        match (Effect.decode item.payload).filter Effect.isPut with
        | none => { pass with counts := counts, clean := false }
        | some effect =>
          { pass with
            counts := counts
            building := put now wanted pass.building item.shard effect } := by
  unfold ImagePass.takeEntry put
  cases countEntry item.shard pass.counts with
  | none => rfl
  | some counts =>
    cases Effect.decode item.payload with
    | none => rfl
    | some effect =>
      rw [Option.bind_some, takeEntry_eq]
      by_cases entry : effect.isPut = true
      · rw [if_pos entry, Option.filter_some, if_pos entry]
        dsimp only
        split <;> rfl
      · rw [if_neg entry, Option.filter_some, if_neg entry]

/-- Two passes over one file, whatever was wanted of it. -/
structure Alike (one two : ImagePass) : Prop where
  clean : one.clean = two.clean
  footer : one.footer = two.footer
  counts : one.counts = two.counts

theorem Alike.take (alike : Alike one two) (now : Now) (wanted others : List (Nat × Nat))
    (item : Item) : Alike (one.take now wanted item) (two.take now others item) := by
  obtain ⟨clean, footer, counts, first⟩ := one
  obtain ⟨_, _, _, second⟩ := two
  obtain ⟨rfl, rfl, rfl⟩ := alike
  unfold ImagePass.take
  dsimp only
  split
  · exact ⟨rfl, rfl, rfl⟩
  · split
    · exact ⟨rfl, rfl, rfl⟩
    · split
      · exact ⟨rfl, rfl, rfl⟩
      · rw [takeEntry_spec, takeEntry_spec]
        dsimp only
        cases countEntry item.shard counts with
        | none => exact ⟨rfl, rfl, rfl⟩
        | some counts =>
          cases (Effect.decode item.payload).filter Effect.isPut <;> exact ⟨rfl, rfl, rfl⟩

theorem Alike.foldl (alike : Alike one two) (now : Now) (wanted others : List (Nat × Nat))
    (items : List Item) :
    Alike (items.foldl (ImagePass.take now wanted) one)
      (items.foldl (ImagePass.take now others) two) := by
  induction items generalizing one two with
  | nil => exact alike
  | cons item rest induction => exact induction (alike.take now wanted others item)

omit [SipHasher] in
theorem Alike.verdict (alike : Alike one two) (trustUnfinished : Bool) (damage : Damage) :
    one.verdict trustUnfinished damage = two.verdict trustUnfinished damage := by
  unfold ImagePass.verdict
  rw [alike.clean, alike.footer, alike.counts]

/-- Nothing more is loaded. -/
def Stopped (pass : ImagePass) : Prop :=
  pass.clean = false ∨ pass.footer.isSome = true

theorem Stopped.take (stopped : Stopped pass) (now : Now) (wanted : List (Nat × Nat))
    (item : Item) :
    Stopped (pass.take now wanted item) ∧ (pass.take now wanted item).building = pass.building := by
  unfold ImagePass.take
  by_cases clean : pass.clean = true
  · have footer : pass.footer.isSome = true := stopped.resolve_left (by simp [clean])
    simp [clean, footer, Stopped]
  · have unclean : (!pass.clean) = true := by simpa using clean
    rw [if_pos unclean]
    exact ⟨stopped, rfl⟩

theorem Stopped.foldl (stopped : Stopped pass) (now : Now) (wanted : List (Nat × Nat))
    (items : List Item) :
    (items.foldl (ImagePass.take now wanted) pass).building = pass.building := by
  induction items generalizing pass with
  | nil => rfl
  | cons item rest induction =>
    obtain ⟨next, same⟩ := stopped.take now wanted item
    rw [List.foldl_cons, induction next, same]

/-- A pass that has met nothing but entries of the header's shards. -/
structure Loading (header : SnapshotHeader) (pass : ImagePass) : Prop where
  clean : pass.clean = true
  footer : pass.footer = none
  listed : pass.counts.map Prod.fst = header.bases.map Prod.fst

omit [SipHasher] in
theorem loading_begin (header : SnapshotHeader) (building : Building) :
    Loading header (.begin header building) := by
  refine ⟨rfl, rfl, ?_⟩
  unfold ImagePass.begin
  rw [List.map_map]
  rfl

omit [SipHasher] in
theorem any_eq_true_iff_mem {points : List (Nat × Nat)} :
    (points.any fun point => point.1 = shard) = true ↔ shard ∈ points.map Prod.fst := by
  simp only [List.any_eq_true, decide_eq_true_eq, List.mem_map]

/-- An entry is loaded, and any other record is the last. -/
theorem Loading.take {header : SnapshotHeader} (loading : Loading header pass) (now : Now)
    (wanted : List (Nat × Nat)) (item : Item) :
    (isEntry header item = true ∧ Loading header (pass.take now wanted item) ∧
      ∃ effect, Effect.decode item.payload = some effect ∧
        (pass.take now wanted item).building = put now wanted pass.building item.shard effect) ∨
    (isEntry header item = false ∧ Stopped (pass.take now wanted item) ∧
      (pass.take now wanted item).building = pass.building) := by
  obtain ⟨clean, footer, listed⟩ := loading
  have open' : pass.take now wanted item =
      if item.shard = footerShard then
        { pass with
          footer := decodeFooter item.payload
          clean := (decodeFooter item.payload).isSome }
      else
        pass.takeEntry now wanted item := by
    unfold ImagePass.take
    simp only [clean, footer, Bool.not_true, Bool.false_eq_true, if_false, Option.isSome_none]
  rw [open']
  by_cases last : item.shard = footerShard
  · rw [if_pos last]
    refine .inr ⟨by simp [isEntry, last], ?_, rfl⟩
    unfold Stopped
    cases decodeFooter item.payload <;> simp
  · rw [if_neg last, takeEntry_spec]
    cases counted : countEntry item.shard pass.counts with
    | none =>
      have unlisted : item.shard ∉ header.bases.map Prod.fst := by
        rw [← listed]
        exact countEntry_eq_none_iff.mp counted
      refine .inr ⟨?_, .inl rfl, rfl⟩
      have none : (header.bases.any fun point => point.1 = item.shard) = false := by
        rw [Bool.eq_false_iff]
        exact fun any => unlisted (any_eq_true_iff_mem.mp any)
      simp only [isEntry, none, Bool.and_false, Bool.false_and]
    | some counts =>
      have member : (header.bases.any fun point => point.1 = item.shard) = true := by
        rw [any_eq_true_iff_mem, ← listed]
        by_contra missing
        rw [countEntry_eq_none_iff.mpr missing] at counted
        cases counted
      cases decoded : Effect.decode item.payload with
      | none => exact .inr ⟨by simp [isEntry, decoded], .inl rfl, rfl⟩
      | some effect =>
        by_cases entry : effect.isPut = true
        · rw [Option.filter_some, if_pos entry]
          exact .inl ⟨by simp [isEntry, last, member, decoded, entry],
            ⟨clean, footer, (countEntry_shards counted).trans listed⟩, effect, rfl, rfl⟩
        · rw [Option.filter_some, if_neg entry]
          exact .inr ⟨by simp [isEntry, decoded, entry], .inl rfl, rfl⟩

theorem put_apply (now : Now) (wanted : List (Nat × Nat)) (building : Building)
    (target shard : Nat) (effect : Effect) :
    put now wanted building target effect shard =
      if shard ∈ wanted.map Prod.fst ∧ target = shard then
        replayEffect now (building shard) effect
      else
        building shard := by
  unfold put
  by_cases same : target = shard
  · subst same
    by_cases member : target ∈ wanted.map Prod.fst
    · rw [if_pos (any_eq_true_iff_mem.mpr member), if_pos ⟨member, rfl⟩, Function.update_self]
    · rw [if_neg fun any => member (any_eq_true_iff_mem.mp any), if_neg fun both => member both.1]
  · have apart : ¬ (shard ∈ wanted.map Prod.fst ∧ target = shard) := fun both => same both.2
    rw [if_neg apart]
    split
    · exact Function.update_of_ne (Ne.symm same) ..
    · rfl

theorem Loading.foldl {header : SnapshotHeader} (loading : Loading header pass)
    (now : Now) (wanted : List (Nat × Nat)) (items : List Item) (shard : Nat) :
    (items.foldl (ImagePass.take now wanted) pass).building shard =
      if shard ∈ wanted.map Prod.fst then
        (entriesIn header items shard).foldl (replayEffect now) (pass.building shard)
      else
        pass.building shard := by
  induction items generalizing pass with
  | nil => simp [entriesIn]
  | cons item rest induction =>
    rw [List.foldl_cons]
    obtain ⟨entry, next, effect, decoded, built⟩ | ⟨other, stopped, same⟩ :=
      loading.take now wanted item
    · rw [induction next, built, put_apply]
      unfold entriesIn
      rw [List.takeWhile_cons_of_pos entry, List.filterMap_cons, decoded]
      by_cases member : shard ∈ wanted.map Prod.fst
      · by_cases here : item.shard = shard
        · simp only [member, here, and_self, if_true, List.foldl_cons]
        · simp only [member, here, and_false, if_true, if_false]
      · simp only [member, false_and, if_false]
    · rw [stopped.foldl, same]
      unfold entriesIn
      rw [List.takeWhile_cons_of_neg (by simp [other])]
      simp

end ImagePass

/-- What the dicts are once a file was read for `wanted`. -/
def loaded (spec : RecoverSpec) (stored : Stored) (header : SnapshotHeader)
    (wanted : List (Nat × Nat)) (building : Building) : Building := fun shard =>
  if shard ∈ wanted.map Prod.fst then
    (imageEntries spec.reader stored header shard).foldl (replayEffect spec.now) (building shard)
  else
    building shard

theorem imageOf_eq (spec : RecoverSpec) (header : SnapshotHeader) (wanted : List (Nat × Nat))
    (building other : Building) (reading : Scan.Reading) :
    imageOf spec header wanted building reading =
      ((imageOf spec header [] other reading).map Prod.fst).map fun verdict =>
        (verdict, fun shard =>
          if shard ∈ wanted.map Prod.fst then
            (entriesIn header (reading.1.map Prod.fst) shard).foldl (replayEffect spec.now)
              (building shard)
          else
            building shard) := by
  have begun : ImagePass.Alike (.begin header building) (.begin header other) := ⟨rfl, rfl, rfl⟩
  have alike := begun.foldl spec.now wanted [] (reading.1.map Prod.fst)
  have built := fun shard => (ImagePass.loading_begin header building).foldl spec.now wanted
    (reading.1.map Prod.fst) shard
  unfold imageOf
  dsimp only
  generalize (reading.1.map Prod.fst).foldl (ImagePass.take spec.now wanted)
    (.begin header building) = pass at alike built
  generalize (reading.1.map Prod.fst).foldl (ImagePass.take spec.now [])
    (.begin header other) = bare at alike
  have same : pass.building = fun shard =>
      if shard ∈ wanted.map Prod.fst then
        (entriesIn header (reading.1.map Prod.fst) shard).foldl (replayEffect spec.now)
          (building shard)
      else
        building shard :=
    funext built
  have unclean : ImagePass.Alike { pass with clean := false } { bare with clean := false } :=
    ⟨rfl, alike.footer, alike.counts⟩
  rw [alike.clean, alike.verdict, unclean.verdict, same]
  split
  · rfl
  · cases reading.2.1 <;> rfl

/-- The verdict does not depend on what is wanted. -/
theorem readImage_eq (spec : RecoverSpec) (stored : Stored) (header : SnapshotHeader)
    (wanted : List (Nat × Nat)) (building : Building) :
    readImage spec stored header wanted building =
      (verdictOf spec stored header).map fun verdict =>
        (verdict, loaded spec stored header wanted building) := by
  have untouched : ∀ items : List Item, items = [] →
      (fun shard => if shard ∈ wanted.map Prod.fst then
        (entriesIn header items shard).foldl (replayEffect spec.now) (building shard)
      else building shard) = building := by
    rintro _ rfl
    funext shard
    split <;> rfl
  unfold verdictOf readImage loaded imageEntries imageItems
  cases stored.len with
  | none =>
    dsimp only
    rw [untouched [] rfl]
    rfl
  | some len =>
    cases stored.source with
    | none =>
      dsimp only
      rw [untouched [] rfl]
      rfl
    | some src =>
      dsimp only
      split
      · rw [untouched [] rfl]
        rfl
      · exact imageOf_eq ..

end Recovery

end Seedstone
