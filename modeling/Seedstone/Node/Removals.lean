import Seedstone.Library.Contract
import Seedstone.Node.WriterCalls

/-!
# Removals in order

What the writer removes, over any number of compactions, in a directory that lists
its names in any order and where removals and directory syncs may fail.  A generation's
`Rebase`s keep the records of older generations dead, so none of its files may go while
a file of an older one is there or may come back.  `remove_older` and `compact` keep
that order within a compaction, but know of no removal an earlier one failed to make
durable: a compaction that begins with none pending is in order.
-/

namespace Seedstone

/-- `older_generation`: the generation of a segment or a snapshot of an older one. -/
def olderGeneration (generation : Nat) (name : FileName) : Option Nat :=
  name.generation?.filter fun older => older < generation

/-- The directory as the removals see it: the names linked, and those removed since it
was last synced. -/
structure Folder where
  linked : List FileName
  gone : List FileName
deriving DecidableEq, Repr

namespace Folder

/-- A file of `older` is in the directory, or its removal is not durable. -/
def Lingers (folder : Folder) (generation older : Nat) : Prop :=
  ∃ name ∈ folder.linked ++ folder.gone, olderGeneration generation name = some older

/-- The executors touch no older file, and their directory syncs make removals durable.
-/
structure Drifts (generation : Nat) (before after : Folder) : Prop where
  linked : ∀ name older, olderGeneration generation name = some older →
    (name ∈ after.linked ↔ name ∈ before.linked)
  gone : ∀ name older, olderGeneration generation name = some older →
    name ∈ after.gone → name ∈ before.gone

namespace Drifts

theorem refl (generation : Nat) (folder : Folder) : Drifts generation folder folder :=
  ⟨fun _ _ _ => Iff.rfl, fun _ _ _ member => member⟩

theorem trans {generation : Nat} {first second third : Folder}
    (one : Drifts generation first second) (two : Drifts generation second third) :
    Drifts generation first third :=
  ⟨fun name older found => (two.linked name older found).trans (one.linked name older found),
    fun name older found member =>
      one.gone name older found (two.gone name older found member)⟩

end Drifts

def MayRemove (folder : Folder) (name : FileName) : Disk.Removal → Prop
  | .removed => name ∈ folder.linked
  | .notFound => name ∉ folder.linked
  | .failed => True

/-- Any call but a listing may fail, and a listing has any order. -/
def Answers (folder : Folder) : (call : Call) → call.Return → Prop
  | .list, listed => ∃ names, listed = some names ∧ names.Perm folder.linked
  | .remove name, removal => folder.MayRemove name removal
  | _, _ => True

def created (folder : Folder) (name : FileName) (ok : Bool) : Folder :=
  if ok then { folder with linked := name :: folder.linked } else folder

def synced (folder : Folder) (ok : Bool) : Folder :=
  if ok then { folder with gone := [] } else folder

def removed (folder : Folder) (name : FileName) : Disk.Removal → Folder
  | .removed => ⟨folder.linked.filter (· ≠ name), name :: folder.gone⟩
  | .notFound | .failed => folder

def after (folder : Folder) : (call : Call) → call.Return → Folder
  | .create name, ok => folder.created name ok
  | .syncDir, ok => folder.synced ok
  | .remove name, removal => folder.removed name removal
  | _, _ => folder

/-- The directory of a node in `generation`. -/
def environment (generation : Nat) : Environment Call Call.Return Folder where
  drifts := Drifts generation
  answers := Answers
  after := after

/-- No file of an older generation goes while one of a generation before it lingers, and
rotation `0` goes while none does. -/
structure MayGo (generation : Nat) (folder : Folder) (name : FileName) : Prop where
  older : ∀ own, olderGeneration generation name = some own →
    ∀ other, folder.Lingers generation other → own ≤ other
  first : name = .segment generation 0 → ∀ other, ¬ folder.Lingers generation other

/-- Every removal that succeeds is in order. -/
def InOrder (generation : Nat) (folder : Folder) : (call : Call) → call.Return → Prop
  | .remove name, removal => removal = Disk.Removal.removed → MayGo generation folder name
  | _, _ => True

/-- No removal of an older generation's file waits for a directory sync. -/
def Settled (generation : Nat) (folder : Folder) : Prop :=
  ∀ name ∈ folder.gone, olderGeneration generation name = none

end Folder

theorem olderGeneration_segment_self (generation rotation : Nat) :
    olderGeneration generation (.segment generation rotation) = none := by
  simp [olderGeneration, FileName.generation?, Option.filter]

theorem olderGeneration_snapshot_self (generation executor cycle : Nat) :
    olderGeneration generation (.snapshot generation executor cycle) = none := by
  simp [olderGeneration, FileName.generation?, Option.filter]

namespace Writer

variable {writer : Writer}

theorem mem_olderFiles {generation older : Nat} {names : List FileName} {name : FileName} :
    (older, name) ∈ olderFiles generation names ↔
      name ∈ names ∧ olderGeneration generation name = some older := by
  unfold olderFiles
  rw [List.mem_insertionSort, List.mem_filterMap]
  constructor
  · rintro ⟨other, member, found⟩
    obtain ⟨own, filtered, same⟩ := Option.map_eq_some_iff.mp found
    cases same
    exact ⟨member, filtered⟩
  · rintro ⟨member, found⟩
    exact ⟨name, member, Option.map_eq_some_iff.mpr ⟨older, found, rfl⟩⟩

theorem olderFiles_sorted (generation : Nat) (names : List FileName) :
    (olderFiles generation names).Pairwise fun first second => first.1 ≤ second.1 :=
  List.pairwise_insertionSort (fun first second : Nat × FileName => first.1 ≤ second.1) _

/-- The task makes every removal in order, and ends as `post` says. -/
abbrev Keeps {α : Type} (generation : Nat) (post : α → Folder → Prop) (task : Task α)
    (folder : Folder) : Prop :=
  (Folder.environment generation).Ensures (Folder.InOrder generation) post task folder

section

variable {generation : Nat} {folder : Folder}

theorem keeps_removeFile {post : Disk.Removal → Folder → Prop} (name : FileName)
    (each : ∀ found, folder.Drifts generation found → ∀ removal, found.MayRemove name removal →
        (removal = .removed → found.MayGo generation name) ∧
          post removal (found.removed name removal)) :
    Keeps generation post (removeFile name) folder := by
  have measured : Keeps generation (fun _ found => folder.Drifts generation found)
      (Task.len name) folder :=
    .perform (Call.len name) fun _ drift _ _ => ⟨trivial, drift⟩
  apply measured.bind
  intro _ found drift
  exact .perform (Call.remove name) fun later drifts removal may =>
    each later (drift.trans drifts) removal may

theorem keeps_syncDir {post : Bool → Folder → Prop}
    (each : ∀ found, folder.Drifts generation found → ∀ ok, post ok (found.synced ok)) :
    Keeps generation post Task.syncDir folder :=
  .perform Call.syncDir fun found drift ok _ => ⟨trivial, each found drift ok⟩

/-- Where the loop of `remove_older` stands with `files` to come: an older file still
linked is to come or belongs to a generation that keeps the newer ones, and a removal
not yet durable is of the current generation or a newer one. -/
structure Sweep (generation : Nat) (roundClosed : Bool) (files : List (Nat × FileName))
    (state : Removing) (folder : Folder) : Prop where
  sorted : files.Pairwise fun first second => first.1 ≤ second.1
  older : ∀ file ∈ files, olderGeneration generation file.2 = some file.1
  linked : ∀ name older, olderGeneration generation name = some older →
    name ∈ folder.linked → (older, name) ∈ files ∨ state.olderLeft = true ∧
      (roundClosed = true → ∃ stopped, state.stoppedAfter = some stopped ∧ stopped ≤ older)
  gone : ∀ name older, olderGeneration generation name = some older →
    name ∈ folder.gone → state.unsynced = true ∧
      ∃ current, state.current = some current ∧ current ≤ older
  reached : ∀ current, state.current = some current → ∀ file ∈ files, current ≤ file.1
  begun : state.unsynced = true → state.current ≠ none
  stopped : ∀ stopped, state.stoppedAfter = some stopped → state.current = some stopped

/-- What a compaction knows of the older generations once it is past them. -/
structure Cleared (generation : Nat) (olderLeft unsynced : Bool) (folder : Folder) :
    Prop where
  linked : olderLeft = false → ∀ name older, olderGeneration generation name = some older →
    name ∉ folder.linked
  gone : unsynced = false → folder.Settled generation

namespace Sweep

variable {roundClosed : Bool} {files rest : List (Nat × FileName)} {state : Removing}
  {own : Nat} {name : FileName}

theorem drift {found : Folder} (sweep : Sweep generation roundClosed files state folder)
    (drift : folder.Drifts generation found) : Sweep generation roundClosed files state found :=
  { sweep with
    linked := fun name older read member =>
      sweep.linked name older read ((drift.linked name older read).mp member)
    gone := fun name older read member =>
      sweep.gone name older read (drift.gone name older read member) }

section

variable (sweep : Sweep generation roundClosed ((own, name) :: rest) state folder)

include sweep

theorem mayGo (closed : roundClosed = true) (current : state.current = some own)
    (unstopped : ∀ stopped, state.stoppedAfter = some stopped → own ≤ stopped) :
    folder.MayGo generation name := by
  have read : olderGeneration generation name = some own :=
    sweep.older (own, name) List.mem_cons_self
  constructor
  · intro same found other ⟨file, member, lingers⟩
    cases read.symm.trans found
    rcases List.mem_append.mp member with linked | gone
    · rcases sweep.linked file other lingers linked with listed | ⟨_, stopped⟩
      · rcases List.mem_cons.mp listed with same | later
        · cases same
          exact Nat.le_refl _
        · exact List.rel_of_pairwise_cons sweep.sorted later
      · obtain ⟨stopped, after, less⟩ := stopped closed
        exact (unstopped stopped after).trans less
    · obtain ⟨_, reached, now, less⟩ := sweep.gone file other lingers gone
      cases current.symm.trans now
      exact less
  · rintro rfl
    rw [olderGeneration_segment_self] at read
    cases read

theorem linked_rest {file : FileName} {older : Nat}
    (read : olderGeneration generation file = some older) (linked : file ∈ folder.linked)
    (other : file ≠ name) :
    (older, file) ∈ rest ∨ state.olderLeft = true ∧
      (roundClosed = true → ∃ stopped, state.stoppedAfter = some stopped ∧ stopped ≤ older) := by
  rcases sweep.linked file older read linked with listed | kept
  · rcases List.mem_cons.mp listed with same | later
    · cases same
      exact absurd rfl other
    · exact Or.inl later
  · exact Or.inr kept

theorem removeOne (closed : roundClosed = true) (current : state.current = some own)
    (unstopped : ∀ stopped, state.stoppedAfter = some stopped → own ≤ stopped) :
    Keeps generation (Sweep generation roundClosed rest) (Writer.removeOne own name state)
      folder := by
  have removes : Keeps generation (fun removal found => ∃ before,
      Sweep generation roundClosed ((own, name) :: rest) state before ∧
        before.MayRemove name removal ∧ found = before.removed name removal)
      (removeFile name) folder := by
    apply keeps_removeFile
    intro found drift removal may
    exact ⟨fun _ => (sweep.drift drift).mayGo closed current unstopped,
      found, sweep.drift drift, may, rfl⟩
  apply removes.bind
  rintro removal _ ⟨before, sweep, may, rfl⟩
  have sorted := sweep.sorted.of_cons
  have older : ∀ file ∈ rest, olderGeneration generation file.2 = some file.1 :=
    fun file member => sweep.older file (List.mem_cons_of_mem _ member)
  have reached : ∀ current, state.current = some current → ∀ file ∈ rest,
      current ≤ file.1 := fun current now file member =>
    sweep.reached current now file (List.mem_cons_of_mem _ member)
  cases removal with
  | removed =>
    refine .pure ⟨sorted, older, ?_, ?_, reached, ?_, sweep.stopped⟩
    · intro file generation read member
      obtain ⟨linked, other⟩ := List.mem_filter.mp member
      exact sweep.linked_rest read linked (of_decide_eq_true other)
    · intro file generation read member
      rcases List.mem_cons.mp member with rfl | earlier
      · cases (sweep.older (own, file) List.mem_cons_self).symm.trans read
        exact ⟨rfl, own, current, Nat.le_refl _⟩
      · exact ⟨rfl, (sweep.gone file generation read earlier).2⟩
    · intro _ missing
      cases missing.symm.trans current
  | notFound =>
    refine .pure ⟨sorted, older, ?_, sweep.gone, reached, sweep.begun, sweep.stopped⟩
    intro file generation read member
    exact sweep.linked_rest read member fun same => may (same ▸ member)
  | failed =>
    refine .pure ⟨sorted, older, ?_, sweep.gone, reached, sweep.begun, ?_⟩
    · intro file generation read member
      by_cases same : file = name
      · subst same
        cases (sweep.older (own, file) List.mem_cons_self).symm.trans read
        exact Or.inr ⟨rfl, fun _ => ⟨own, rfl, Nat.le_refl _⟩⟩
      · refine (sweep.linked_rest read member same).imp_right fun ⟨_, kept⟩ =>
          ⟨rfl, fun closed => ?_⟩
        obtain ⟨stopped, after, less⟩ := kept closed
        exact ⟨own, rfl, (unstopped stopped after).trans less⟩
    · rintro stopped same
      cases same
      exact current

theorem skip
    (kept : roundClosed = true → ∃ stopped, state.stoppedAfter = some stopped ∧ stopped ≤ own) :
    Sweep generation roundClosed rest { state with olderLeft := true } folder where
  sorted := sweep.sorted.of_cons
  older file member := sweep.older file (List.mem_cons_of_mem _ member)
  linked := by
    intro file older read member
    by_cases same : file = name
    · subst same
      cases (sweep.older (own, file) List.mem_cons_self).symm.trans read
      exact Or.inr ⟨rfl, kept⟩
    · exact (sweep.linked_rest read member same).imp_right fun ⟨_, kept⟩ => ⟨rfl, kept⟩
  __ := sweep
  reached current now file member := sweep.reached current now file (List.mem_cons_of_mem _ member)

/-- A new generation begins: what went before is durable. -/
theorem begin (unstopped : state.stoppedAfter = none) (settled : folder.Settled generation) :
    Sweep generation roundClosed ((own, name) :: rest)
      { state with unsynced := false, current := some own } folder where
  __ := sweep
  gone file older read member := by
    cases (settled file member).symm.trans read
  reached := by
    rintro current same file member
    cases same
    rcases List.mem_cons.mp member with rfl | later
    · exact Nat.le_refl _
    · exact List.rel_of_pairwise_cons sweep.sorted later
  begun later := by cases later
  stopped stopped after := by cases unstopped.symm.trans after

end

variable (sweep : Sweep generation roundClosed files state folder)

include sweep

/-- The directory sync between two generations fails: the newer one stays. -/
theorem stop (unstopped : state.stoppedAfter = none) :
    Sweep generation roundClosed files { state with stoppedAfter := state.current } folder where
  __ := sweep
  linked := by
    intro file older read member
    refine (sweep.linked file older read member).imp_right fun ⟨left, kept⟩ =>
      ⟨left, fun closed => ?_⟩
    obtain ⟨stopped, after, _⟩ := kept closed
    cases unstopped.symm.trans after
  stopped _ after := after

theorem settled (synced : state.unsynced = false) : folder.Settled generation := by
  intro file member
  cases read : olderGeneration generation file with
  | none => rfl
  | some older => cases synced.symm.trans (sweep.gone file older read member).1

theorem synced : Sweep generation roundClosed files state (folder.synced true) :=
  { sweep with gone := nofun }

end Sweep

theorem keeps_removeLoop {roundClosed : Bool} (files : List (Nat × FileName)) :
    ∀ {state : Removing} {folder : Folder}, Sweep generation roundClosed files state folder →
      Keeps generation (Sweep generation roundClosed []) (removeLoop roundClosed files state)
        folder := by
  induction files with
  | nil => exact fun sweep => .pure sweep
  | cons file rest induction =>
    obtain ⟨own, name⟩ := file
    intro state folder sweep
    unfold removeLoop
    split
    · next skipped =>
        refine induction (sweep.skip fun closed => ?_)
        rw [closed] at skipped
        obtain ⟨stopped, after, less⟩ := (Option.any_eq_true _ _).mp skipped
        exact ⟨stopped, after, (of_decide_eq_true less).le⟩
    · next goesOn =>
        have closed : roundClosed = true := by
          cases roundClosed with
          | true => rfl
          | false => exact absurd rfl goesOn
        have unstopped : ∀ stopped, state.stoppedAfter = some stopped → own ≤ stopped := by
          intro stopped after
          rw [closed, after] at goesOn
          exact Nat.le_of_not_lt fun less => goesOn (decide_eq_true less)
        split
        · next fresh =>
            -- a generation that stopped the loop would be the current one
            have unstopped : state.stoppedAfter = none := by
              cases after : state.stoppedAfter with
              | none => rfl
              | some stopped =>
                have now := sweep.stopped stopped after
                have less := sweep.reached stopped now (own, name) List.mem_cons_self
                have same : stopped = own := Nat.le_antisymm less (unstopped stopped after)
                exact absurd (same ▸ now) fresh
            have goes : ∀ {found : Folder},
                Sweep generation roundClosed ((own, name) :: rest) state found →
                found.Settled generation →
                Keeps generation (Sweep generation roundClosed []) (do
                  let state ← removeOne own name
                    { state with unsynced := false, current := some own }
                  removeLoop roundClosed rest state) found := by
              intro found sweep settled
              refine ((sweep.begin unstopped settled).removeOne closed rfl ?_).bind
                fun _ _ sweep => induction sweep
              intro stopped after
              cases unstopped.symm.trans after
            split
            · next pending =>
                have syncs : Keeps generation (fun ok found => ∃ before,
                    Sweep generation roundClosed ((own, name) :: rest) state before ∧
                      found = before.synced ok) Task.syncDir folder :=
                  keeps_syncDir fun found drift ok => ⟨found, sweep.drift drift, rfl⟩
                apply syncs.bind
                rintro ok _ ⟨before, sweep, rfl⟩
                cases ok with
                | true => exact goes sweep.synced fun _ member => absurd member List.not_mem_nil
                | false =>
                  obtain ⟨current, now⟩ := Option.ne_none_iff_exists'.mp (sweep.begun pending)
                  exact induction ((sweep.stop unstopped).skip fun _ => ⟨current, now,
                    sweep.reached current now (own, name) List.mem_cons_self⟩)
            · next settled =>
                exact goes sweep (sweep.settled (Bool.eq_false_of_not_eq_true settled))
        · next now =>
            exact (sweep.removeOne closed (Decidable.of_not_not now) unstopped).bind
              fun _ _ sweep => induction sweep

theorem Sweep.cleared {roundClosed : Bool} {state : Removing}
    (sweep : Sweep generation roundClosed [] state folder) :
    Cleared generation state.olderLeft state.unsynced folder where
  linked := by
    intro none name older read member
    rcases sweep.linked name older read member with listed | ⟨left, _⟩
    · exact absurd listed List.not_mem_nil
    · cases none.symm.trans left
  gone := sweep.settled

/-- `remove_older`, from a directory with no older removal pending. -/
theorem keeps_removeOlder {names : List FileName} (roundClosed : Bool)
    (listed : ∀ name older, olderGeneration writer.generation name = some older →
      name ∈ folder.linked → name ∈ names) (settled : folder.Settled writer.generation) :
    Keeps writer.generation
      (fun older => Cleared writer.generation older.olderLeft older.unsynced)
      (writer.removeOlder names roundClosed) folder := by
  have sweep : Sweep writer.generation roundClosed (olderFiles writer.generation names)
      ⟨false, false, none, none, 0⟩ folder := by
    refine ⟨olderFiles_sorted .., fun file member => (mem_olderFiles.mp member).2, ?_, ?_,
      ?_, ?_, ?_⟩
    · intro name older read member
      exact Or.inl (mem_olderFiles.mpr ⟨listed name older read member, read⟩)
    · intro name older read member
      cases (settled name member).symm.trans read
    · rintro current ⟨⟩
    · rintro ⟨⟩
    · rintro stopped ⟨⟩
  exact (keeps_removeLoop _ sweep).weaken fun _ _ sweep => sweep.cleared

namespace Cleared

variable {olderLeft unsynced : Bool}

section

variable (cleared : Cleared generation olderLeft unsynced folder)

include cleared

theorem drift {found : Folder} (drift : folder.Drifts generation found) :
    Cleared generation olderLeft unsynced found where
  linked none name older read member :=
    cleared.linked none name older read ((drift.linked name older read).mp member)
  gone synced name member := by
    cases read : olderGeneration generation name with
    | none => rfl
    | some older =>
      cases (cleared.gone synced name (drift.gone name older read member)).symm.trans read

theorem removed {name : FileName} (own : olderGeneration generation name = none)
    (removal : Disk.Removal) :
    Cleared generation olderLeft unsynced (folder.removed name removal) := by
  cases removal with
  | removed =>
    constructor
    · intro none file older read member
      exact cleared.linked none file older read (List.mem_of_mem_filter member)
    · intro synced file member
      rcases List.mem_cons.mp member with rfl | earlier
      · exact own
      · exact cleared.gone synced file earlier
  | notFound | failed => exact cleared

theorem synced : Cleared generation olderLeft false (folder.synced true) :=
  ⟨cleared.linked, nofun⟩

end

theorem mayGo (cleared : Cleared generation olderLeft false folder) {rotation : Nat}
    (left : rotation = 0 → olderLeft = false) :
    folder.MayGo generation (.segment generation rotation) := by
  constructor
  · intro own read
    cases (olderGeneration_segment_self generation rotation).symm.trans read
  · intro same other ⟨name, member, read⟩
    cases same
    rcases List.mem_append.mp member with linked | gone
    · exact cleared.linked (left rfl) name other read linked
    · cases (cleared.gone rfl name gone).symm.trans read

end Cleared

theorem keeps_removeAll {olderLeft unsynced : Bool} (names : List FileName)
    (own : ∀ name ∈ names, ∃ executor cycle, name = .snapshot generation executor cycle) :
    ∀ {folder : Folder}, Cleared generation olderLeft unsynced folder →
      Keeps generation (fun _ => Cleared generation olderLeft unsynced) (removeAll names)
        folder := by
  induction names with
  | nil => exact fun cleared => .pure cleared
  | cons name rest induction =>
    intro folder cleared
    obtain ⟨⟨executor, cycle, same⟩, others⟩ := List.forall_mem_cons.mp own
    have mine : olderGeneration generation name = none := by
      rw [same]
      exact olderGeneration_snapshot_self ..
    have removes : Keeps generation (fun _ => Cleared generation olderLeft unsynced)
        (removeFile name) folder := by
      apply keeps_removeFile
      intro found drift removal _
      refine ⟨fun _ => ⟨fun own read => ?_, fun first => ?_⟩,
        (cleared.drift drift).removed mine removal⟩
      · cases mine.symm.trans read
      · cases same.symm.trans first
    exact removes.bind fun _ _ cleared => (induction others cleared).bind
      fun _ _ cleared => .pure cleared

theorem keeps_removeClosed (lanes : List Lane) (olderLeft : Bool) (closed : List Closed) :
    ∀ {unsynced : Bool} {folder : Folder}, Cleared generation olderLeft unsynced folder →
      Keeps generation (fun _ _ => True)
        (removeClosed generation lanes olderLeft unsynced closed) folder := by
  induction closed with
  | nil => exact fun _ => .pure trivial
  | cons first rest induction =>
    intro unsynced folder cleared
    unfold removeClosed
    split
    · exact .pure trivial
    · split
      · exact (induction cleared).bind fun _ _ _ => .pure trivial
      · next kept =>
          have left : first.rotation = 0 → olderLeft = false := fun zero =>
            Bool.eq_false_of_not_eq_true fun left => kept ⟨zero, left⟩
          have removes : ∀ {found : Folder}, Cleared generation olderLeft false found →
              Keeps generation (fun _ => Cleared generation olderLeft false)
                (removeFile (.segment generation first.rotation)) found := by
            intro found cleared
            apply keeps_removeFile
            intro later drift removal _
            exact ⟨fun _ => (cleared.drift drift).mayGo left, (cleared.drift drift).removed
              (olderGeneration_segment_self ..) removal⟩
          split
          · have syncs : Keeps generation (fun ok found => ok = true →
                Cleared generation olderLeft false found) Task.syncDir folder := by
              apply keeps_syncDir
              rintro found drift _ rfl
              exact (cleared.drift drift).synced
            apply syncs.bind
            intro ok found cleared
            cases ok with
            | true =>
              refine (removes (cleared rfl)).bind fun removal later cleared => ?_
              cases removal with
              | removed => exact (induction cleared).bind fun _ _ _ => .pure trivial
              | notFound | failed => exact .pure trivial
            | false => exact .pure trivial
          · next settled =>
              have synced : unsynced = false := Bool.eq_false_of_not_eq_true settled
              refine (removes (synced ▸ cleared)).bind fun removal later cleared => ?_
              cases removal with
              | removed => exact (induction cleared).bind fun _ _ _ => .pure trivial
              | notFound | failed => exact .pure trivial

/-- `compact`, from a directory with no older removal pending. -/
theorem keeps_compact (own : writer.generation = generation) (executor cycle : Nat)
    (settled : folder.Settled generation) :
    Keeps generation (fun _ _ => True) (writer.compact executor cycle) folder := by
  subst own
  have lists : Keeps writer.generation (fun listed found => found.Settled writer.generation ∧
      ∃ names, listed = some names ∧ names.Perm found.linked) Task.list folder := by
    refine .perform Call.list fun found drift listed may => ⟨trivial, ?_, may⟩
    intro name member
    cases read : olderGeneration writer.generation name with
    | none => rfl
    | some older => cases (settled name (drift.gone name older read member)).symm.trans read
  apply lists.bind
  rintro _ found ⟨settled, names, rfl, listed⟩
  apply (keeps_removeOlder _ (fun name _ _ member => listed.mem_iff.mpr member) settled).bind
  intro older cleaned cleared
  refine (keeps_removeAll _ ?_ cleared).bind fun snapshots later cleared => ?_
  · intro name member
    have own := (List.mem_filter.mp member).2
    cases name with
    | snapshot generation owner this =>
      have same : generation = writer.generation := (of_decide_eq_true own).1
      exact ⟨owner, this, by rw [same]⟩
    | segment | counter | counterTmp => cases own
  apply (keeps_removeClosed _ _ _ cleared).bind
  rintro ⟨closed, rotations⟩ last _
  dsimp only
  split
  · exact .pure trivial
  · have syncs : Keeps writer.generation (fun _ _ => True) Task.syncDir last :=
      keeps_syncDir fun _ _ _ => trivial
    exact syncs.bind fun _ _ _ => .pure trivial

end

/-- Everything but a removal. -/
def Retaining : Call → Prop
  | .remove _ => False
  | _ => True

theorem retaining_tellLanes (telling : Nat → Lane → Option Progress × Lane) :
    ∀ (lanes : List Lane) (executor : Nat),
      (tellLanes telling executor lanes).Within Retaining fun _ => True := by
  intro lanes
  induction lanes with
  | nil => exact fun _ => .pure trivial
  | cons lane lanes induction =>
    intro executor
    unfold tellLanes
    dsimp only
    cases (telling executor lane).1 with
    | none => exact (induction _).bind fun _ _ => .pure trivial
    | some message =>
      exact .call trivial fun _ => (induction _).bind fun _ _ => .pure trivial

theorem Steps.retaining {ends : Prop} {task : Task Writer}
    (steps : Steps ends writer task) : task.Within Retaining fun _ => True := by
  induction steps with
  | done => exact .pure trivial
  | @call _ call _ mute _ induction =>
    refine .call ?_ induction
    cases call with
    | remove => exact mute.elim
    | _ => trivial
  | @told _ after _ telling _ _ _ _ _ _ induction =>
    have tells : (after.tell telling).Within Retaining fun _ => True :=
      (retaining_tellLanes telling after.lanes 0).bind fun _ _ => .pure trivial
    exact tells.bind fun told _ => induction told

/-- The writer's handlers. -/
inductive Turn where
  | begin
  | take (message : ToWriter)
  | flush (now : Nat)
  | completed (ok : Bool) (now : Nat)
  | tick (now : Nat)
deriving DecidableEq, Repr

namespace Turn

/-- When a handler may run. -/
def May (writer : Writer) : Turn → Prop
  | .begin => writer.phase = .opened
  | .take _ => writer.phase = .idle ∨ writer.phase = .draining
  | .flush _ => writer.phase = .draining
  | .completed .. => writer.awaited.isSome = true
  | .tick _ => writer.phase = .idle

def task (writer : Writer) : Turn → Task Writer
  | .begin => do
      let writer ← writer.nudgeIfDue
      pure { writer with phase := .idle }
  | .take message => writer.draining message
  | .flush now => writer.flush now
  | .completed ok now => writer.completed ok now
  | .tick now => writer.maybeIssue now

/-- Whether the handler compacts the log. -/
def compacts : Turn → Bool
  | .take (.covered ..) => true
  | _ => false

theorem retaining {turn : Turn} (writer : Writer) (still : turn.compacts = false) :
    (turn.task writer).Within Retaining fun _ => True := by
  cases turn with
  | begin => exact (steps_begin : Steps True writer _).retaining
  | take message =>
    cases message with
    | covered => cases still
    | submit | syncNow | stop => exact .pure trivial
  | flush now => exact (steps_flush now).retaining
  | completed ok now => exact (steps_completed ok now).retaining
  | tick now => exact (steps_maybeIssue now : Steps True writer _).retaining

end Turn

/-- A handler that ran: its writer and the directory it found and left, and the calls it
made. -/
structure Stage where
  turn : Turn
  before : Writer
  folder : Folder
  moments : List (Environment.Moment Call Call.Return Folder)
  after : Writer
  later : Folder
  may : turn.May before
  plays : (Folder.environment before.generation).Plays (turn.task before) folder moments
    after later

/-- A run of the writer: each handler begins where the one before it ended. -/
abbrev IsRun (stages : List Stage) : Prop :=
  stages.IsChain fun first second =>
    second.before = first.after ∧ first.later.Drifts first.after.generation second.folder

/-- Every removal of the stage is in order. -/
def Stage.InOrder (stage : Stage) : Prop :=
  ∀ moment ∈ stage.moments,
    moment.state.InOrder stage.before.generation moment.op moment.answer

/-- Where each compaction begins with no removal of an older generation's file waiting for
a directory sync, every removal is in order, in a run and in any stages else. -/
theorem removals_inOrder {stages : List Stage}
    (settled : ∀ stage ∈ stages, stage.turn.compacts = true →
      stage.folder.Settled stage.before.generation) :
    ∀ stage ∈ stages, stage.InOrder := by
  intro stage member
  have ensures : Keeps stage.before.generation (fun _ _ => True)
      (stage.turn.task stage.before) stage.folder := by
    cases compacts : stage.turn.compacts with
    | false =>
      apply Environment.Ensures.of_within (stage.turn.retaining stage.before compacts)
      intro call retaining folder answer
      cases call with
      | remove => exact retaining.elim
      | _ => trivial
    | true =>
      have settled := settled stage member compacts
      generalize stage.turn = turn at compacts
      cases turn with
      | take message =>
        cases message with
        | covered executor cycle throughBatch snapshotBytes =>
          have takes : Keeps stage.before.generation (fun _ _ => True)
              (stage.before.take (.covered executor cycle throughBatch snapshotBytes))
              stage.folder := by
            refine keeps_compact ?_ executor cycle settled
            rfl
          exact takes.bind fun _ _ _ => .pure trivial
        | submit | syncNow | stop => cases compacts
      | begin | flush | completed | tick => cases compacts
  exact (ensures.plays stage.plays).1

-- Generation `3` with one executor and one segment of each generation so far.  Its first
-- compaction removes generation `1` and no directory sync of it succeeds; its second finds
-- generation `2` the oldest listed.

def threeGenerations : Folder :=
  ⟨[.segment 1 0, .segment 2 0, .segment 3 0], []⟩

def firstRemoved : Folder :=
  ⟨[.segment 2 0, .segment 3 0], [.segment 1 0]⟩

def opening : Stage where
  turn := .begin
  before := Writer.new 3 [] .always 1 ⟨0, 0, 0⟩ 1 0 0
  folder := threeGenerations
  moments := []
  after := { Writer.new 3 [] .always 1 ⟨0, 0, 0⟩ 1 0 0 with phase := .idle }
  later := threeGenerations
  may := rfl
  plays := .done

def firstCompaction : Stage where
  turn := .take (.covered 0 0 none 0)
  before := opening.after
  folder := threeGenerations
  moments :=
    [⟨threeGenerations, .list, some threeGenerations.linked⟩,
      ⟨threeGenerations, .len (.segment 1 0), none⟩,
      ⟨threeGenerations, .remove (.segment 1 0), Disk.Removal.removed⟩,
      ⟨firstRemoved, .syncDir, false⟩, ⟨firstRemoved, .syncDir, false⟩]
  after := { opening.after with
    lanes := [{ Lane.new with snapshotBytes := some 0 }]
    phase := .draining }
  later := firstRemoved
  may := Or.inl rfl
  plays :=
    .call (.refl ..) ⟨_, rfl, .refl _⟩ <| .call (.refl ..) trivial <|
      .call (.refl ..) (List.mem_cons_self : _ ∈ threeGenerations.linked) <|
        .call (.refl ..) trivial <| .call (.refl ..) trivial .done

def secondCompaction : Stage where
  turn := .take (.covered 0 1 none 0)
  before := firstCompaction.after
  folder := firstRemoved
  moments :=
    [⟨firstRemoved, .list, some firstRemoved.linked⟩,
      ⟨firstRemoved, .len (.segment 2 0), none⟩,
      ⟨firstRemoved, .remove (.segment 2 0), Disk.Removal.removed⟩,
      ⟨⟨[.segment 3 0], [.segment 2 0, .segment 1 0]⟩, .syncDir, true⟩]
  after := firstCompaction.after
  later := ⟨[.segment 3 0], []⟩
  may := Or.inr rfl
  plays :=
    .call (.refl ..) ⟨_, rfl, .refl _⟩ <| .call (.refl ..) trivial <|
      .call (.refl ..) (List.mem_cons_self : _ ∈ firstRemoved.linked) <|
        .call (.refl ..) trivial .done

theorem removals_inOrder_first : opening.InOrder ∧ firstCompaction.InOrder := by
  have each : ∀ stage ∈ [opening, firstCompaction], stage.InOrder := by
    apply removals_inOrder
    intro stage member compacts
    simp only [List.mem_cons, List.not_mem_nil, or_false] at member
    rcases member with rfl | rfl
    · cases compacts
    · exact nofun
  exact ⟨each _ List.mem_cons_self, each _ (List.mem_cons_of_mem _ List.mem_cons_self)⟩

theorem removals_outOfOrder :
    IsRun [opening, firstCompaction, secondCompaction] ∧ opening.folder.gone = [] ∧
      ¬ secondCompaction.InOrder := by
  refine ⟨.cons_cons ⟨rfl, .refl ..⟩ (.cons_cons ⟨rfl, .refl ..⟩ (.singleton _)), rfl, ?_⟩
  intro inOrder
  have removal := inOrder ⟨firstRemoved, .remove (.segment 2 0), Disk.Removal.removed⟩
    (.tail _ (.tail _ (.head _)))
  have order : 2 ≤ 1 :=
    (removal rfl).older 2 rfl 1 ⟨.segment 1 0, by simp [firstRemoved], rfl⟩
  omega

end Writer

end Seedstone
