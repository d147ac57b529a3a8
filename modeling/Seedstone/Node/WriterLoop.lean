import Seedstone.Node.WriterCalls

/-!
# The writer's loop

Each handler of the writer, from one await to the next, keeps its custody.  While
it waits for a sync outside its loop, what that sync covers counts as in flight.
-/

namespace Seedstone

/-- A sync in flight has answered. -/
abbrev World.settled (world : World) (flight : Flight) (ok : Bool) : World :=
  { world with disk := world.disk.settle flight ok }

namespace Writer

variable {after : Writer} {flight : Flight} {covered : List (Option Nat)}

/-- The writer in its last round: every executor's stop was taken, everything taken
was written or dropped, and no round of the loop is in flight. -/
structure Closing (writer : Writer) : Prop where
  alone : writer.inFlight = none
  quiet : writer.staged = []
  stopped : writer.lanes.all Lane.stopped = true

/-- What a phase says of the writer: a rotation and the last sync wait for a sync of
all of the segment, and at the end nothing of it is left to sync. -/
def Parked (writer : Writer) (disk : Disk) : Prop :=
  match writer.phase with
  | .rotating flight =>
    writer.segment.syncFailed = false ∧ flight = disk.syncLater writer.fileName
  | .lastFlight .. => writer.Closing
  | .lastSync _ flight =>
    writer.Closing ∧ writer.segment.syncFailed = false ∧
      flight = disk.syncLater writer.fileName
  | .ended =>
    writer.Closing ∧ (writer.segment.syncFailed = true ∨ writer.segment.dirty = false)
  | .opened | .idle | .draining | .lost _ => True

/-- The writer between two of its handlers: `stopped` is the last it says. -/
structure Stands (clients : Nat → Client) (writer : Writer) (world : World) : Prop where
  custody : Custody clients writer.phase.waits writer world
  parked : writer.Parked world.disk
  unsaid : writer.phase ≠ .ended → world.Unsaid
  last : ∀ executor before after,
    world.progress executor = before ++ .stopped :: after → after = []

variable {clients : Nat → Client} {waits : List (List (Option Nat) × Flight)}
  {writer : Writer} {world : World}

theorem Custody.stands (custody : Custody clients [] writer world) (unsaid : world.Unsaid)
    (phase : writer.phase = .idle ∨ writer.phase = .draining) :
    Stands clients writer world := by
  rcases phase with phase | phase <;>
    exact ⟨by rwa [phase], by simp [Parked, phase], fun _ => unsaid, unsaid.last⟩

theorem Stands.elsewhere {after : Nat → Client} {later : World}
    (stands : Stands clients writer world)
    (segments : ∀ generation rotation,
      later.disk.files (.segment generation rotation) =
        world.disk.files (.segment generation rotation))
    (lanes : ∀ executor lane, LaneCustody (clients executor) (world.progress executor)
        world.disk (writer.desk writer.phase.waits) executor lane →
      LaneCustody (after executor) (later.progress executor) world.disk
        (writer.desk writer.phase.waits) executor lane)
    (heard : ∀ executor, later.progress executor <:+ world.progress executor) :
    Stands after writer later := by
  refine ⟨stands.custody.elsewhere segments lanes, ?_, ?_, ?_⟩
  rotate_left
  · intro phase executor member
    exact stands.unsaid phase executor ((heard executor).subset member)
  · intro executor before rest split
    obtain ⟨gone, queue⟩ := heard executor
    rw [split] at queue
    exact stands.last executor (gone ++ before) rest (by rw [← queue, List.append_assoc])
  have same : later.disk.syncLater writer.fileName = world.disk.syncLater writer.fileName := by
    simp only [Disk.syncLater, fileName, segments]
  have parked := stands.parked
  unfold Parked at parked ⊢
  rw [same]
  exact parked

theorem fail_phase : (writer.fail.run World.handle world).1.phase = writer.phase := by
  unfold Writer.fail
  cases writer.inFlight <;> simp [run_tell]

theorem fail_inFlight : (writer.fail.run World.handle world).1.inFlight = none := by
  unfold Writer.fail
  cases writer.inFlight <;> simp [run_tell]

theorem reportDurable_phase (covered : List (Option Nat)) :
    ((writer.reportDurable covered).run World.handle world).1.phase = writer.phase := by
  simp [Writer.reportDurable, run_tell]

theorem reportDurable_inFlight (covered : List (Option Nat)) :
    ((writer.reportDurable covered).run World.handle world).1.inFlight = writer.inFlight := by
  simp [Writer.reportDurable, run_tell]

theorem settle_phase (covered : List (Option Nat)) (ok : Bool) :
    ((writer.settle covered ok).run World.handle world).1.phase = writer.phase := by
  cases ok with
  | true => exact reportDurable_phase covered
  | false => exact fail_phase

theorem mark_phase : (writer.mark.run World.handle world).1.2.phase = writer.phase := by
  unfold Writer.mark
  rw [Program.run_bind]
  split <;> rfl

theorem maybeIssue_phase (now : Nat) :
    ((writer.maybeIssue now).run World.handle world).1.phase = writer.phase := by
  unfold Writer.maybeIssue
  split
  · rfl
  · dsimp only
    generalize (if writer.segment.dirty then writer.policy.minInterval else none) = cadence
    split
    · rfl
    · split
      · rfl
      · rw [Program.run_bind]
        have marked : (Program.run World.handle
            (Writer.mark { writer with syncWanted := false }) world).1.2.phase =
              writer.phase := mark_phase
        split
        · exact marked
        · rw [fail_phase]
          exact marked

theorem Custody.parked (custody : Custody clients [] writer world)
    (fresh : writer.segment.syncFailed = false) (phase : WriterPhase) :
    Custody clients [([], world.disk.syncLater writer.fileName)]
      { writer with phase := phase } world := by
  refine custody.redesk (by simp [desk]) rfl rfl (fun executor lane located =>
    (custody.lanes executor lane located).park (world.disk.syncLater writer.fileName)) ?_ ?_
  · intro failed
    rw [fresh] at failed
    cases failed
  · intro round member
    rcases List.mem_append.mp member with old | new
    · exact custody.ground.named round old
    · rw [List.mem_singleton.mp new]
      exact ⟨_, custody.ground.attempted, rfl⟩

/-- Nothing is staged, and no executor was told that the writer is over. -/
structure Ready (clients : Nat → Client) (writer : Writer) (world : World) : Prop where
  custody : Custody clients [] writer world
  quiet : writer.staged = []
  unsaid : world.Unsaid

theorem Ready.alike (ready : Ready clients writer world) (desk : after.desk [] = writer.desk [])
    (attempted : after.segment.attempted = writer.segment.attempted)
    (lanes : after.lanes = writer.lanes) : Ready clients after world :=
  ⟨ready.custody.alike desk attempted lanes,
    (congrArg Desk.staged desk).trans ready.quiet, ready.unsaid⟩

theorem quiet_fail : (writer.fail.run World.handle world).1.staged = [] := by
  unfold Writer.fail
  cases writer.inFlight <;> simp [run_tell]

theorem clean_fail : (writer.fail.run World.handle world).1.segment.dirty = false := by
  unfold Writer.fail
  cases writer.inFlight <;> simp [run_tell]

theorem quiet_writeOut : (writer.writeOut.run World.handle world).1.staged = [] := by
  by_cases ok : (world.disk.write writer.fileName (writer.staged.map Piece.record)).1 = true
  · simp only [Writer.writeOut, Program.run_bind, Task.run_write, World.onDisk_fst, ok,
      if_true, World.onDisk_snd, run_tell]
  · simp only [Writer.writeOut, Program.run_bind, Task.run_write, World.onDisk_fst, ok,
      Bool.false_eq_true, if_false]
    exact quiet_fail

theorem quiet_openNext (failed : (writer.openNext.run World.handle world).1.1 = false) :
    (writer.openNext.run World.handle world).1.2.staged = [] := by
  unfold Writer.openNext at *
  rw [Program.run_bind] at *
  split at failed
  · rw [Program.run_bind] at failed
    cases failed
  · next created =>
      rw [if_neg created, Program.run_bind]
      exact quiet_fail

theorem Shaken.ready (shaken : Shaken clients writer world) (unsaid : world.Unsaid) :
    writer.fail.Leads world (Ready clients) :=
  ⟨shaken.fail, quiet_fail, unsaid.run steps_fail⟩

theorem Steady.stopped (steady : Steady writer after) :
    after.lanes.all Lane.stopped = writer.lanes.all Lane.stopped := by
  have flags := congrArg (List.map fun standing => standing.2.1) steady.standing
  rw [List.map_map, List.map_map] at flags
  have all : ∀ lanes : List Lane, lanes.all Lane.stopped =
      (lanes.map ((fun standing => standing.2.1) ∘ Lane.standing)).all id := by
    intro lanes
    rw [List.all_map]
    rfl
  rw [all, all, flags]

section

variable (ready : Ready clients writer world)

include ready

theorem Ready.sayStopped (alone : writer.inFlight = none)
    (stopped : writer.lanes.all Lane.stopped = true)
    (clean : writer.segment.syncFailed = true ∨ writer.segment.dirty = false) :
    writer.sayStopped.Leads world (Stands clients) := by
  have told : (writer.tell fun _ lane => (some .stopped, lane)).Leads world
      (Custody clients []) := by
    apply custody_tell ready.custody.ground
    intro executor lane located
    exact (ready.custody.lanes executor lane located).say (by simp)
  have same : writer.lanes.mapIdx (fun _ lane => lane) = writer.lanes := by
    apply List.ext_getElem?
    intro executor
    rw [List.getElem?_mapIdx, Option.map_id']
  unfold Writer.sayStopped
  rw [Task.leads_bind]
  refine ⟨told.alike rfl rfl rfl, ?_, fun unended => absurd rfl unended, ?_⟩
  · rw [run_tell]
    refine ⟨⟨alone, ready.quiet, ?_⟩, clean⟩
    dsimp only [Program.run_pure]
    rw [same]
    exact stopped
  · intro executor before after split
    rw [run_tell] at split
    dsimp only [Program.run_pure] at split
    cases located : writer.lanes[executor]? with
    | none =>
      simp only [toldFrom, Nat.zero_le, if_true, Nat.sub_zero, located, Option.bind_none,
        Option.toList_none, List.append_nil] at split
      exact ready.unsaid.last executor before after split
    | some lane =>
      rw [toldFrom_zero located, Option.toList_some] at split
      rcases split_concat split with ⟨rfl, _⟩ | ⟨rest, earlier⟩
      · simpa using (List.append_cancel_left split).symm
      · have silent := ready.unsaid executor
        rw [earlier] at silent
        simp at silent

/-- `last_round`, once no round is in flight. -/
theorem Ready.lastSyncOf (alone : writer.inFlight = none)
    (stopped : writer.lanes.all Lane.stopped = true) :
    writer.lastSyncOf.Leads world (Stands clients) := by
  unfold Writer.lastSyncOf
  split
  · next unsynced =>
      have fresh : writer.segment.syncFailed = false := by
        simpa using (Bool.and_eq_true_iff.mp unsynced).2
      rw [Task.leads_bind]
      rcases ready.custody.mark fresh with ⟨bytes, disk, ran, marked⟩ | ⟨disk, ran, shaken⟩
      · rw [ran]
        exact ⟨marked.issued alone fresh (by simp [desk, alone, WriterPhase.waits]) rfl rfl,
          ⟨⟨alone, ready.quiet, stopped⟩, fresh, rfl⟩, fun _ => ready.unsaid, ready.unsaid.last⟩
      · simp only [ran, Bool.false_eq_true, if_false, Task.Leads, Program.run_bind]
        have failed := shaken.ready ready.unsaid
        exact failed.sayStopped fail_inFlight
          ((steady_fail writer _).stopped.trans stopped) (Or.inr clean_fail)
  · next synced =>
      apply ready.sayStopped alone stopped
      cases dirty : writer.segment.dirty with
      | false => exact Or.inr rfl
      | true => exact Or.inl (by simpa [dirty] using synced)

theorem Ready.lastRound (stopped : writer.lanes.all Lane.stopped = true) :
    writer.lastRound.Leads world (Stands clients) := by
  unfold Writer.lastRound
  cases flying : writer.inFlight with
  | none => exact ready.lastSyncOf flying stopped
  | some round =>
    refine ⟨ready.custody.alike ?_ rfl rfl, ⟨rfl, ready.quiet, stopped⟩,
      fun _ => ready.unsaid, ready.unsaid.last⟩
    simp [desk, flying, WriterPhase.waits]

theorem Ready.afterWrite (now : Nat) : (writer.afterWrite now).Leads world (Stands clients) := by
  have idle : Ready clients { writer with phase := .idle } world := ready.alike rfl rfl rfl
  have steady : Steady { writer with phase := .idle } _ := (steps_maybeIssue now).steady world
  have issued : (Writer.maybeIssue { writer with phase := .idle } now).Leads world
      (Ready clients) :=
    ⟨idle.custody.maybeIssue now, steady.quiet ready.quiet, idle.unsaid.run (steps_maybeIssue now)⟩
  have phase : (Program.run World.handle
      (Writer.maybeIssue { writer with phase := .idle } now) world).1.phase = .idle :=
    maybeIssue_phase now
  unfold Writer.afterWrite
  rw [Task.leads_bind]
  split
  · next stopped => exact issued.lastRound stopped
  · exact issued.custody.stands issued.unsaid (Or.inl phase)

end

/-- `write_staged` from the swap on. -/
theorem Custody.rotateAndWrite (custody : Custody clients [] writer world) (unsaid : world.Unsaid)
    (settled : writer.segment.dirty = false ∨ writer.segment.syncFailed = true) (now : Nat) :
    (writer.rotateAndWrite now).Leads world (Stands clients) := by
  obtain ⟨opened, fresh⟩ := custody.openNext settled
  have quiet : (writer.openNext.run World.handle world).1.1 = false →
      (writer.openNext.run World.handle world).1.2.staged = [] := quiet_openNext
  have silent : (writer.openNext.run World.handle world).2.Unsaid := by
    have opens : Steps False writer (writer.openNext >>= fun outcome => pure outcome.2) :=
      steps_openNext fun _ _ => .done ⟨rfl, rfl, rfl⟩
    have after := unsaid.run opens
    rwa [Program.run_bind] at after
  unfold Writer.rotateAndWrite
  rw [Task.leads_bind]
  generalize writer.openNext.run World.handle world = outcome at opened fresh quiet silent ⊢
  obtain ⟨⟨ok, after⟩, later⟩ := outcome
  dsimp only at opened fresh quiet silent ⊢
  cases ok with
  | true =>
    simp only [if_true, Task.Leads, Program.run_bind]
    exact Ready.afterWrite ⟨opened.writeOut (fresh rfl), quiet_writeOut,
      silent.run steps_writeOut⟩ now
  | false => exact Ready.afterWrite ⟨opened, quiet rfl, silent⟩ now

theorem Custody.flush (custody : Custody clients [] writer world) (unsaid : world.Unsaid)
    (now : Nat) : (writer.flush now).Leads world (Stands clients) := by
  unfold Writer.flush
  split
  · next quiet => exact Ready.afterWrite ⟨custody, List.isEmpty_iff.mp quiet, unsaid⟩ now
  · split
    · next stays =>
        have fresh : writer.segment.syncFailed = false := by
          by_contra failed
          simp [needsRotation, failed] at stays
        rw [Task.leads_bind]
        exact Ready.afterWrite ⟨custody.writeOut fresh, quiet_writeOut,
          unsaid.run steps_writeOut⟩ now
    · split
      · next unsynced =>
          have fresh : writer.segment.syncFailed = false := by
            simpa using (Bool.and_eq_true_iff.mp unsynced).2
          rw [Task.leads_bind]
          rcases custody.mark fresh with ⟨bytes, disk, ran, marked⟩ | ⟨disk, ran, shaken⟩
          · rw [ran]
            exact ⟨marked.parked fresh _, ⟨fresh, rfl⟩, fun _ => unsaid, unsaid.last⟩
          · simp only [ran, Bool.false_eq_true, if_false, Task.Leads, Program.run_bind]
            exact (shaken.ready unsaid).afterWrite now
      · next synced =>
          apply custody.rotateAndWrite unsaid
          cases dirty : writer.segment.dirty with
          | false => exact Or.inl rfl
          | true => exact Or.inr (by simpa [dirty] using synced)

theorem Custody.crashed (custody : Custody clients waits writer world)
    {frozen : List (Option Nat)} (member : (frozen, flight) ∈ (writer.desk waits).rounds) :
    Shaken clients writer (world.settled flight false) := by
  have fresh : writer.segment.syncFailed = false := by
    by_contra failed
    rw [custody.ground.grounded (by simpa using failed)] at member
    cases member
  exact custody.shaken fresh (Disk.extends_settle flight false)
    (untouched_of_other (fun _ different => Disk.settle_other different false)
      (custody.ground.named _ member) custody.ground.untouched)

/-- A sync in flight has returned `Ok`: the segment is clean if it covered all of it. -/
theorem Custody.landed (custody : Custody clients waits writer world)
    {frozen : List (Option Nat)} (member : (frozen, flight) ∈ (writer.desk waits).rounds)
    {waiting : List (List (Option Nat) × Flight)}
    (desk : after.desk waiting = { writer.desk waits with
      rounds := (after.desk waiting).rounds, dirty := after.segment.dirty })
    (subset : ∀ round ∈ (after.desk waiting).rounds, round ∈ (writer.desk waits).rounds)
    (others : ∀ round ∈ (writer.desk waits).rounds,
      round.2 = flight ∨ round ∈ (after.desk waiting).rounds)
    (cleaned : after.segment.dirty = writer.segment.dirty ∨
      flight = world.disk.syncLater writer.fileName)
    (attempted : after.segment.attempted = writer.segment.attempted)
    (lanes : after.lanes = writer.lanes) :
    Custody clients waiting after (world.settled flight true) ∧
      ∀ executor lane, after.lanes[executor]? = some lane → ∀ through,
        frozen[executor]? = some (some through) → through < (clients executor).submissions.length ∧
          ∀ batch ≤ through, Promised (clients executor) (world.progress executor) batch
            ((world.disk.settle flight true).Proven after.generation) := by
  have generation : after.generation = writer.generation := congrArg Desk.generation desk
  obtain ⟨name, le, named⟩ := custody.ground.named _ member
  have arrived : ∀ records, (world.disk.settle flight true).Flown flight records →
      (world.disk.settle flight true).Proven writer.generation records :=
    fun records flown => Disk.proven_settle named flown
  have settled : Custody clients waits writer (world.settled flight true) :=
    custody.grow (Disk.extends_settle flight true)
      (fun _ different => Disk.settle_other different true) ⟨name, le, named⟩ fun good => by
        rw [Disk.settle_ok]
        exact good
  refine ⟨settled.redesk desk attempted lanes ?_ ?_ ?_, ?_⟩
  · intro executor lane located
    refine (settled.lanes executor lane located).land arrived subset others ?_
    rcases cleaned with same | whole
    · exact Or.inl same
    · refine Or.inr (whole.trans ?_)
      rw [Disk.settle_writes]
      rfl
  · intro isFailed
    rw [custody.ground.grounded isFailed] at member
    cases member
  · exact fun round inside => custody.ground.named round (subset round inside)
  · intro executor lane located through frozenAt
    rw [lanes] at located
    rw [generation]
    exact (settled.lanes executor lane located).landed member arrived frozenAt

theorem Shaken.grounded (shaken : Shaken clients writer world) :
    Shaken clients { writer with inFlight := none } world :=
  { shaken with named := nofun }

variable (stands : Stands clients writer world) (ok : Bool) (now : Nat)

include stands

theorem Stands.completed_idle (phase : writer.phase = .idle)
    (flying : writer.inFlight = some (covered, flight)) :
    (writer.completed ok now).Leads (world.settled flight ok) (Stands clients) := by
  have custody := stands.custody
  have member : (covered, flight) ∈ (writer.desk writer.phase.waits).rounds := by
    simp [desk, flying]
  have waits : writer.phase.waits = [] := by rw [phase]; rfl
  have settled : (settle { writer with inFlight := none } covered ok).Leads
    (world.settled flight ok)
      (Custody clients []) := by
    cases ok with
    | true =>
      obtain ⟨landed, proven⟩ : Custody clients [] { writer with inFlight := none }
          (world.settled flight true) ∧ _ :=
        custody.landed member rfl (by simp [desk]) (by simp [desk, flying, waits])
          (Or.inl rfl) rfl rfl
      exact landed.reportDurable proven
    | false => exact (custody.crashed member).grounded.fail
  have ran : writer.completed ok now =
      (settle { writer with inFlight := none } covered ok >>= fun writer =>
        writer.maybeIssue now) := by
    unfold Writer.completed
    split
    · split
      · simp_all
      · next same =>
          rw [flying] at same
          cases same
          rfl
    all_goals simp_all
  have unsaid : (world.settled flight ok).Unsaid := stands.unsaid (by simp [phase])
  rw [ran, Task.leads_bind]
  refine (settled.maybeIssue now).stands
    ((unsaid.run (steps_settle covered ok)).run (steps_maybeIssue now)) (Or.inl ?_)
  rw [maybeIssue_phase, settle_phase]
  exact phase

theorem Stands.completed_rotating (phase : writer.phase = .rotating flight) :
    (writer.completed ok now).Leads (world.settled flight ok) (Stands clients) := by
  have custody := stands.custody
  have waits : writer.phase.waits = [([], flight)] := by rw [phase]; rfl
  have member : ([], flight) ∈ (writer.desk writer.phase.waits).rounds := by
    simp [desk, waits]
  obtain ⟨fresh, whole⟩ : writer.segment.syncFailed = false ∧
      flight = world.disk.syncLater writer.fileName := by
    have parked := stands.parked
    rwa [Parked, phase] at parked
  have unsaid : (world.settled flight ok).Unsaid := stands.unsaid (by simp [phase])
  cases ok with
  | true =>
    have rest : (writer.desk writer.phase.waits).rounds =
        writer.inFlight.toList ++ [([], flight)] := by
      rw [waits]
      rfl
    obtain ⟨landed, _⟩ : Custody clients [] writer.clean
        (world.settled flight true) ∧ _ := by
      refine custody.landed member rfl ?_ ?_ (Or.inr whole) rfl rfl
      · intro round inside
        rw [rest]
        exact List.mem_append_left _ (by simpa [desk, clean] using inside)
      · intro round inside
        rw [rest] at inside
        rcases List.mem_append.mp inside with old | parked
        · exact Or.inr (List.mem_append_left _ old)
        · exact Or.inl (congrArg Prod.snd (List.mem_singleton.mp parked))
    have ran : writer.completed true now = writer.clean.rotateAndWrite now := by
      unfold Writer.completed
      split <;> simp_all
    rw [ran]
    exact landed.rotateAndWrite unsaid (Or.inl rfl) now
  | false =>
    have ran : writer.completed false now =
        (writer.fail >>= fun writer => writer.afterWrite now) := by
      unfold Writer.completed
      split <;> simp_all
    rw [ran, Task.leads_bind]
    exact ((custody.crashed member).ready unsaid).afterWrite now

theorem Stands.completed_lastFlight (phase : writer.phase = .lastFlight covered flight) :
    (writer.completed ok now).Leads (world.settled flight ok) (Stands clients) := by
  have custody := stands.custody
  obtain ⟨alone, quiet, stopped⟩ : writer.Closing := by
    have parked := stands.parked
    rwa [Parked, phase] at parked
  have unsaid : (world.settled flight ok).Unsaid := stands.unsaid (by simp [phase])
  have rest : (writer.desk writer.phase.waits).rounds = [(covered, flight)] := by
    simp [desk, alone, phase, WriterPhase.waits]
  have member : (covered, flight) ∈ (writer.desk writer.phase.waits).rounds := by simp [rest]
  have ran : writer.completed ok now =
      (writer.settle covered ok >>= fun writer => writer.lastSyncOf) := by
    unfold Writer.completed
    split <;> simp_all
  rw [ran, Task.leads_bind]
  cases ok with
  | true =>
    obtain ⟨landed, proven⟩ : Custody clients [] writer (world.settled flight true) ∧ _ := by
      refine custody.landed member rfl ?_ ?_ (Or.inl rfl) rfl rfl
      · simp [desk, alone]
      · simp [rest]
    have steady := steady_reportDurable writer covered (world.settled flight true)
    exact Ready.lastSyncOf ⟨landed.reportDurable proven, steady.quiet quiet,
      unsaid.run (steps_reportDurable covered)⟩
      ((reportDurable_inFlight covered).trans alone) (steady.stopped.trans stopped)
  | false =>
    exact ((custody.crashed member).ready unsaid).lastSyncOf fail_inFlight
      ((steady_fail writer _).stopped.trans stopped)

theorem Stands.completed_lastSync (phase : writer.phase = .lastSync covered flight) :
    (writer.completed ok now).Leads (world.settled flight ok) (Stands clients) := by
  have custody := stands.custody
  obtain ⟨⟨alone, quiet, stopped⟩, fresh, whole⟩ : writer.Closing ∧
      writer.segment.syncFailed = false ∧ flight = world.disk.syncLater writer.fileName := by
    have parked := stands.parked
    rwa [Parked, phase] at parked
  have unsaid : (world.settled flight ok).Unsaid := stands.unsaid (by simp [phase])
  have rest : (writer.desk writer.phase.waits).rounds = [(covered, flight)] := by
    simp [desk, alone, phase, WriterPhase.waits]
  have member : (covered, flight) ∈ (writer.desk writer.phase.waits).rounds := by simp [rest]
  cases ok with
  | true =>
    obtain ⟨landed, proven⟩ : Custody clients [] writer.clean
        (world.settled flight true) ∧ _ := by
      refine custody.landed member rfl ?_ ?_ (Or.inr whole) rfl rfl
      · simp [desk, clean, alone]
      · simp [rest]
    have ran : writer.completed true now =
        (writer.clean.reportDurable covered >>= fun writer => writer.sayStopped) := by
      unfold Writer.completed
      split <;> simp_all
    have steady := steady_reportDurable writer.clean covered (world.settled flight true)
    rw [ran, Task.leads_bind]
    refine Ready.sayStopped ⟨landed.reportDurable proven, steady.quiet quiet,
      unsaid.run (steps_reportDurable covered)⟩
      ((reportDurable_inFlight covered).trans alone) (steady.stopped.trans stopped) (Or.inr ?_)
    simp [Writer.reportDurable, run_tell, clean]
  | false =>
    have ran : writer.completed false now =
        (writer.fail >>= fun writer => writer.sayStopped) := by
      unfold Writer.completed
      split <;> simp_all
    rw [ran, Task.leads_bind]
    exact ((custody.crashed member).ready unsaid).sayStopped fail_inFlight
      ((steady_fail writer _).stopped.trans stopped) (Or.inr clean_fail)

theorem Stands.completed (awaited : writer.awaited = some flight) :
    (writer.completed ok now).Leads (world.settled flight ok) (Stands clients) := by
  unfold Writer.awaited at awaited
  cases phase : writer.phase with
  | idle =>
    rw [phase] at awaited
    obtain ⟨round, flying, rfl⟩ := Option.map_eq_some_iff.mp awaited
    exact stands.completed_idle ok now phase flying
  | rotating flight =>
    rw [phase] at awaited
    cases awaited
    exact stands.completed_rotating ok now phase
  | lastFlight covered flight =>
    rw [phase] at awaited
    cases awaited
    exact stands.completed_lastFlight ok now phase
  | lastSync covered flight =>
    rw [phase] at awaited
    cases awaited
    exact stands.completed_lastSync ok now phase
  | opened | draining | ended | lost =>
    rw [phase] at awaited
    cases awaited

end Writer

end Seedstone
