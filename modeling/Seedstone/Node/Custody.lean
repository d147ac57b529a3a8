import Seedstone.Node.Writer

/-!
# What the writer answers for

The batches of one executor as the writer has them: `taken` from its inbox,
`settled` once written or dropped.  A settled batch is kept in a segment no write
or sync of which failed, and is proven, under a sync in flight or still to be
synced, unless its executor has let go of it or has a fault to hear first.  A
`Durable` an executor has yet to hear names proven batches only, unless a fault
stands before it.
-/

namespace Seedstone

variable {records : List Record} {flight : Flight} {message : Progress} {client : Client}
  {lane : Lane} {queue : List Progress}

/-- One executor as the writer's invariant sees it: what it handed over, and how much of
that it let go. -/
structure Client where
  submissions : List (List Record)
  floor : Nat

namespace FileState

/-- One of the first `bound` writes holds all of `records`. -/
def Holds (file : FileState) (bound : Nat) (records : List Record) : Prop :=
  ∃ position < bound, ∃ chunk, file.writes[position]? = some chunk ∧
    ∀ record ∈ records, Piece.record record ∈ chunk

theorem Holds.mono {file : FileState} {bound larger : Nat}
    (holds : file.Holds bound records) (le : bound ≤ larger) : file.Holds larger records := by
  obtain ⟨position, below, rest⟩ := holds
  exact ⟨position, Nat.lt_of_lt_of_le below le, rest⟩

/-- A file after more writes or syncs, whether or not one failed. -/
structure Extends (before after : FileState) : Prop where
  writes : ∃ more, after.writes = before.writes ++ more
  synced : before.synced ≤ after.synced

namespace Extends

theorem refl (file : FileState) : Extends file file :=
  ⟨⟨[], (List.append_nil _).symm⟩, Nat.le_refl _⟩

theorem length {before after : FileState} (grown : Extends before after) :
    before.writes.length ≤ after.writes.length := by
  obtain ⟨more, writes⟩ := grown.writes
  rw [writes, List.length_append]
  exact Nat.le_add_right _ _

theorem holds {before after : FileState} (grown : Extends before after) {bound : Nat}
    (holds : before.Holds bound records) : after.Holds bound records := by
  obtain ⟨more, writes⟩ := grown.writes
  obtain ⟨position, below, chunk, located, inside⟩ := holds
  refine ⟨position, below, chunk, ?_, inside⟩
  rw [writes, List.getElem?_append_left (List.getElem?_eq_some_iff.mp located).1]
  exact located

end Extends

end FileState

namespace Disk

/-- A segment whose last good sync was issued after the write of `records`. -/
def Proven (disk : Disk) (generation : Nat) (records : List Record) : Prop :=
  ∃ rotation, (disk.files (.segment generation rotation)).Holds
    (disk.files (.segment generation rotation)).synced records

/-- A segment no write or sync of which failed holds `records`. -/
def Kept (disk : Disk) (generation : Nat) (records : List Record) : Prop :=
  ∃ rotation, (disk.files (.segment generation rotation)).failed = false ∧
    (disk.files (.segment generation rotation)).Holds
      (disk.files (.segment generation rotation)).writes.length records

/-- The sync in flight covers the write of `records`. -/
def Flown (disk : Disk) (flight : Flight) (records : List Record) : Prop :=
  flight.name.isSegment = true ∧ (disk.files flight.name).Holds flight.covers records

/-- No segment lost a write or a sync. -/
def Extends (before after : Disk) : Prop :=
  ∀ name, name.isSegment = true → (before.files name).Extends (after.files name)

/-- No segment of the generation failed meanwhile. -/
def Healthier (generation : Nat) (before after : Disk) : Prop :=
  ∀ rotation, (before.files (.segment generation rotation)).writes ≠ [] →
    (before.files (.segment generation rotation)).failed = false →
    (after.files (.segment generation rotation)).failed = false

namespace Extends

variable {before after : Disk} {generation : Nat} {records : List Record}

theorem refl (disk : Disk) : Extends disk disk :=
  fun name _ => .refl (disk.files name)

theorem proven (grown : Extends before after) (proven : before.Proven generation records) :
    after.Proven generation records := by
  obtain ⟨rotation, holds⟩ := proven
  exact ⟨rotation, ((grown _ rfl).holds holds).mono (grown _ rfl).synced⟩

theorem kept (grown : Extends before after)
    (healthier : Healthier generation before after) (kept : before.Kept generation records) :
    after.Kept generation records := by
  obtain ⟨rotation, good, holds⟩ := kept
  refine ⟨rotation, healthier rotation ?_ good,
    ((grown _ rfl).holds holds).mono (grown _ rfl).length⟩
  intro empty
  obtain ⟨position, below, _⟩ := holds
  rw [empty] at below
  cases below

theorem flown (grown : Extends before after) (flown : before.Flown flight records) :
    after.Flown flight records :=
  ⟨flown.1, (grown flight.name flown.1).holds flown.2⟩

end Extends

end Disk

/-- What a lane's custody reads of the writer: its segment, what is staged, and the
syncs in flight. -/
structure Desk where
  generation : Nat
  rotation : Nat
  dirty : Bool
  syncFailed : Bool
  staged : List Record
  rounds : List (List (Option Nat) × Flight)

namespace Desk

def current (desk : Desk) : FileName :=
  .segment desk.generation desk.rotation

/-- `records` are proven, under a sync in flight, or in the open segment, which
will be synced. -/
def Safe (desk : Desk) (disk : Disk) (records : List Record) : Prop :=
  disk.Proven desk.generation records ∨
    (∃ round ∈ desk.rounds, disk.Flown round.2 records) ∨
    (desk.syncFailed = false ∧ desk.dirty = true ∧
      (disk.files desk.current).Holds (disk.files desk.current).writes.length records)

end Desk

/-- What is promised of a batch, unless its executor let go of it or has a fault
to hear. -/
def Promised (client : Client) (queue : List Progress) (batch : Nat)
    (promise : List Record → Prop) : Prop :=
  batch < client.floor ∨ .fault ∈ queue ∨
    ∃ records, client.submissions[batch]? = some records ∧ promise records

namespace Promised

variable {client : Client} {queue : List Progress} {batch : Nat}
  {promise other : List Record → Prop}

theorem imp (promised : Promised client queue batch promise)
    (implies : ∀ records, promise records → other records) :
    Promised client queue batch other := by
  rcases promised with gone | fault | ⟨records, located, held⟩
  · exact Or.inl gone
  · exact Or.inr (Or.inl fault)
  · exact Or.inr (Or.inr ⟨records, located, implies records held⟩)

theorem say (promised : Promised client queue batch promise) (more : List Progress) :
    Promised client (queue ++ more) batch promise := by
  rcases promised with gone | fault | held
  · exact Or.inl gone
  · exact Or.inr (Or.inl (List.mem_append_left _ fault))
  · exact Or.inr (Or.inr held)

theorem of_fault (fault : .fault ∈ queue) : Promised client queue batch promise :=
  Or.inr (Or.inl fault)

end Promised

/-- A lane with the same batches, whatever else of it changed. -/
structure Lane.SameBatches (before after : Lane) : Prop where
  taken : after.taken = before.taken
  settled : after.settled = before.settled
  received : after.received = before.received
  written : after.written = before.written
  pending : after.pendingBytes = before.pendingBytes

/-- A lane's own figures. -/
structure LaneBooks (client : Client) (staged : List Record) (lane : Lane) : Prop where
  settled : lane.settled ≤ lane.taken
  taken : lane.taken ≤ client.submissions.length
  received : ∀ batch, lane.received = some batch → batch < lane.taken
  written : ∀ batch, lane.written = some batch → batch < lane.settled
  pending : lane.settled < lane.taken → 0 < lane.pendingBytes
  staged : ∀ batch records, lane.settled ≤ batch → batch < lane.taken →
    client.submissions[batch]? = some records → ∀ record ∈ records, record ∈ staged

/-- What an executor has yet to hear: a `Durable` names proven batches, unless a
fault stands before it. -/
def Truthful (client : Client) (queue : List Progress) (disk : Disk) (generation : Nat) :
    Prop :=
  ∀ before through bytes round after,
    queue = before ++ .durable (some through) bytes round :: after →
    through < client.submissions.length ∧
      ∀ batch ≤ through, Promised client before batch (disk.Proven generation)

structure LaneCustody (client : Client) (queue : List Progress) (disk : Disk) (desk : Desk)
    (executor : Nat) (lane : Lane) : Prop where
  books : LaneBooks client desk.staged lane
  truthful : Truthful client queue disk desk.generation
  kept : ∀ batch < lane.settled, Promised client queue batch (disk.Kept desk.generation)
  safe : ∀ batch < lane.settled, Promised client queue batch (desk.Safe disk)
  rounds : ∀ round ∈ desk.rounds, ∀ through, round.1[executor]? = some (some through) →
    through < lane.settled ∧ ∀ batch ≤ through, Promised client queue batch
      (fun records => disk.Proven desk.generation records ∨ disk.Flown round.2 records)

/-- Where an entry stands in a queue that was just added to. -/
theorem split_concat {α : Type} {queue before after : List α} {last entry : α}
    (split : queue ++ [last] = before ++ entry :: after) :
    (queue = before ∧ last = entry) ∨ ∃ rest, queue = before ++ entry :: rest := by
  rcases List.eq_nil_or_concat after with rfl | ⟨rest, final, rfl⟩
  · obtain ⟨same, single⟩ := List.append_inj' split rfl
    exact Or.inl ⟨same, List.singleton_inj.mp single⟩
  · rw [List.concat_eq_append, ← List.cons_append, ← List.append_assoc] at split
    exact Or.inr ⟨rest, (List.append_inj' split rfl).1⟩

namespace Truthful

variable {client : Client} {queue : List Progress} {disk : Disk} {generation : Nat}

variable (truthful : Truthful client queue disk generation)

include truthful

theorem grow {after : Disk} (grown : disk.Extends after) :
    Truthful client queue after generation := by
  intro before through bytes round rest split
  obtain ⟨below, promised⟩ := truthful before through bytes round rest split
  exact ⟨below, fun batch le => (promised batch le).imp fun _ => grown.proven⟩

theorem say (other : ∀ through bytes round, message ≠ .durable (some through) bytes round) :
    Truthful client (queue ++ [message]) disk generation := by
  intro before through bytes round rest split
  rcases split_concat split with ⟨_, same⟩ | ⟨earlier, split⟩
  · exact absurd same (other through bytes round)
  · exact truthful before through bytes round earlier split

theorem sayDurable {through : Nat} (below : through < client.submissions.length)
    (proven : ∀ batch ≤ through, Promised client queue batch (disk.Proven generation))
    (bytes round : Nat) :
    Truthful client (queue ++ [.durable (some through) bytes round]) disk generation := by
  intro before last _ _ rest split
  rcases split_concat split with ⟨rfl, same⟩ | ⟨earlier, split⟩
  · cases same
    exact ⟨below, proven⟩
  · exact truthful before last _ _ earlier split

end Truthful

namespace LaneCustody

variable {client : Client} {queue : List Progress} {disk : Disk} {desk : Desk}
  {executor : Nat} {lane : Lane}

variable (custody : LaneCustody client queue disk desk executor lane)

include custody

theorem relabel {after : Lane} (same : lane.SameBatches after) :
    LaneCustody client queue disk desk executor after := by
  obtain ⟨books, truthful, kept, safe, rounds⟩ := custody
  obtain ⟨taken, settled, received, written, pending⟩ := same
  refine ⟨⟨?_, ?_, ?_, ?_, ?_, ?_⟩, truthful, ?_, ?_, ?_⟩
  · rw [taken, settled]
    exact books.settled
  · rw [taken]
    exact books.taken
  · rw [taken, received]
    exact books.received
  · rw [settled, written]
    exact books.written
  · rw [taken, settled, pending]
    exact books.pending
  · rw [taken, settled]
    exact books.staged
  · rw [settled]
    exact kept
  · rw [settled]
    exact safe
  · rw [settled]
    exact rounds

theorem tell {more : List Progress}
    (truthful : Truthful client (queue ++ more) disk desk.generation) :
    LaneCustody client (queue ++ more) disk desk executor lane where
  books := custody.books
  truthful := truthful
  kept batch below := (custody.kept batch below).say _
  safe batch below := (custody.safe batch below).say _
  rounds round member through located := by
    obtain ⟨below, promised⟩ := custody.rounds round member through located
    exact ⟨below, fun batch le => (promised batch le).say _⟩

theorem say (other : ∀ through bytes round, message ≠ .durable (some through) bytes round) :
    LaneCustody client (queue ++ [message]) disk desk executor lane :=
  custody.tell (custody.truthful.say other)

theorem grow {after : Disk} (grown : disk.Extends after)
    (healthier : disk.Healthier desk.generation after) :
    LaneCustody client queue after desk executor lane where
  books := custody.books
  truthful := custody.truthful.grow grown
  kept batch below := (custody.kept batch below).imp fun _ => grown.kept healthier
  safe batch below := by
    refine (custody.safe batch below).imp ?_
    rintro records (proven | ⟨round, member, flown⟩ | ⟨clean, dirty, holds⟩)
    · exact Or.inl (grown.proven proven)
    · exact Or.inr (Or.inl ⟨round, member, grown.flown flown⟩)
    · exact Or.inr (Or.inr ⟨clean, dirty, ((grown _ rfl).holds holds).mono (grown _ rfl).length⟩)
  rounds round member through located := by
    obtain ⟨below, promised⟩ := custody.rounds round member through located
    refine ⟨below, fun batch le => (promised batch le).imp ?_⟩
    rintro records (proven | flown)
    · exact Or.inl (grown.proven proven)
    · exact Or.inr (grown.flown flown)

/-- A sync of the whole open segment is issued, no other being in flight. -/
theorem issue (alone : desk.rounds = []) {frozen : List (Option Nat)}
    (frozenAt : frozen[executor]? = some lane.written) (dirty : Bool) :
    LaneCustody client queue disk
      { desk with
        dirty := dirty
        rounds := [(frozen, ⟨desk.current, (disk.files desk.current).writes.length⟩)] }
      executor lane := by
  have covered : ∀ records, desk.Safe disk records → disk.Proven desk.generation records ∨
      disk.Flown ⟨desk.current, (disk.files desk.current).writes.length⟩ records := by
    rintro records (proven | ⟨round, member, _⟩ | ⟨_, _, holds⟩)
    · exact Or.inl proven
    · rw [alone] at member
      cases member
    · exact Or.inr ⟨rfl, holds⟩
  refine { custody with safe := ?_, rounds := ?_ }
  · intro batch below
    refine (custody.safe batch below).imp fun records safe => ?_
    rcases covered records safe with proven | flown
    · exact Or.inl proven
    · exact Or.inr (Or.inl ⟨_, List.mem_singleton_self _, flown⟩)
  · intro round member through located
    rw [List.mem_singleton.mp member, frozenAt, Option.some.injEq] at located
    have below := custody.books.written through located
    refine ⟨below, fun batch le => ?_⟩
    rw [List.mem_singleton.mp member]
    exact (custody.safe batch (Nat.lt_of_le_of_lt le below)).imp covered

/-- A sync that reports to no one is issued. -/
theorem park (flight : Flight) :
    LaneCustody client queue disk { desk with rounds := desk.rounds ++ [([], flight)] }
      executor lane := by
  refine { custody with safe := ?_, rounds := ?_ }
  · intro batch below
    refine (custody.safe batch below).imp ?_
    rintro records (proven | ⟨round, member, flown⟩ | dirty)
    · exact Or.inl proven
    · exact Or.inr (Or.inl ⟨round, List.mem_append_left _ member, flown⟩)
    · exact Or.inr (Or.inr dirty)
  · intro round member through located
    rcases List.mem_append.mp member with old | new
    · exact custody.rounds round old through located
    · rw [List.mem_singleton.mp new] at located
      simp at located

/-- A sync has answered, and what it covered is proven. -/
theorem land (arrived : ∀ records, disk.Flown flight records → disk.Proven desk.generation records)
    {rounds : List (List (Option Nat) × Flight)} {dirty : Bool}
    (subset : ∀ round ∈ rounds, round ∈ desk.rounds)
    (others : ∀ round ∈ desk.rounds, round.2 = flight ∨ round ∈ rounds)
    (cleaned : dirty = desk.dirty ∨
      flight = ⟨desk.current, (disk.files desk.current).writes.length⟩) :
    LaneCustody client queue disk { desk with rounds := rounds, dirty := dirty }
      executor lane := by
  refine ⟨custody.books, custody.truthful, custody.kept, ?_,
    fun round member => custody.rounds round (subset round member)⟩
  intro batch below
  refine (custody.safe batch below).imp ?_
  rintro records (proven | ⟨round, member, flown⟩ | ⟨clean, isDirty, holds⟩)
  · exact Or.inl proven
  · rcases others round member with same | still
    · exact Or.inl (arrived records (same ▸ flown))
    · exact Or.inr (Or.inl ⟨round, still, flown⟩)
  · rcases cleaned with same | whole
    · exact Or.inr (Or.inr ⟨clean, same.trans isDirty, holds⟩)
    · refine Or.inl (arrived records ?_)
      rw [whole]
      exact ⟨rfl, holds⟩

/-- What a round that landed lets the writer report. -/
theorem landed {frozen : List (Option Nat)} (member : (frozen, flight) ∈ desk.rounds)
    (arrived : ∀ records, disk.Flown flight records → disk.Proven desk.generation records)
    {through : Nat} (located : frozen[executor]? = some (some through)) :
    through < client.submissions.length ∧
      ∀ batch ≤ through, Promised client queue batch (disk.Proven desk.generation) := by
  obtain ⟨below, promised⟩ := custody.rounds _ member through located
  refine ⟨?_, fun batch le => (promised batch le).imp ?_⟩
  · have settled := custody.books.settled
    have taken := custody.books.taken
    omega
  · rintro records (proven | flown)
    · exact proven
    · exact arrived records flown

/-- Another segment is opened, nothing of the old one being left to sync. -/
theorem swap (settled : desk.dirty = false ∨ desk.syncFailed = true) (rotation : Nat) :
    LaneCustody client queue disk
      { desk with rotation := rotation, dirty := false, syncFailed := false }
      executor lane := by
  refine { custody with safe := ?_ }
  intro batch below
  refine (custody.safe batch below).imp ?_
  rintro records (proven | flown | ⟨clean, isDirty, _⟩)
  · exact Or.inl proven
  · exact Or.inr (Or.inl flown)
  · rcases settled with quiet | failed
    · rw [quiet] at isDirty
      cases isDirty
    · rw [failed] at clean
      cases clean

theorem stage (more : List Record) :
    LaneCustody client queue disk { desk with staged := desk.staged ++ more } executor lane where
  books := { custody.books with
    staged := fun batch records above below located record member =>
      List.mem_append_left _
        (custody.books.staged batch records above below located record member) }
  __ := custody

theorem take (located : client.submissions[lane.taken]? = some records) (nonempty : records ≠ []) :
    LaneCustody client queue disk { desk with staged := desk.staged ++ records } executor
      { lane with
        received := some lane.taken
        pendingBytes := lane.pendingBytes + encodedLen records
        taken := lane.taken + 1 } where
  books :=
    { settled := Nat.le_succ_of_le custody.books.settled
      taken := (List.getElem?_eq_some_iff.mp located).1
      received := by
        intro batch same
        cases same
        exact Nat.lt_succ_self _
      written := custody.books.written
      pending := fun _ => Nat.lt_of_lt_of_le (encodedLen_pos nonempty) (Nat.le_add_left _ _)
      staged := by
        intro batch taken above below found record member
        rcases Nat.lt_succ_iff_lt_or_eq.mp below with earlier | rfl
        · exact List.mem_append_left _
            (custody.books.staged batch taken above earlier found record member)
        · rw [located, Option.some.injEq] at found
          subst found
          exact List.mem_append_right _ member }
  __ := custody

theorem write (clean : desk.syncFailed = false) (healthy : (disk.files desk.current).failed = false)
    (holds : ∀ records, (∀ record ∈ records, record ∈ desk.staged) →
      (disk.files desk.current).Holds (disk.files desk.current).writes.length records) :
    LaneCustody client queue disk { desk with staged := [], dirty := true } executor
      { lane with
        written := lane.received
        writtenBytes := lane.writtenBytes + lane.pendingBytes
        pendingBytes := 0
        settled := lane.taken } := by
  have fresh : ∀ batch, lane.settled ≤ batch → batch < lane.taken → ∃ records,
      client.submissions[batch]? = some records ∧
        (disk.files desk.current).Holds (disk.files desk.current).writes.length
          records := by
    intro batch above below
    have located := List.getElem?_eq_getElem (Nat.lt_of_lt_of_le below custody.books.taken)
    exact ⟨_, located, holds _ (custody.books.staged batch _ above below located)⟩
  refine ⟨⟨Nat.le_refl _, custody.books.taken, custody.books.received,
    custody.books.received, fun less => absurd less (Nat.lt_irrefl _),
    fun batch _ above below => absurd below (Nat.not_lt.mpr above)⟩, custody.truthful, ?_, ?_, ?_⟩
  · intro batch below
    by_cases early : batch < lane.settled
    · exact custody.kept batch early
    · obtain ⟨records, located, held⟩ := fresh batch (Nat.le_of_not_lt early) below
      exact Or.inr (Or.inr ⟨records, located, desk.rotation, healthy, held⟩)
  · intro batch below
    by_cases early : batch < lane.settled
    · refine (custody.safe batch early).imp ?_
      rintro records (proven | flown | ⟨_, _, held⟩)
      · exact Or.inl proven
      · exact Or.inr (Or.inl flown)
      · exact Or.inr (Or.inr ⟨clean, rfl, held⟩)
    · obtain ⟨records, located, held⟩ := fresh batch (Nat.le_of_not_lt early) below
      exact Or.inr (Or.inr ⟨records, located, Or.inr (Or.inr ⟨clean, rfl, held⟩)⟩)
  · intro round member through located
    obtain ⟨below, promised⟩ := custody.rounds round member through located
    exact ⟨Nat.lt_of_lt_of_le below custody.books.settled, promised⟩

end LaneCustody

theorem LaneBooks.drop {staged : List Record} (books : LaneBooks client staged lane)
    (fresh : Bool) (executor : Nat) :
    LaneBooks client [] (Writer.failLane fresh executor lane).2 where
  settled := Nat.le_refl _
  taken := books.taken
  received batch same := Nat.lt_of_lt_of_le (books.written batch same) books.settled
  written batch same := Nat.lt_of_lt_of_le (books.written batch same) books.settled
  pending less := absurd less (Nat.lt_irrefl _)
  staged _ _ above below := absurd below (Nat.not_lt.mpr above)

/-- The first failure of a segment: every executor has a fault to hear. -/
theorem LaneBooks.failFresh {disk : Disk} {desk : Desk} {executor : Nat}
    (books : LaneBooks client desk.staged lane)
    (truthful : Truthful client queue disk desk.generation) :
    LaneCustody client (queue ++ (Writer.failLane true executor lane).1.toList) disk
      { desk with dirty := false, syncFailed := true, staged := [], rounds := [] } executor
      (Writer.failLane true executor lane).2 := by
  have fault : Progress.fault ∈ queue ++ (Writer.failLane true executor lane).1.toList :=
    List.mem_append_right _ (List.mem_singleton_self _)
  exact ⟨books.drop true executor, truthful.say (by simp), fun _ _ => .of_fault fault,
    fun _ _ => .of_fault fault, by simp⟩

/-- A failure after the segment's first: those whose batches are dropped have a
fault to hear. -/
theorem LaneCustody.failAgain {disk : Disk} {desk : Desk} {executor : Nat}
    (custody : LaneCustody client queue disk desk executor lane)
    (failed : desk.syncFailed = true) (alone : desk.rounds = []) :
    LaneCustody client (queue ++ (Writer.failLane false executor lane).1.toList) disk
      { desk with dirty := false, syncFailed := true, staged := [], rounds := [] } executor
      (Writer.failLane false executor lane).2 := by
  have told : ∀ batch, lane.settled ≤ batch → batch < lane.taken →
      Progress.fault ∈ queue ++ (Writer.failLane false executor lane).1.toList := by
    intro batch above below
    have pending := custody.books.pending (Nat.lt_of_le_of_lt above below)
    simp [Writer.failLane, pending]
  refine ⟨custody.books.drop false executor, ?_, ?_, ?_, by simp⟩
  · unfold Writer.failLane
    dsimp only
    split
    · exact custody.truthful.say (by simp)
    · simpa using custody.truthful
  · intro batch below
    by_cases early : batch < lane.settled
    · exact (custody.kept batch early).say _
    · exact .of_fault (told batch (Nat.le_of_not_lt early) below)
  · intro batch below
    by_cases early : batch < lane.settled
    · refine ((custody.safe batch early).imp ?_).say _
      rintro records (proven | ⟨round, member, _⟩ | ⟨clean, _⟩)
      · exact Or.inl proven
      · rw [alone] at member
        cases member
      · rw [failed] at clean
        cases clean
    · exact .of_fault (told batch (Nat.le_of_not_lt early) below)

/-- An executor that handed over more, or let go of more. -/
structure Client.Advances (before after : Client) : Prop where
  submissions : ∃ fresh, after.submissions = before.submissions ++ fresh
  floor : before.floor ≤ after.floor

namespace Client.Advances

variable {before after : Client}

variable (advances : Advances before after)

include advances

theorem length : before.submissions.length ≤ after.submissions.length := by
  obtain ⟨fresh, grown⟩ := advances.submissions
  rw [grown, List.length_append]
  exact Nat.le_add_right _ _

theorem located {batch : Nat} (found : before.submissions[batch]? = some records) :
    after.submissions[batch]? = some records := by
  obtain ⟨fresh, grown⟩ := advances.submissions
  rw [grown, List.getElem?_append_left (List.getElem?_eq_some_iff.mp found).1]
  exact found

theorem promised {batch : Nat} {promise : List Record → Prop}
    (promised : Promised before queue batch promise) :
    Promised after queue batch promise := by
  rcases promised with gone | fault | ⟨records, found, held⟩
  · exact Or.inl (Nat.lt_of_lt_of_le gone advances.floor)
  · exact .of_fault fault
  · exact Or.inr (Or.inr ⟨records, advances.located found, held⟩)

theorem books {staged : List Record} (books : LaneBooks before staged lane) :
    LaneBooks after staged lane :=
  { books with
    taken := books.taken.trans advances.length
    staged := by
      intro batch records above below found
      have inside := Nat.lt_of_lt_of_le below books.taken
      have former := List.getElem?_eq_getElem inside
      have same := advances.located former
      rw [found, Option.some.injEq] at same
      subst same
      exact books.staged batch _ above below former }

end Client.Advances

namespace LaneCustody

variable {client after : Client} {queue : List Progress} {disk : Disk} {desk : Desk}
  {executor : Nat} {lane : Lane}

/-- The executor has moved on, and what was promised behind the messages it heard
stays so. -/
theorem carry {heard : List Progress}
    (custody : LaneCustody client (heard ++ queue) disk desk executor lane)
    (advances : client.Advances after)
    (promised : ∀ {queue batch promise}, batch < client.submissions.length →
      Promised client (heard ++ queue) batch promise → Promised after queue batch promise) :
    LaneCustody after queue disk desk executor lane := by
  have taken := custody.books.settled.trans custody.books.taken
  refine ⟨advances.books custody.books, ?_,
    fun batch below => promised (Nat.lt_of_lt_of_le below taken) (custody.kept batch below),
    fun batch below => promised (Nat.lt_of_lt_of_le below taken) (custody.safe batch below), ?_⟩
  · intro before through bytes round rest split
    obtain ⟨below, proven⟩ := custody.truthful (heard ++ before) through bytes round rest
      (by rw [split, List.append_assoc])
    exact ⟨Nat.lt_of_lt_of_le below advances.length, fun batch le =>
      promised (Nat.lt_of_le_of_lt le below) (proven batch le)⟩
  · intro round member through located
    obtain ⟨below, covered⟩ := custody.rounds round member through located
    exact ⟨below, fun batch le => promised (by omega) (covered batch le)⟩

/-- The executor hears a message: at a fault it lets go of every batch it handed over.
-/
theorem hear (custody : LaneCustody client (message :: queue) disk desk executor lane)
    (advances : client.Advances after)
    (faulted : message = .fault → client.submissions.length ≤ after.floor) :
    LaneCustody after queue disk desk executor lane := by
  have heard : LaneCustody client ([message] ++ queue) disk desk executor lane := custody
  refine heard.carry advances fun below promised => ?_
  rcases promised with gone | fault | held
  · exact advances.promised (Or.inl gone)
  · rcases List.mem_cons.mp fault with same | later
    · exact Or.inl (Nat.lt_of_lt_of_le below (faulted same.symm))
    · exact .of_fault later
  · exact advances.promised (Or.inr (Or.inr held))

/-- The executor hands over more, or lets go of more. -/
theorem advance (custody : LaneCustody client queue disk desk executor lane)
    (advances : client.Advances after) : LaneCustody after queue disk desk executor lane := by
  have unheard : LaneCustody client ([] ++ queue) disk desk executor lane := custody
  exact unheard.carry advances fun _ promised => advances.promised promised

end LaneCustody

end Seedstone
