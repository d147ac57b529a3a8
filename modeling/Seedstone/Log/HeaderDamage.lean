import Seedstone.Log.ChunkSize
import Seedstone.Log.Files
import Seedstone.Log.Survivors

/-!
# Damaged headers

A segment as the writer wrote it, with the headers of some records changed.  The
reader goes through the bytes of such a record one at a time, and what a client
stored is among them: a value that holds a record in the log's own format is read as
one.  The items are those that were written exactly if no such bytes decode, or only
behind a place where the segment is given up.
-/

namespace Seedstone

variable {consumed : Nat}

/-- A record as it is framed, whatever its payload is. -/
structure RecordFrame where
  shard : Nat
  seq : Nat
  payload : Bytes
deriving DecidableEq, Repr

/-- A run of zeroes. -/
def zeroes (count : Nat) : Bytes :=
  List.replicate count endOfLogMarker

namespace RecordFrame

def encode (frame : RecordFrame) : Bytes :=
  encodeRecord frame.shard frame.seq frame.payload

/-- A frame that fits its fields. -/
structure Fits (frame : RecordFrame) : Prop where
  shard : frame.shard < 256 ^ 2
  seq : frame.seq < 256 ^ 8
  short : bodyFixedLen + frame.payload.length ≤ maxBodyLen

theorem length_encode (frame : RecordFrame) :
    frame.encode.length = headerLen + (bodyFixedLen + frame.payload.length) := by
  rw [encode, length_encodeRecord, recordFixedLen, headerLen, bodyFixedLen]
  omega

/-- Magic, length and checksum. -/
def header (frame : RecordFrame) : Bytes :=
  frame.encode.take headerLen

/-- Shard, sequence number and payload. -/
def body (frame : RecordFrame) : Bytes :=
  frame.encode.drop headerLen

theorem encode_eq (frame : RecordFrame) :
    ∃ body : Bytes, bodyFixedLen ≤ body.length ∧ body.drop bodyFixedLen = frame.payload ∧
      frame.encode = framed (crc32IsoHdlc body).toNat body := by
  refine ⟨_, ?_, ?_, encodeRecord_eq frame.shard frame.seq frame.payload⟩
  · simp only [List.length_append, LittleEndian.length_bytes, bodyFixedLen]
    omega
  · exact List.drop_left' (by simp [bodyFixedLen])

theorem header_eq (frame : RecordFrame) :
    frame.header = magic :: LittleEndian.bytes 4 frame.body.length ++
      LittleEndian.bytes 4 (crc32IsoHdlc frame.body).toNat ∧
    bodyFixedLen ≤ frame.body.length ∧ frame.body.drop bodyFixedLen = frame.payload := by
  obtain ⟨body, long, payload, same⟩ := frame.encode_eq
  have nine : (magic :: LittleEndian.bytes 4 body.length ++
      LittleEndian.bytes 4 (crc32IsoHdlc body).toNat).length = headerLen := by
    simp [headerLen]
  have behind : frame.body = body := by
    rw [RecordFrame.body, same]
    exact List.drop_left' nine
  rw [behind]
  refine ⟨?_, long, payload⟩
  rw [header, same]
  exact List.take_left' nine

/-- Bytes that decode with the payload of the record behind them are its header. -/
theorem header_of_decode {frame : RecordFrame} {header rest : Bytes} {shard seq : Nat}
    (nine : header.length = headerLen)
    (reads : decodeRecord (header ++ frame.body ++ rest) =
      .record shard seq frame.payload consumed) : header = frame.header := by
  obtain ⟨shape, long, payload⟩ := frame.header_eq
  obtain ⟨candidate, whole, check, carried⟩ := decodeRecord_record reads
  have behind : (header ++ frame.body ++ rest).drop headerLen = frame.body ++ rest := by
    rw [List.append_assoc]
    exact List.drop_left' nine
  have plausibly := candidate.length
  simp only [plausibleLen, Bool.and_eq_true, decide_eq_true_eq] at plausibly
  have declared : declaredLen (header ++ frame.body ++ rest) = frame.body.length := by
    have lengths := congrArg List.length (payload.trans carried)
    have enough := congrArg List.length behind
    rw [List.length_drop, List.length_drop, bodyOf, List.length_take, behind] at lengths
    rw [List.length_drop] at enough
    omega
  have stands : bodyOf (header ++ frame.body ++ rest) = frame.body := by
    rw [bodyOf, behind, declared, List.take_left]
  rw [stands] at check
  unfold headerLen at nine
  have length : (header.drop 1).take 4 = LittleEndian.bytes 4 frame.body.length := by
    have four : ((header.drop 1).take 4).length = 4 := by
      rw [List.length_take, List.length_drop]
      omega
    have value : LittleEndian.value ((header.drop 1).take 4) = frame.body.length := by
      rw [← declared, declaredLen, List.append_assoc, List.drop_append_of_le_length (by omega),
        List.take_append_of_le_length (by rw [List.length_drop]; omega)]
    rw [← value, LittleEndian.bytes_value four]
  have checksum : header.drop 5 = LittleEndian.bytes 4 (crc32IsoHdlc frame.body).toNat := by
    have four : (header.drop 5).length = 4 := by
      rw [List.length_drop]
      omega
    have value : LittleEndian.value (header.drop 5) = (crc32IsoHdlc frame.body).toNat := by
      rw [check, declaredChecksum, List.append_assoc, List.drop_append_of_le_length (by omega),
        List.take_left' four]
    rw [← value, LittleEndian.bytes_value four]
  have first : header.take 1 = [magic] := by
    cases header with
    | nil => simp at nine
    | cons byte others =>
      have stands := candidate.first
      simp only [List.cons_append, List.head?_cons, Option.some.injEq] at stands
      rw [stands]
      rfl
  calc header = header.take 1 ++ ((header.drop 1).take 4 ++ header.drop 5) := by
        have behind : header.drop 5 = (header.drop 1).drop 4 := by rw [List.drop_drop]
        rw [behind, List.take_append_drop, List.take_append_drop]
    _ = frame.header := by
        rw [first, length, checksum, shape]
        rfl

end RecordFrame

/-- The record of an effect, as `append` frames it. -/
def Record.frame (record : Record) : RecordFrame :=
  ⟨record.shard, record.seq, record.effect.encode⟩

/-- A record that was written, and the bytes that now stand for its header. -/
structure StoredRecord where
  frame : RecordFrame
  header : Bytes
  nine : header.length = headerLen

namespace StoredRecord

def bytes (record : StoredRecord) : Bytes :=
  record.header ++ record.frame.body

/-- The header is the one that was written. -/
def Intact (record : StoredRecord) : Prop :=
  record.header = record.frame.header

instance (record : StoredRecord) : Decidable record.Intact :=
  inferInstanceAs (Decidable (_ = _))

theorem length_bytes (record : StoredRecord) :
    record.bytes.length = record.frame.encode.length := by
  have length := record.frame.length_encode
  rw [bytes, List.length_append, record.nine, RecordFrame.body, List.length_drop]
  omega

theorem bytes_of_intact {record : StoredRecord} (intact : record.Intact) :
    record.bytes = record.frame.encode := by
  rw [bytes, intact]
  exact List.take_append_drop _ _

end StoredRecord

/-- The bytes of a segment behind its own header. -/
def storedBytes (records : List StoredRecord) : Bytes :=
  records.flatMap StoredRecord.bytes

/-- Where the record with this index was written. -/
def startOf (records : List StoredRecord) (index : Nat) : Nat :=
  (storedBytes (records.take index)).length

/-- Where the hole of a changed record begins: behind the last one before it with its
header intact. -/
def holeStart (records : List StoredRecord) : Nat → Nat
  | 0 => 0
  | index + 1 =>
    match records[index]? with
    | some record =>
      if record.Intact then startOf records (index + 1) else holeStart records index
    | none => holeStart records index

/-- An offset in the bytes of a record whose header was changed. -/
structure InChanged (records : List StoredRecord) (index offset : Nat) : Prop where
  changed : ∃ record, records[index]? = some record ∧ ¬ record.Intact
  start : startOf records index ≤ offset
  stop : offset < startOf records (index + 1)

/-- An offset in the bytes of a changed record where a record decodes. -/
def Exposed (records : List StoredRecord) (offset : Nat) : Prop :=
  (∃ index, InChanged records index offset) ∧
    ∃ shard seq payload consumed,
      decodeRecord ((storedBytes records).drop offset) = .record shard seq payload consumed

/-- An offset of a changed record where a candidate stands, with the hole past the cap.
-/
def GivenUp (records : List StoredRecord) (offset : Nat) : Prop :=
  ∃ index, InChanged records index offset ∧
    PastCap (storedBytes records) (holeStart records index) offset ∧
    checksummedLen ((storedBytes records).drop offset) ≠ none

/-- An item that starts where a record was written, and carries what was written. -/
def Genuine (records : List StoredRecord) (item : Item) : Prop :=
  ∃ index record, records[index]? = some record ∧ item.start = startOf records index ∧
    item.shard = record.frame.shard ∧ item.seq = record.frame.seq ∧
    item.payload = record.frame.payload

section

variable {records : List StoredRecord} {record : StoredRecord} {index other offset : Nat}
  {reach : Nat} {place : Place}

theorem storedBytes_take_drop (records : List StoredRecord) (index : Nat) :
    storedBytes (records.take index) ++ storedBytes (records.drop index) =
      storedBytes records := by
  rw [storedBytes, storedBytes, ← List.flatMap_append, List.take_append_drop]
  rfl

theorem drop_startOf (records : List StoredRecord) (index : Nat) :
    (storedBytes records).drop (startOf records index) = storedBytes (records.drop index) := by
  rw [← storedBytes_take_drop records index]
  exact List.drop_left

theorem startOf_succ (there : records[index]? = some record) :
    startOf records (index + 1) = startOf records index + record.frame.encode.length := by
  rw [startOf, List.take_add_one, there, storedBytes, List.flatMap_append, List.length_append,
    ← record.length_bytes]
  simp [startOf, storedBytes]

theorem startOf_mono (records : List StoredRecord) {first second : Nat} (ordered : first ≤ second) :
    startOf records first ≤ startOf records second := by
  have split : records.take second = records.take first ++ (records.take second).drop first := by
    have again := List.take_append_drop first (records.take second)
    rw [List.take_take, Nat.min_eq_left ordered] at again
    exact again.symm
  rw [startOf, startOf, split, storedBytes, storedBytes, List.flatMap_append, List.length_append]
  exact Nat.le_add_right _ _

theorem startOf_length (records : List StoredRecord) :
    startOf records records.length = (storedBytes records).length := by
  rw [startOf, List.take_length]

theorem drop_record (there : records[index]? = some record) :
    (storedBytes records).drop (startOf records index) =
      record.bytes ++ storedBytes (records.drop (index + 1)) := by
  obtain ⟨inside, same⟩ := List.getElem?_eq_some_iff.mp there
  rw [drop_startOf, List.drop_eq_getElem_cons inside, same]
  rfl

theorem InChanged.unique (here : InChanged records index offset)
    (start : startOf records other ≤ offset) (stop : offset < startOf records (other + 1)) :
    index = other := by
  have first := here.start
  have second := here.stop
  rcases Nat.lt_trichotomy index other with less | same | more
  · have ordered := startOf_mono records (show index + 1 ≤ other by omega)
    omega
  · exact same
  · have ordered := startOf_mono records (show other + 1 ≤ index by omega)
    omega

theorem decodeRecord_intact (fits : record.frame.Fits) (there : records[index]? = some record)
    (intact : record.Intact) :
    decodeRecord ((storedBytes records).drop (startOf records index)) =
      .record record.frame.shard record.frame.seq record.frame.payload
        record.frame.encode.length := by
  rw [drop_record there, StoredRecord.bytes_of_intact intact, record.frame.length_encode]
  exact decodeRecord_encodeRecord fits.shard fits.seq fits.short _

/-- Where a changed record was written, no item is what was written. -/
theorem not_intact_of_decode {shard seq : Nat} (there : records[index]? = some record)
    (reads : decodeRecord ((storedBytes records).drop (startOf records index)) =
      .record shard seq record.frame.payload consumed) : record.Intact := by
  rw [drop_record there] at reads
  exact RecordFrame.header_of_decode record.nine reads

/-- A place at the start of a record, or in the bytes of a changed one. -/
structure InStep (records : List StoredRecord) (boundary index offset : Nat) : Prop where
  within : index ≤ records.length
  hole : boundary = holeStart records index
  stands : offset = startOf records index ∨ InChanged records index offset

variable {boundary : Nat}

theorem inStep_start (records : List StoredRecord) : InStep records 0 0 0 where
  within := Nat.zero_le _
  hole := rfl
  stands := .inl rfl

/-- Before the end, a read in step is in a changed record, or at an intact one. -/
theorem InStep.cases (step : InStep records boundary index offset)
    (inside : offset < (storedBytes records).length) :
    InChanged records index offset ∨ ∃ record, records[index]? = some record ∧ record.Intact ∧
        offset = startOf records index := by
  obtain start | changed := step.stands
  · have less : index < records.length := by
      by_contra overrun
      have last : index = records.length := Nat.le_antisymm step.within (by omega)
      rw [start, last, startOf_length] at inside
      exact absurd inside (Nat.lt_irrefl _)
    have there : records[index]? = some records[index] := List.getElem?_eq_getElem less
    by_cases intact : records[index].Intact
    · exact .inr ⟨_, there, intact, start⟩
    · refine .inl ⟨⟨_, there, intact⟩, Nat.le_of_eq start.symm, ?_⟩
      have length := records[index].frame.length_encode
      rw [start, startOf_succ there, length]
      exact Nat.lt_add_of_pos_right (Nat.add_pos_left (by decide) _)
  · exact .inl changed

theorem InStep.past (step : InStep records boundary index offset)
    (changed : InChanged records index offset) :
    ∃ next, InStep records boundary next (offset + 1) := by
  obtain ⟨record, there, unlike⟩ := changed.changed
  obtain ⟨less, _⟩ := List.getElem?_eq_some_iff.mp there
  have stop := changed.stop
  have start := changed.start
  by_cases last : offset + 1 < startOf records (index + 1)
  · exact ⟨index, step.within, step.hole, .inr ⟨changed.changed, by omega, last⟩⟩
  · refine ⟨index + 1, by omega, ?_, .inl (by omega)⟩
    rw [holeStart, there]
    dsimp only
    rw [if_neg unlike]
    exact step.hole

theorem inStep_behind (there : records[index]? = some record) (intact : record.Intact) :
    InStep records (startOf records (index + 1)) (index + 1) (startOf records (index + 1)) := by
  obtain ⟨less, _⟩ := List.getElem?_eq_some_iff.mp there
  refine ⟨by omega, ?_, .inl rfl⟩
  rw [holeStart, there]
  dsimp only
  rw [if_pos intact]

theorem not_givenUp_intact (there : records[index]? = some record) (intact : record.Intact)
    (start : startOf records index ≤ offset) (stop : offset < startOf records (index + 1)) :
    ¬ GivenUp records offset := by
  rintro ⟨other, changed, _⟩
  obtain ⟨found, held, unlike⟩ := changed.changed
  rw [changed.unique start stop, there] at held
  cases held
  exact unlike intact

/-- A read in step goes on only in a changed record, and not where it is given up. -/
theorem InStep.again {after : Place} (step : InStep records boundary index place.offset)
    (is : place.At (storedBytes records) boundary reach)
    (fit : ∀ record ∈ records, record.frame.Fits)
    (moved : place.turn (storedBytes records) = .again after) :
    (∃ next, InStep records boundary next after.offset) ∧ ¬ GivenUp records place.offset := by
  obtain ⟨inside, offset, _, unread⟩ := Place.turn_again moved
  obtain ⟨_, _, tried⟩ := Place.turn_again_accounts moved
  obtain changed | ⟨record, there, intact, stands⟩ := step.cases inside
  · rw [offset]
    refine ⟨step.past changed, ?_⟩
    rintro ⟨other, also, past, priced⟩
    rw [also.unique changed.start changed.stop, ← step.hole] at past
    exact priced (tried (is.pastCap.mp past))
  · have reads := decodeRecord_intact (fit record (List.mem_of_getElem? there)) there intact
    rw [← stands] at reads
    exact absurd reads (unread _ _ _ _)

theorem InStep.item {after : Place} {item : Item}
    (step : InStep records boundary index place.offset)
    (fit : ∀ record ∈ records, record.frame.Fits)
    (moved : place.turn (storedBytes records) = .last (.item item, after)) :
    Exposed records place.offset ∨ ∃ record, records[index]? = some record ∧ record.Intact ∧
        place.offset = startOf records index ∧ after.offset = startOf records (index + 1) ∧
        Genuine records item := by
  obtain ⟨inside, start, stop, nonempty, _, reads⟩ := Place.turn_item moved
  obtain changed | ⟨record, there, intact, stands⟩ := step.cases inside
  · exact .inl ⟨⟨index, changed⟩, _, _, _, _, reads⟩
  · have fits := fit record (List.mem_of_getElem? there)
    have same := decodeRecord_intact fits there intact
    rw [← stands, reads, Decoded.record.injEq] at same
    obtain ⟨shard, seq, payload, length⟩ := same
    refine .inr ⟨record, there, intact, stands, ?_, index, record, there, ?_, shard, seq, payload⟩
    · rw [startOf_succ there]
      omega
    · rw [start, stands]

/-- With every exposed offset behind one that is given up, a read yields what was
written. -/
theorem genuine_of_yields {reader : Reader} {items : List (Item × Damage)} {last : Damage}
    (fit : ∀ record ∈ records, record.frame.Fits)
    (covered : ∀ offset, Exposed records offset → ∃ earlier < offset, GivenUp records earlier)
    (sees : Reader.Sees (storedBytes records) reader place)
    (is : place.At (storedBytes records) boundary reach)
    (step : InStep records boundary index place.offset)
    (clear : ∀ earlier < place.offset, ¬ GivenUp records earlier)
    (yields : reader.Yields items last) : ∀ found ∈ items, Genuine records found.1 := by
  induction yields generalizing place boundary reach index with
  | again turned rest induction =>
    have outcome := sees.turned is.ongoing
    rw [turned] at outcome
    cases outcome with
    | refill refilled => exact induction refilled.sees is step clear
    | decided decided =>
      cases decided with
      | again moved later =>
        obtain ⟨⟨next, further⟩, goesOn⟩ := step.again is fit moved
        have offset := (Place.turn_again moved).2.1
        refine induction later (is.again moved) further fun earlier before given => ?_
        obtain less | same := Nat.lt_or_eq_of_le (show earlier ≤ place.offset by omega)
        · exact clear earlier less given
        · exact goesOn (same ▸ given)
  | item turned rest induction =>
    have outcome := sees.turned is.ongoing
    rw [turned] at outcome
    cases outcome with
    | decided decided =>
    cases decided with
    | item moved later =>
      obtain exposed | ⟨record, there, intact, start, stop, genuine⟩ := step.item fit moved
      · obtain ⟨earlier, before, given⟩ := covered _ exposed
        exact absurd given (clear earlier before)
      · have behind := inStep_behind there intact
        have next := is.item moved
        rw [← stop] at behind
        refine List.forall_mem_cons.mpr ⟨genuine, induction later next behind ?_⟩
        intro earlier before given
        by_cases less : earlier < place.offset
        · exact clear earlier less given
        · exact not_givenUp_intact there intact (by omega) (by omega) given
  | finished => simp

/-- The read in sight comes to the first exposed offset, if it is not given up before. -/
theorem yields_exposed {items : List (Item × Damage)} {last : Damage}
    (fit : ∀ record ∈ records, record.frame.Fits) (exposed : Exposed records offset)
    (first : ∀ earlier < offset, ¬ Exposed records earlier)
    (clear : ∀ earlier < offset, ¬ GivenUp records earlier)
    (is : place.At (storedBytes records) boundary reach)
    (step : InStep records boundary index place.offset) (before : place.offset ≤ offset)
    (yields : place.Yields (storedBytes records) items last) :
    ∃ found ∈ items, found.1.start = offset ∧ ∃ consumed,
      decodeRecord ((storedBytes records).drop offset) =
        .record found.1.shard found.1.seq found.1.payload consumed := by
  obtain ⟨⟨target, changed⟩, shard, seq, payload, consumed, reads⟩ := id exposed
  induction yields generalizing boundary reach index with
  | @again place after _ _ moved rest induction =>
    obtain ⟨_, further, _, unread⟩ := Place.turn_again moved
    obtain ⟨⟨next, later⟩, _⟩ := step.again is fit moved
    have apart : place.offset ≠ offset := fun same => unread _ _ _ _ (same ▸ reads)
    exact induction (is.again moved) later (by omega)
  | @item place after item _ _ moved rest induction =>
    obtain ⟨inside, start, _, _, _, found⟩ := Place.turn_item moved
    by_cases arrived : place.offset = offset
    · refine ⟨_, List.mem_cons_self, start.trans arrived, item.stop - item.start, ?_⟩
      rw [← arrived]
      exact found
    · obtain early | ⟨record, there, intact, start, stop, _⟩ := step.item fit moved
      · exact absurd early (first _ (by omega))
      · have behind := inStep_behind there intact
        have next := is.item moved
        rw [← stop] at behind
        -- The exposed offset lies in a later record.
        have later : index < target := by
          obtain ⟨other, held, unlike⟩ := changed.changed
          have apart : index ≠ target := by
            rintro rfl
            rw [there] at held
            cases held
            exact unlike intact
          by_contra less
          have ordered := startOf_mono records (show target + 1 ≤ index by omega)
          have beyond := changed.stop
          omega
        have ordered := startOf_mono records (show index + 1 ≤ target by omega)
        have begins := changed.start
        obtain ⟨found, member, same⟩ := induction next behind (by omega)
        exact ⟨found, List.mem_cons_of_mem _ member, same⟩
  | @finished place after moved =>
    exfalso
    obtain ⟨candidate, _, whole⟩ := decodeRecord_inside.1 _ _ _ _ reads
    have header := candidate.header
    rw [List.length_drop] at header
    have positive : 0 < headerLen := by decide
    have unread : ∀ shard seq payload consumed,
        decodeRecord ((storedBytes records).drop place.offset) ≠
          .record shard seq payload consumed := by
      intro shard seq payload consumed found
      rw [Place.turn_record found] at moved
      cases moved
    obtain overrun | ⟨overdrawn, priced, _⟩ := Place.turn_finished moved is.ongoing
    · omega
    · have apart : place.offset ≠ offset := fun same => unread _ _ _ _ (same ▸ reads)
      obtain here | ⟨record, there, intact, stands⟩ := step.cases (by omega)
      · have past := is.pastCap.mpr overdrawn
        rw [step.hole] at past
        exact clear _ (by omega) ⟨index, here, past, priced⟩
      · have found := decodeRecord_intact (fit record (List.mem_of_getElem? there)) there intact
        rw [← stands] at found
        exact unread _ _ _ _ found

theorem not_genuine_of_exposed {item : Item} (exposed : Exposed records offset)
    (start : item.start = offset)
    (reads : decodeRecord ((storedBytes records).drop offset) =
      .record item.shard item.seq item.payload consumed) : ¬ Genuine records item := by
  rintro ⟨index, record, there, stands, _, _, payload⟩
  obtain ⟨⟨target, changed⟩, _⟩ := exposed
  obtain ⟨other, held, unlike⟩ := changed.changed
  have same : target = index := by
    refine changed.unique (by omega) ?_
    have length := record.frame.length_encode
    have positive : 0 < headerLen := by decide
    rw [startOf_succ there]
    omega
  rw [same, there] at held
  cases held
  rw [← start, stands, payload] at reads
  exact unlike (not_intact_of_decode there reads)

end

/-- Whatever was changed in the headers of a segment's records, every item is one that
was written, with every chunk size, exactly if no offset in the bytes of a changed
record decodes, other than behind one where the segment is given up. -/
theorem items_genuine_iff (records : List StoredRecord)
    (fit : ∀ record ∈ records, record.frame.Fits) :
    (∀ chunk, 1 ≤ chunk →
      ∀ item ∈ (Reader.scan .resynchronising chunk (storedBytes records)).1,
        Genuine records item) ↔
      ∀ offset, Exposed records offset → ∃ earlier < offset, GivenUp records earlier := by
  constructor
  · intro genuine
    by_contra uncovered
    push Not at uncovered
    obtain ⟨offset, exposed, clear⟩ := uncovered
    have := Classical.decPred (Exposed records)
    have some : ∃ offset, Exposed records offset := ⟨offset, exposed⟩
    have least : Nat.find some ≤ offset := Nat.find_min' some exposed
    obtain ⟨items, last, sight⟩ := Place.exists_yields (storedBytes records) .start
    obtain ⟨found, member, start, consumed, reads⟩ := yields_exposed fit (Nat.find_spec some)
      (fun earlier before => Nat.find_min some before)
      (fun earlier before => clear earlier (Nat.lt_of_lt_of_le before least))
      (Place.at_start _) (inStep_start records) (Nat.zero_le _) sight
    have whole := genuine (max (storedBytes records).length 1) (Nat.le_max_right _ _)
    rw [Reader.scan_of_whole (Nat.le_max_left _ _) sight] at whole
    exact not_genuine_of_exposed (Nat.find_spec some) start reads
      (whole _ (List.mem_map_of_mem member))
  · intro covered chunk _
    obtain ⟨_, yields⟩ := (Reader.busy_withChunk (storedBytes records) chunk).readAll
    have all := genuine_of_yields fit covered (Reader.sees_withChunk (storedBytes records) chunk)
      (Place.at_start _) (inStep_start records)
      (fun earlier before => absurd before (Nat.not_lt_zero _)) yields
    rw [Reader.scan_of_yields yields]
    simpa using all

/-- A record with its header zeroed, and one behind it. -/
theorem items_genuine_iff_zeroed :
    let first : StoredRecord := ⟨⟨0, 0, [4]⟩, zeroes 9, by decide⟩
    let second : StoredRecord := ⟨⟨0, 1, [4]⟩, RecordFrame.header ⟨0, 1, [4]⟩, by decide +kernel⟩
    ∀ item ∈ (Reader.scan .resynchronising 3 (storedBytes [first, second])).1,
      Genuine [first, second] item := by
  intro first second
  have fit : ∀ record ∈ [first, second], record.frame.Fits := by
    simp only [List.forall_mem_cons]
    exact ⟨⟨by decide, by decide, by decide⟩, ⟨by decide, by decide, by decide⟩,
      nofun⟩
  refine (items_genuine_iff [first, second] fit).mpr ?_ 3 (by decide)
  rintro offset ⟨⟨index, changed⟩, shard, seq, payload, consumed, reads⟩
  have unread : ∀ offset < 20,
      decodeRecord ((storedBytes [first, second]).drop offset) = .endOfLog ∨
        decodeRecord ((storedBytes [first, second]).drop offset) = .corrupt 1 := by
    decide +kernel
  have index : index = 0 := by
    obtain ⟨record, there, unlike⟩ := changed.changed
    match index, there with
    | 0, _ => rfl
    | 1, there =>
      cases there
      exact absurd rfl unlike
  have stop := changed.stop
  rw [index] at stop
  have length : startOf [first, second] (0 + 1) = 20 := by decide +kernel
  obtain same | same := unread offset (by omega)
  · rw [same] at reads
    cases reads
  · rw [same] at reads
    cases reads

/-- A client sets a key to the bytes of a `FLUSH` record, and one bit of the magic byte
of the record of that command is flipped: the `FLUSH` is read back. -/
theorem stored_value_read_as_record :
    let _ : SipHasher := ⟨fun _ _ _ => 3⟩
    let now : Now := ⟨5, 5, by decide⟩
    let fresh : ShardState FileLog := .recovered (Dict.withSeed ⟨0, 0⟩) 0 .new
    let value := encodeRecord 0 1 Effect.flush.encode
    let written :=
      (fresh.take 0 now (.command (.set [97] value none none false false))).log.flushInto.1
    ∃ records : List StoredRecord, records.map (·.frame) = written.map Record.frame ∧
      (∀ record ∈ records, record.frame.Fits) ∧
      ∃ item ∈ (Reader.scan .resynchronising readChunk (storedBytes records)).1,
        item.payload = Effect.flush.encode ∧ ¬ Genuine records item := by
  intro hasher now fresh value written
  have set : written = [⟨0, 0, .put [97] value none⟩] := by decide +kernel
  let frame := Record.frame ⟨0, 0, .put [97] value none⟩
  let record : StoredRecord := ⟨frame, 0xA4 :: frame.header.tail, by decide +kernel⟩
  have fits : frame.Fits :=
    ⟨by decide, by decide, by decide +kernel⟩
  have carries : frame.payload ≠ Effect.flush.encode := by decide +kernel
  rw [set]
  refine ⟨[record], rfl, by simpa using fits, ⟨0, 1, Effect.flush.encode, 29, 49⟩,
    by decide +kernel, rfl, ?_⟩
  rintro ⟨index, found, there, _, _, _, payload⟩
  have same : found = record := List.mem_singleton.mp (List.mem_of_getElem? there)
  rw [same] at payload
  exact carries payload.symm

end Seedstone
