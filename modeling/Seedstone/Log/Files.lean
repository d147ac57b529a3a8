import Seedstone.Log.Codec
import Seedstone.Log.Reader

/-!
# The files of the log

The headers of `file.rs` and `snapshot.rs`, the snapshot's footer, and the bytes of
each piece a file holds.  A version this build does not read is told from a damaged
version byte by the checksum.
-/

namespace Seedstone

/-- `SSEG`. -/
def segmentMagic : Bytes := [83, 83, 69, 71]

/-- `SSNP`. -/
def snapshotMagic : Bytes := [83, 83, 78, 80]

def formatVersion : UInt8 := 5

def oldestReadVersion : UInt8 := 3

def syncMarkVersion : UInt8 := 5

/-- `SYNC_MARK_SHARD`: no shard. -/
def syncMarkShard : Nat := 65535

/-- `FOOTER_SHARD`: no shard. -/
def footerShard : Nat := 65535

def v3SegmentHeaderLen : Nat := 4 + 1 + 8 + 4 + 4

/-- `SEGMENT_HEADER_LEN`. -/
def fixedSegmentHeaderLen : Nat := 4 + 1 + 8 + 4 + 2 + 4

def snapshotHeaderFixedLen : Nat := 4 + 1 + 8 + 2 + 4 + 8 + 2

-- Points are a list of shards, each with a `u64`: cut points, bases, and counts.

def encodePoint (point : Nat × Nat) : Bytes :=
  LittleEndian.bytes 2 point.1 ++ LittleEndian.bytes 8 point.2

def encodePoints (points : List (Nat × Nat)) : Bytes :=
  points.flatMap encodePoint

/-- `count` points from the start of `bytes`. -/
def decodePoints : Nat → Bytes → List (Nat × Nat)
  | 0, _ => []
  | count + 1, bytes =>
    (LittleEndian.value (bytes.take 2), LittleEndian.value ((bytes.drop 2).take 8)) ::
      decodePoints count (bytes.drop 10)

inductive HeaderError where
  | short
  | badMagic
  | newerVersion (version : UInt8)
  | olderVersion (version : UInt8)
  | badChecksum
deriving DecidableEq, Repr

/-- Fields followed by their checksum. -/
def withCrc (fields : Bytes) : Bytes :=
  fields ++ LittleEndian.bytes 4 (crc32IsoHdlc fields).toNat

/-- `check_header_crc`: the last four bytes are the checksum of those before them. -/
def checkHeaderCrc (header : Bytes) : Bool :=
  (crc32IsoHdlc (header.take (header.length - 4))).toNat =
    LittleEndian.value (header.drop (header.length - 4))

/-- The version byte of a header. -/
def versionOf (header : Bytes) : UInt8 :=
  header.getD 4 0

/-- `version_mismatch`: `layouts` holds each readable version's header as it would lie
in these bytes. -/
def versionMismatch (found : UInt8) (layouts : List (UInt8 × Bytes)) : HeaderError :=
  if layouts.any fun (version, header) => checkHeaderCrc (header.set 4 version) then
    .badChecksum
  else if formatVersion < found then
    .newerVersion found
  else
    .olderVersion found

def readable (version : UInt8) : Bool :=
  oldestReadVersion ≤ version && version ≤ formatVersion

/-- `encode_segment_header`. -/
def SegmentHeader.encode (header : SegmentHeader) : Bytes :=
  withCrc (segmentMagic ++ formatVersion :: (LittleEndian.bytes 8 header.generation ++
      LittleEndian.bytes 4 header.rotation ++ LittleEndian.bytes 2 header.cuts.length)) ++
    if header.cuts.isEmpty then [] else withCrc (encodePoints header.cuts)

/-- A segment's header as it was read: with the version it was written at, and the
bytes it takes. -/
structure ReadHeader where
  version : UInt8
  header : SegmentHeader
  len : Nat
deriving DecidableEq, Repr

/-- `take`: `header` up to `want` bytes, and what is left of the source; none when the
file, `len` bytes long, stops before that. -/
def takeHeader (src : Source) (len : Nat) (header : Bytes) (want : Nat) :
    Except HeaderError (Option (Bytes × Source)) :=
  let more := want - header.length
  if len < want then
    .ok none
  else if src.bytes.length < more then
    .error .short
  else
    .ok (some (header ++ src.bytes.take more, { src with bytes := src.bytes.drop more }))

/-- The cut points behind a fixed part of this build's layout. -/
def readCuts (src : Source) (len : Nat) (fixed : Bytes) (read : ReadHeader) :
    Except HeaderError (Option (ReadHeader × Source)) :=
  let count := LittleEndian.value ((fixed.drop 17).take 2)
  if count = 0 then
    .ok (some (read, src))
  else do
    match ← takeHeader src len fixed (segmentHeaderLen count) with
    | none => .ok none
    | some (header, src) =>
      if !checkHeaderCrc (header.drop fixedSegmentHeaderLen) then
        .error .badChecksum
      else
        let list := (header.drop fixedSegmentHeaderLen).take
          (header.length - fixedSegmentHeaderLen - 4)
        .ok (some ({ read with
          header := { read.header with cuts := decodePoints (list.length / 10) list }
          len := header.length }, src))

/-- `read_segment_header`: the header, and the source at its first record; none when the
file stops inside its header. -/
def readSegmentHeader (src : Source) (len : Nat) :
    Except HeaderError (Option (ReadHeader × Source)) := do
  match ← takeHeader src len [] 5 with
  | none => .ok none
  | some (start, src) =>
    let fixed := if versionOf start = 3 then v3SegmentHeaderLen else fixedSegmentHeaderLen
    match ← takeHeader src len start fixed with
    | none => .ok none
    | some (header, src) =>
      if header.take 4 ≠ segmentMagic then
        .error .badMagic
      else if !readable (versionOf header) then
        .error (versionMismatch (versionOf header)
          [(3, header.take v3SegmentHeaderLen), (4, header), (5, header)])
      else if !checkHeaderCrc header then
        .error .badChecksum
      else
        let read : ReadHeader :=
          ⟨versionOf header, ⟨LittleEndian.value ((header.drop 5).take 8),
            LittleEndian.value ((header.drop 13).take 4), []⟩, header.length⟩
        if versionOf header = 3 then .ok (some (read, src))
        else readCuts src len header read

namespace SnapshotHeader

def encode (header : SnapshotHeader) : Bytes :=
  withCrc (snapshotMagic ++ formatVersion :: (LittleEndian.bytes 8 header.generation ++
    LittleEndian.bytes 2 header.executor ++ LittleEndian.bytes 4 header.cycle ++
    LittleEndian.bytes 8 header.unixMillis ++ LittleEndian.bytes 2 header.bases.length ++
    encodePoints header.bases))

/-- The length this build's layout has with the shard count of `fixed`. -/
def lenOf (fixed : Bytes) : Nat :=
  snapshotHeaderFixedLen + LittleEndian.value ((fixed.drop 27).take 2) * 10 + 4

def headerLen (buf : Bytes) : Except HeaderError Nat :=
  let fixed := buf.take snapshotHeaderFixedLen
  if buf.length < snapshotHeaderFixedLen then
    .error .short
  else if fixed.take 4 ≠ snapshotMagic then
    .error .badMagic
  else if formatVersion < versionOf fixed then
    .error (.newerVersion (versionOf fixed))
  else if versionOf fixed < oldestReadVersion then
    .error (.olderVersion (versionOf fixed))
  else
    .ok (lenOf fixed)

/-- The layouts a snapshot's header may have: all of one shape. -/
def layouts (header : Bytes) : List (UInt8 × Bytes) :=
  [(3, header), (4, header), (5, header)]

/-- The fields of a header whose checksum is right. -/
def fields (header : Bytes) : SnapshotHeader where
  generation := LittleEndian.value ((header.drop 5).take 8)
  executor := LittleEndian.value ((header.drop 13).take 2)
  cycle := LittleEndian.value ((header.drop 15).take 4)
  unixMillis := LittleEndian.value ((header.drop 19).take 8)
  bases := decodePoints (LittleEndian.value ((header.drop 27).take 2))
    (header.drop snapshotHeaderFixedLen)

def decode (buf : Bytes) : Except HeaderError SnapshotHeader :=
  match headerLen buf with
  | .ok len =>
    if buf.length < len then
      .error .short
    else if !checkHeaderCrc (buf.take len) then
      .error .badChecksum
    else
      .ok (fields (buf.take len))
  | .error (.newerVersion version) | .error (.olderVersion version) =>
    if buf.length < lenOf buf then
      .error (if formatVersion < version then .newerVersion version else .olderVersion version)
    else
      .error (versionMismatch version (layouts (buf.take (lenOf buf))))
  | .error error => .error error

end SnapshotHeader

/-- `Footer::decode`: how many entries each shard has in the file. -/
def decodeFooter (payload : Bytes) : Option (List (Nat × Nat)) :=
  if payload.isEmpty ∨ payload.length % 10 ≠ 0 then
    none
  else
    some (decodePoints (payload.length / 10) payload)

/-- `segment_header`, `encode_record`, `encode_sync_mark`, `encode_entry` and
`Footer::encode_record`: the bytes of a piece. -/
def Piece.encode : Piece → Bytes
  | .segmentHeader header => header.encode
  | .snapshotHeader header => header.encode
  | .record item => encodeRecord item.shard item.seq item.effect.encode
  | .syncMark => encodeRecord syncMarkShard 0 []
  | .footer cycle counts => encodeRecord footerShard cycle (encodePoints counts)
  | .endOfLog => [endOfLogMarker]
  | .number value => decimal value

/-- The bytes of pieces written one after the other. -/
def encodePieces (pieces : List Piece) : Bytes :=
  pieces.flatMap Piece.encode

/-- Points that fit their `u16` and `u64`. -/
def FitPoints (points : List (Nat × Nat)) : Prop :=
  ∀ point ∈ points, point.1 < 256 ^ 2 ∧ point.2 < 256 ^ 8

theorem length_encodePoint (point : Nat × Nat) : (encodePoint point).length = 10 := by
  rw [encodePoint, List.length_append, LittleEndian.length_bytes, LittleEndian.length_bytes]

theorem length_encodePoints (points : List (Nat × Nat)) :
    (encodePoints points).length = points.length * 10 := by
  induction points with
  | nil => rfl
  | cons point points induction =>
    rw [encodePoints, List.flatMap_cons, List.length_append, length_encodePoint,
      ← encodePoints, induction, List.length_cons]
    omega

theorem decodePoints_encodePoints {points : List (Nat × Nat)} (fit : FitPoints points)
    (rest : Bytes) : decodePoints points.length (encodePoints points ++ rest) = points := by
  induction points with
  | nil => rfl
  | cons point points induction =>
    obtain ⟨⟨shardFits, valueFits⟩, others⟩ := List.forall_mem_cons.mp fit
    have shape : encodePoints (point :: points) ++ rest = LittleEndian.bytes 2 point.1 ++
          (LittleEndian.bytes 8 point.2 ++ (encodePoints points ++ rest)) := by
      simp only [encodePoints, List.flatMap_cons, encodePoint, List.append_assoc]
    have tail : (encodePoints (point :: points) ++ rest).drop 10 = encodePoints points ++ rest := by
      rw [encodePoints, List.flatMap_cons, List.append_assoc,
        List.drop_left' (length_encodePoint point)]
      rfl
    rw [List.length_cons, decodePoints, tail, induction others, shape,
      List.take_left' (LittleEndian.length_bytes ..),
      List.drop_left' (LittleEndian.length_bytes ..),
      List.take_left' (LittleEndian.length_bytes ..),
      LittleEndian.value_bytes shardFits, LittleEndian.value_bytes valueFits]

theorem length_withCrc (fields : Bytes) : (withCrc fields).length = fields.length + 4 := by
  rw [withCrc, List.length_append, LittleEndian.length_bytes]

theorem checkHeaderCrc_withCrc (fields : Bytes) : checkHeaderCrc (withCrc fields) = true := by
  have fits : (crc32IsoHdlc fields).toNat < 256 ^ 4 := (crc32IsoHdlc fields).toNat_lt
  unfold checkHeaderCrc
  rw [length_withCrc, Nat.add_sub_cancel, withCrc, List.take_left, List.drop_left,
    LittleEndian.value_bytes fits]
  exact decide_eq_true rfl

/-- A version this build does not read. -/
def HeaderError.isVersion : HeaderError → Bool
  | .newerVersion _ | .olderVersion _ => true
  | _ => false

/-- A header whose version byte alone was changed is damaged, not of another version. -/
theorem versionMismatch_restored {found : UInt8} {layouts : List (UInt8 × Bytes)} {header : Bytes}
    (layout : (formatVersion, header) ∈ layouts)
    (restored : checkHeaderCrc (header.set 4 formatVersion) = true) :
    (versionMismatch found layouts).isVersion = false := by
  unfold versionMismatch
  rw [if_pos (List.any_eq_true.mpr ⟨_, layout, restored⟩)]
  rfl

/-- A segment header that fits its fields. -/
structure SegmentHeader.Fits (header : SegmentHeader) : Prop where
  generation : header.generation < 256 ^ 8
  rotation : header.rotation < 256 ^ 4
  count : header.cuts.length < 256 ^ 2
  cuts : FitPoints header.cuts

namespace SegmentHeader

variable (header : SegmentHeader) {bytes : Bytes} {error : HeaderError}

/-- The fixed part, before its checksum. -/
def fixedFields : Bytes :=
  segmentMagic ++ formatVersion :: (LittleEndian.bytes 8 header.generation ++
    LittleEndian.bytes 4 header.rotation ++ LittleEndian.bytes 2 header.cuts.length)

theorem length_fixedFields : header.fixedFields.length = 19 := by
  simp [fixedFields, segmentMagic]

theorem length_fixed : (withCrc header.fixedFields).length = fixedSegmentHeaderLen := by
  rw [length_withCrc, length_fixedFields]
  rfl

theorem length_encode : header.encode.length = segmentHeaderLen header.cuts.length := by
  have fixed := header.length_fixed
  rw [fixedFields] at fixed
  rw [encode, List.length_append, fixed, segmentHeaderLen]
  cases header.cuts with
  | nil => rfl
  | cons cut cuts =>
    rw [if_neg (by simp), if_neg (by simp), length_withCrc, length_encodePoints]
    rw [fixedSegmentHeaderLen]
    omega

/-- What is read of the fixed part. -/
structure FixedReads (fixed : Bytes) : Prop where
  len : fixed.length = fixedSegmentHeaderLen
  magic : fixed.take 4 = segmentMagic
  version : versionOf fixed = formatVersion
  crc : checkHeaderCrc fixed = true
  generation : LittleEndian.value ((fixed.drop 5).take 8) = header.generation
  rotation : LittleEndian.value ((fixed.drop 13).take 4) = header.rotation
  count : LittleEndian.value ((fixed.drop 17).take 2) = header.cuts.length

variable {header}

theorem fixedReads (fits : header.Fits) : header.FixedReads (withCrc header.fixedFields) where
  len := header.length_fixed
  magic := by rfl
  version := by rfl
  crc := checkHeaderCrc_withCrc _
  generation := by
    have field : ((withCrc header.fixedFields).drop 5).take 8 =
        LittleEndian.bytes 8 header.generation := by
      simp [withCrc, fixedFields, segmentMagic, List.drop_append]
    rw [field, LittleEndian.value_bytes fits.generation]
  rotation := by
    have field : ((withCrc header.fixedFields).drop 13).take 4 =
        LittleEndian.bytes 4 header.rotation := by
      simp [withCrc, fixedFields, segmentMagic]
    rw [field, LittleEndian.value_bytes fits.rotation]
  count := by
    have field : ((withCrc header.fixedFields).drop 17).take 2 =
        LittleEndian.bytes 2 header.cuts.length := by
      simp [withCrc, fixedFields, segmentMagic, List.drop_append]
    rw [field, LittleEndian.value_bytes fits.count]

/-- The list of cut points, if there are any. -/
def list (header : SegmentHeader) : Bytes :=
  if header.cuts.isEmpty then [] else withCrc (encodePoints header.cuts)

theorem encode_eq (header : SegmentHeader) :
    header.encode = withCrc header.fixedFields ++ header.list :=
  rfl

theorem take_encode (header : SegmentHeader) :
    header.encode.take fixedSegmentHeaderLen = withCrc header.fixedFields := by
  rw [encode_eq, List.take_left' header.length_fixed]

theorem fixed_le_encode (header : SegmentHeader) :
    fixedSegmentHeaderLen ≤ header.encode.length := by
  rw [encode_eq, List.length_append, header.length_fixed]
  exact Nat.le_add_right _ _

/-- What `take` has got of a file from its start on. -/
theorem takeHeader_drop (bytes : Bytes) (faulty : Bool) {got want : Nat} (ordered : got ≤ want) :
    takeHeader ⟨bytes.drop got, faulty⟩ bytes.length (bytes.take got) want =
      if bytes.length < want then .ok none
      else .ok (some (bytes.take want, ⟨bytes.drop want, faulty⟩)) := by
  unfold takeHeader
  dsimp only
  by_cases short : bytes.length < want
  · rw [if_pos short, if_pos short]
  · have length : (bytes.take got).length = got := List.length_take_of_le (by omega)
    have whole : got + (want - got) = want := Nat.add_sub_cancel' ordered
    rw [if_neg short, if_neg short, length, if_neg (by rw [List.length_drop]; omega),
      ← List.take_add, List.drop_drop, whole]

theorem readCuts_encode (fits : header.Fits) (rest : Bytes) (faulty : Bool) :
    readCuts ⟨(header.encode ++ rest).drop fixedSegmentHeaderLen, faulty⟩
        (header.encode ++ rest).length (withCrc header.fixedFields)
        ⟨formatVersion, { header with cuts := [] }, fixedSegmentHeaderLen⟩ =
      .ok (some (⟨formatVersion, header, header.encode.length⟩, ⟨rest, faulty⟩)) := by
  have fixed := fixedReads fits
  have width := header.length_encode
  unfold readCuts
  dsimp only
  rw [fixed.count]
  by_cases none : header.cuts = []
  · have whole : header.encode.length = fixedSegmentHeaderLen := by
      rw [width, none]
      rfl
    rw [if_pos (by rw [none]; rfl), ← whole, List.drop_left, ← none]
  · have some : header.cuts.length ≠ 0 := fun zero => none (List.length_eq_zero_iff.mp zero)
    have list : header.encode.drop fixedSegmentHeaderLen = withCrc (encodePoints header.cuts) := by
      rw [encode_eq, List.drop_left' fixed.len, SegmentHeader.list, if_neg (by simpa using none)]
    have points : (withCrc (encodePoints header.cuts)).take
        (header.encode.length - fixedSegmentHeaderLen - 4) = encodePoints header.cuts := by
      have short : header.encode.length - fixedSegmentHeaderLen - 4 =
          (encodePoints header.cuts).length := by
        rw [width, length_encodePoints, segmentHeaderLen, if_neg some, fixedSegmentHeaderLen]
        omega
      rw [short, withCrc, List.take_left]
    have count : (encodePoints header.cuts).length / 10 = header.cuts.length := by
      rw [length_encodePoints]
      omega
    have decoded := decodePoints_encodePoints fits.cuts []
    rw [List.append_nil] at decoded
    have taken := takeHeader_drop (header.encode ++ rest) faulty header.fixed_le_encode
    rw [if_neg (by rw [List.length_append]; omega), List.take_left, List.drop_left,
      List.take_append_of_le_length header.fixed_le_encode, take_encode] at taken
    rw [if_neg some, ← width, taken]
    dsimp only [bind, Except.bind]
    rw [list, checkHeaderCrc_withCrc, points, count, decoded]
    rfl

theorem readCuts_short (fits : header.Fits) (faulty : Bool)
    (front : bytes.take fixedSegmentHeaderLen = withCrc header.fixedFields)
    (short : bytes.length < header.encode.length) (read : ReadHeader) :
    readCuts ⟨bytes.drop fixedSegmentHeaderLen, faulty⟩ bytes.length
      (withCrc header.fixedFields) read = .ok none := by
  have fixed := fixedReads fits
  have inside : fixedSegmentHeaderLen ≤ bytes.length := by
    have length := congrArg List.length front
    rw [List.length_take, fixed.len] at length
    omega
  have some : header.cuts.length ≠ 0 := by
    intro zero
    rw [header.length_encode, zero] at short
    exact absurd (Nat.lt_of_le_of_lt inside short) (by decide)
  have taken := takeHeader_drop bytes faulty header.fixed_le_encode
  rw [if_pos short, front, header.length_encode] at taken
  unfold readCuts
  dsimp only
  rw [fixed.count, if_neg some, taken]
  rfl

theorem takeHeader_error {src : Source} {len want : Nat} {header : Bytes}
    (failed : takeHeader src len header want = .error error) : error.isVersion = false := by
  unfold takeHeader at failed
  dsimp only at failed
  split_ifs at failed
  cases failed
  rfl

theorem readCuts_error {src : Source} {len : Nat} {fixed : Bytes} {read : ReadHeader}
    (failed : readCuts src len fixed read = .error error) : error.isVersion = false := by
  unfold readCuts at failed
  dsimp only at failed
  split at failed
  · cases failed
  · cases taken : takeHeader src len fixed
        (segmentHeaderLen (LittleEndian.value ((fixed.drop 17).take 2))) with
    | error stopped =>
      rw [taken] at failed
      cases failed
      exact takeHeader_error taken
    | ok outcome =>
      rw [taken] at failed
      cases outcome with
      | none => cases failed
      | some header =>
        dsimp only [bind, Except.bind] at failed
        split at failed <;> cases failed
        rfl

/-- What is read of a file that begins with the fixed part of a header. -/
theorem readSegmentHeader_fixed (fits : header.Fits) (faulty : Bool)
    (front : bytes.take fixedSegmentHeaderLen = withCrc header.fixedFields) :
    readSegmentHeader ⟨bytes, faulty⟩ bytes.length =
      readCuts ⟨bytes.drop fixedSegmentHeaderLen, faulty⟩ bytes.length (withCrc header.fixedFields)
        ⟨formatVersion, { header with cuts := [] }, fixedSegmentHeaderLen⟩ := by
  have fixed := fixedReads fits
  have inside : fixedSegmentHeaderLen ≤ bytes.length := by
    have length := congrArg List.length front
    rw [List.length_take, fixed.len] at length
    omega
  have start : versionOf (bytes.take 5) = formatVersion := by
    have five : bytes.take 5 = (withCrc header.fixedFields).take 5 := by
      rw [← front, List.take_take]
      rfl
    rw [five]
    rfl
  have first : takeHeader ⟨bytes, faulty⟩ bytes.length [] 5 = _ :=
    takeHeader_drop bytes faulty (Nat.zero_le 5)
  have second := takeHeader_drop bytes faulty (by decide : 5 ≤ fixedSegmentHeaderLen)
  rw [if_neg (Nat.not_lt.mpr (Nat.le_trans (by decide) inside))] at first
  rw [if_neg (Nat.not_lt.mpr inside), front] at second
  unfold readSegmentHeader
  rw [first]
  dsimp only [bind, Except.bind]
  rw [start, if_neg (by decide), second]
  dsimp only
  rw [if_neg (not_not.mpr fixed.magic), fixed.version, fixed.crc, fixed.generation,
    fixed.rotation, fixed.len, if_neg (by decide), if_neg (by decide), if_neg (by decide)]

theorem readSegmentHeader_encode (fits : header.Fits) (rest : Bytes) (faulty : Bool) :
    readSegmentHeader ⟨header.encode ++ rest, faulty⟩ (header.encode ++ rest).length =
      .ok (some (⟨formatVersion, header, header.encode.length⟩, ⟨rest, faulty⟩)) := by
  rw [readSegmentHeader_fixed fits faulty]
  · exact readCuts_encode fits rest faulty
  · rw [List.take_append_of_le_length header.fixed_le_encode, take_encode]

theorem readSegmentHeader_prefix (fits : header.Fits) (faulty : Bool)
    (begins : bytes <+: header.encode) (short : bytes.length < header.encode.length) :
    readSegmentHeader ⟨bytes, faulty⟩ bytes.length = .ok none := by
  obtain ⟨rest, whole⟩ := begins
  have agrees : ∀ count ≤ bytes.length, bytes.take count = header.encode.take count := by
    intro count inside
    rw [← whole, List.take_append_of_le_length inside]
  by_cases long : fixedSegmentHeaderLen ≤ bytes.length
  · have front := (agrees _ long).trans header.take_encode
    rw [readSegmentHeader_fixed fits faulty front]
    exact readCuts_short fits faulty front short _
  · have first : takeHeader ⟨bytes, faulty⟩ bytes.length [] 5 = _ :=
      takeHeader_drop bytes faulty (Nat.zero_le 5)
    unfold readSegmentHeader
    rw [first]
    by_cases tiny : bytes.length < 5
    · rw [if_pos tiny]
      rfl
    · have start : versionOf (bytes.take 5) = formatVersion := by
        rw [agrees 5 (by omega), encode_eq, List.take_append_of_le_length
          (by rw [header.length_fixed]; decide)]
        rfl
      have second := takeHeader_drop bytes faulty (by decide : 5 ≤ fixedSegmentHeaderLen)
      rw [if_pos (by omega)] at second
      rw [if_neg tiny]
      dsimp only [bind, Except.bind]
      rw [start, if_neg (by decide), second]

/-- A damaged version byte is no other version. -/
theorem readSegmentHeader_damaged {version : UInt8} {rest : Bytes} {faulty : Bool}
    (failed : readSegmentHeader ⟨header.encode.set 4 version ++ rest, faulty⟩
      (header.encode.set 4 version ++ rest).length = .error error) : error.isVersion = false := by
  have wide := header.fixed_le_encode
  generalize file : header.encode.set 4 version ++ rest = bytes at failed
  have inside : fixedSegmentHeaderLen ≤ bytes.length := by
    rw [← file, List.length_append, List.length_set]
    omega
  have restored : (bytes.take fixedSegmentHeaderLen).set 4 formatVersion =
      withCrc header.fixedFields := by
    rw [← file, List.take_append_of_le_length (by rwa [List.length_set]), List.take_set,
      List.set_set, take_encode]
    rfl
  have first : takeHeader ⟨bytes, faulty⟩ bytes.length [] 5 = _ :=
    takeHeader_drop bytes faulty (Nat.zero_le 5)
  have second := takeHeader_drop bytes faulty (by decide : 5 ≤ fixedSegmentHeaderLen)
  have third := takeHeader_drop bytes faulty (by decide : 5 ≤ v3SegmentHeaderLen)
  have same : versionOf (bytes.take v3SegmentHeaderLen) = versionOf (bytes.take 5) := by
    simp [versionOf, v3SegmentHeaderLen, List.getD_eq_getElem?_getD]
  rw [if_neg (Nat.not_lt.mpr (Nat.le_trans (by decide) inside))] at first third
  rw [if_neg (Nat.not_lt.mpr inside)] at second
  unfold readSegmentHeader at failed
  rw [first] at failed
  dsimp only [bind, Except.bind] at failed
  by_cases older : versionOf (bytes.take 5) = 3
  · rw [if_pos older, third] at failed
    dsimp only at failed
    rw [same, older, if_pos rfl, if_neg (by decide : ¬(!readable 3) = true)] at failed
    split_ifs at failed <;> cases failed <;> rfl
  · rw [if_neg older, second] at failed
    dsimp only at failed
    split_ifs at failed
    · cases failed
      rfl
    · cases failed
      exact versionMismatch_restored
        (List.mem_cons_of_mem _ (List.mem_cons_of_mem _ List.mem_cons_self))
        (by rw [restored]; exact checkHeaderCrc_withCrc _)
    · cases failed
      rfl
    · exact readCuts_error failed

end SegmentHeader

/-- A snapshot header that fits its fields. -/
structure SnapshotHeader.Fits (header : SnapshotHeader) : Prop where
  generation : header.generation < 256 ^ 8
  executor : header.executor < 256 ^ 2
  cycle : header.cycle < 256 ^ 4
  unixMillis : header.unixMillis < 256 ^ 8
  count : header.bases.length < 256 ^ 2
  bases : FitPoints header.bases

namespace SnapshotHeader

variable (header : SnapshotHeader)

/-- The fields, before their checksum. -/
def plain : Bytes :=
  snapshotMagic ++ formatVersion :: (LittleEndian.bytes 8 header.generation ++
    LittleEndian.bytes 2 header.executor ++ LittleEndian.bytes 4 header.cycle ++
    LittleEndian.bytes 8 header.unixMillis ++ LittleEndian.bytes 2 header.bases.length ++
    encodePoints header.bases)

theorem length_encode : header.encode.length = header.encodedLen := by
  rw [encode, length_withCrc]
  simp only [List.length_append, List.length_cons, LittleEndian.length_bytes,
    length_encodePoints, encodedLen, snapshotMagic, List.length_nil]
  omega

variable {header}

theorem fields_plain (fits : header.Fits) (back : Bytes) :
    fields (header.plain ++ back) = header := by
  have generation : ((header.plain ++ back).drop 5).take 8 =
      LittleEndian.bytes 8 header.generation := by
    simp [plain, snapshotMagic, List.drop_append]
  have executor : ((header.plain ++ back).drop 13).take 2 =
      LittleEndian.bytes 2 header.executor := by
    simp [plain, snapshotMagic]
  have cycle : ((header.plain ++ back).drop 15).take 4 = LittleEndian.bytes 4 header.cycle := by
    simp [plain, snapshotMagic, List.drop_append]
  have unixMillis : ((header.plain ++ back).drop 19).take 8 =
      LittleEndian.bytes 8 header.unixMillis := by
    simp [plain, snapshotMagic, List.drop_append]
  have count : ((header.plain ++ back).drop 27).take 2 =
      LittleEndian.bytes 2 header.bases.length := by
    simp [plain, snapshotMagic, List.drop_append]
  have bases : (header.plain ++ back).drop snapshotHeaderFixedLen =
      encodePoints header.bases ++ back := by
    simp [plain, snapshotMagic, snapshotHeaderFixedLen, List.drop_append]
  unfold fields
  rw [generation, executor, cycle, unixMillis, count, bases,
    LittleEndian.value_bytes fits.generation, LittleEndian.value_bytes fits.executor,
    LittleEndian.value_bytes fits.cycle, LittleEndian.value_bytes fits.unixMillis,
    LittleEndian.value_bytes fits.count, decodePoints_encodePoints fits.bases]

theorem encode_eq (header : SnapshotHeader) : header.encode = withCrc header.plain :=
  rfl

theorem headerLen_encode (fits : header.Fits) (rest : Bytes) :
    headerLen (header.encode ++ rest) = .ok header.encodedLen := by
  have long : snapshotHeaderFixedLen ≤ header.encode.length := by
    rw [length_encode, encodedLen]
    unfold snapshotHeaderFixedLen
    omega
  have count : (((header.encode ++ rest).take snapshotHeaderFixedLen).drop 27).take 2 =
      LittleEndian.bytes 2 header.bases.length := by
    rw [List.drop_take, List.take_take]
    simp [encode_eq, withCrc, plain, snapshotMagic, snapshotHeaderFixedLen, List.drop_append]
  have magic : ((header.encode ++ rest).take snapshotHeaderFixedLen).take 4 = snapshotMagic := by
    rfl
  have version : versionOf ((header.encode ++ rest).take snapshotHeaderFixedLen) =
      formatVersion := by
    rfl
  unfold headerLen
  dsimp only
  rw [if_neg (by rw [List.length_append]; omega), magic, version, if_neg (not_not.mpr rfl),
    if_neg (by decide), if_neg (by decide), lenOf, count, LittleEndian.value_bytes fits.count]
  rfl

theorem decode_encode (fits : header.Fits) (rest : Bytes) :
    decode (header.encode ++ rest) = .ok header := by
  unfold decode
  rw [headerLen_encode fits]
  dsimp only
  rw [← length_encode, if_neg (by rw [List.length_append]; omega), List.take_left, encode_eq,
    checkHeaderCrc_withCrc, withCrc, fields_plain fits]
  rfl

theorem decode_damaged (fits : header.Fits) {version : UInt8} {rest : Bytes} {error : HeaderError}
    (failed : decode (header.encode.set 4 version ++ rest) = .error error) :
    error.isVersion = false := by
  generalize file : header.encode.set 4 version ++ rest = buf at failed
  have count : ((buf.drop 27).take 2) = LittleEndian.bytes 2 header.bases.length := by
    rw [← file, List.drop_append, List.drop_set_of_lt (by decide)]
    simp [encode_eq, withCrc, plain, snapshotMagic, List.drop_append]
  have len : lenOf buf = header.encode.length := by
    rw [lenOf, count, LittleEndian.value_bytes fits.count, length_encode]
    rfl
  have inside : ¬buf.length < lenOf buf := by
    rw [len, ← file, List.length_append, List.length_set]
    omega
  have restored : checkHeaderCrc ((buf.take (lenOf buf)).set 4 formatVersion) = true := by
    have own : header.encode.set 4 formatVersion = header.encode := rfl
    rw [len, ← file, List.take_left' (by rw [List.length_set]), List.set_set, own, encode_eq,
      checkHeaderCrc_withCrc]
  have mismatch (found : UInt8) :
      (versionMismatch found (layouts (buf.take (lenOf buf)))).isVersion = false :=
    versionMismatch_restored
      (List.mem_cons_of_mem _ (List.mem_cons_of_mem _ List.mem_cons_self)) restored
  unfold decode at failed
  split at failed
  · split_ifs at failed <;> cases failed <;> rfl
  · rw [if_neg inside] at failed
    cases failed
    exact mismatch _
  · rw [if_neg inside] at failed
    cases failed
    exact mismatch _
  · next newer older _ =>
    cases failed
    cases error with
    | newerVersion version => exact absurd rfl (newer version)
    | olderVersion version => exact absurd rfl (older version)
    | short | badMagic | badChecksum => rfl

end SnapshotHeader

/-- A header is read back from the front of its file, and the source is left at the first
record; a part of one is none; and no change of the version byte alone is taken for
another version. -/
theorem headers_identify_themselves :
    (∀ header : SegmentHeader, header.Fits → ∀ (rest : Bytes) (faulty : Bool),
      readSegmentHeader ⟨header.encode ++ rest, faulty⟩ (header.encode ++ rest).length =
          .ok (some (⟨formatVersion, header, header.encode.length⟩, ⟨rest, faulty⟩)) ∧
        (∀ bytes, bytes <+: header.encode → bytes ≠ header.encode →
          readSegmentHeader ⟨bytes, faulty⟩ bytes.length = .ok none) ∧
        ∀ version ≠ formatVersion, ∀ found,
          let file := header.encode.set 4 version ++ rest
          readSegmentHeader ⟨file, faulty⟩ file.length ≠ .error (.newerVersion found) ∧
            readSegmentHeader ⟨file, faulty⟩ file.length ≠ .error (.olderVersion found)) ∧
    ∀ header : SnapshotHeader, header.Fits → ∀ rest : Bytes,
      SnapshotHeader.decode (header.encode ++ rest) = .ok header ∧
        ∀ version ≠ formatVersion, ∀ found,
          let buf := header.encode.set 4 version ++ rest
          SnapshotHeader.decode buf ≠ .error (.newerVersion found) ∧
            SnapshotHeader.decode buf ≠ .error (.olderVersion found) := by
  refine ⟨fun header fits rest faulty => ⟨SegmentHeader.readSegmentHeader_encode fits rest faulty,
    fun bytes begins other => ?_, fun version _ found => ⟨fun failed => ?_, fun failed => ?_⟩⟩,
    fun header fits rest => ⟨SnapshotHeader.decode_encode fits rest,
      fun version _ found => ⟨fun failed => ?_, fun failed => ?_⟩⟩⟩
  · refine SegmentHeader.readSegmentHeader_prefix fits faulty begins ?_
    exact lt_of_le_of_ne begins.length_le fun same => other (begins.eq_of_length same)
  · cases SegmentHeader.readSegmentHeader_damaged failed
  · cases SegmentHeader.readSegmentHeader_damaged failed
  · cases SnapshotHeader.decode_damaged fits failed
  · cases SnapshotHeader.decode_damaged fits failed

/-- A segment that cuts one shard, and a record behind its header. -/
theorem headers_identify_themselves_cut :
    readSegmentHeader ⟨(SegmentHeader.mk 7 2 [(1, 9)]).encode ++ [165], false⟩
        ((SegmentHeader.mk 7 2 [(1, 9)]).encode ++ [165]).length =
      .ok (some (⟨formatVersion, ⟨7, 2, [(1, 9)]⟩, (SegmentHeader.mk 7 2 [(1, 9)]).encode.length⟩,
        ⟨[165], false⟩)) :=
  (headers_identify_themselves.1 ⟨7, 2, [(1, 9)]⟩
    ⟨by decide, by decide, by decide, by simp [FitPoints]⟩ [165] false).1

theorem length_encodeRecord (shard seq : Nat) (payload : Bytes) :
    (encodeRecord shard seq payload).length = recordFixedLen + payload.length := by
  simp only [encodeRecord, List.length_append, List.length_cons, LittleEndian.length_bytes,
    recordFixedLen]
  omega

theorem Piece.length_encode (piece : Piece) : piece.encode.length = piece.encodedLen := by
  cases piece with
  | segmentHeader header | snapshotHeader header => exact header.length_encode
  | record item =>
    rw [encode, length_encodeRecord, Effect.length_encode]
    rfl
  | syncMark | endOfLog | number => rfl
  | footer cycle counts =>
    rw [encode, length_encodeRecord, length_encodePoints]
    rfl

end Seedstone
