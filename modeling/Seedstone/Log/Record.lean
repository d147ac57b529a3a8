import Seedstone.Dict.Table
import Seedstone.Library.LittleEndian

/-!
# Records on disk

The record format of `log.rs`: a magic byte, the length of the body, its
CRC-32/ISO-HDLC, and the body, which is a shard, a sequence number and a payload.
What `decode_record` makes of a buffer does not change when the buffer grows,
unless it asked for more.
-/

namespace Seedstone

def magic : UInt8 := 0xA5

/-- `END_OF_LOG`: no record was ever written here. -/
def endOfLogMarker : UInt8 := 0x00

def headerLen : Nat := 1 + 4 + 4

def bodyFixedLen : Nat := 2 + 8

/-- `MAX_BODY_LEN`: 64 MiB. -/
def maxBodyLen : Nat := 67108864

def crcBit (crc : UInt32) : UInt32 :=
  if crc &&& 1 ≠ 0 then (crc >>> 1) ^^^ 0xEDB88320 else crc >>> 1

/-- A row of `CRC_TABLES`: the first is the bitwise loop's value for each byte, and
each later one advances the one before by a zero byte. -/
def crcTable : Nat → UInt8 → UInt32
  | 0, byte => crcBit (crcBit (crcBit (crcBit (crcBit (crcBit (crcBit (crcBit byte.toUInt32)))))))
  | row + 1, byte =>
    let previous := crcTable row byte
    crcTable 0 previous.toUInt8 ^^^ (previous >>> 8)

/-- The bytes of a block, with the checksum so far folded into the first four. -/
def crcFolded (crc : UInt32) (block : Bytes) : Bytes :=
  List.zipWith (· ^^^ ·) (block.take 4) (LittleEndian.bytes 4 crc.toNat) ++ block.drop 4

/-- A block of sixteen bytes: each goes through the row for the bytes behind it. -/
def crcBlock (crc : UInt32) (block : Bytes) : UInt32 :=
  ((crcFolded crc block).zip (List.range 16).reverse).foldl
    (fun folded (byte, row) => folded ^^^ crcTable row byte) 0

def crcByte (crc : UInt32) (byte : UInt8) : UInt32 :=
  crcTable 0 (crc ^^^ byte.toUInt32).toUInt8 ^^^ (crc >>> 8)

def crcBlocks : Nat → UInt32 → Bytes → UInt32
  | 0, crc, remainder => remainder.foldl crcByte crc
  | blocks + 1, crc, data => crcBlocks blocks (crcBlock crc (data.take 16)) (data.drop 16)

def crc32IsoHdlc (data : Bytes) : UInt32 :=
  ~~~ crcBlocks (data.length / 16) 0xFFFFFFFF data

/-- The checksum's own check value. -/
example : crc32IsoHdlc [49, 50, 51, 52, 53, 54, 55, 56, 57] = 0xCBF43926 := by
  decide +kernel

/-- `encode_record`: the shard, the sequence number and the payload of a record. -/
def encodeRecord (shard seq : Nat) (payload : Bytes) : Bytes :=
  let body := LittleEndian.bytes 2 shard ++ LittleEndian.bytes 8 seq ++ payload
  magic :: LittleEndian.bytes 4 body.length ++
    LittleEndian.bytes 4 (crc32IsoHdlc body).toNat ++ body

inductive Decoded where
  | record (shard seq : Nat) (payload : Bytes) (consumed : Nat)
  | endOfLog
  | needMore
  | corrupt (skip : Nat)
deriving DecidableEq, Repr

/-- The length a header declares for its body. -/
def declaredLen (buf : Bytes) : Nat :=
  LittleEndian.value ((buf.drop 1).take 4)

def declaredChecksum (buf : Bytes) : Nat :=
  LittleEndian.value ((buf.drop 5).take 4)

def plausibleLen (bodyLen : Nat) : Bool :=
  bodyFixedLen ≤ bodyLen && bodyLen ≤ maxBodyLen

/-- The body of the record at the start of `buf`. -/
def bodyOf (buf : Bytes) : Bytes :=
  (buf.drop headerLen).take (declaredLen buf)

def decodeRecord (buf : Bytes) : Decoded :=
  match buf.head? with
  | none => .needMore
  | some first =>
    if first = endOfLogMarker then
      .endOfLog
    else if first ≠ magic then
      .corrupt 1
    else if buf.length < headerLen then
      .needMore
    else if ¬ plausibleLen (declaredLen buf) then
      .corrupt 1
    else if buf.length < headerLen + declaredLen buf then
      .needMore
    else if (crc32IsoHdlc (bodyOf buf)).toNat ≠ declaredChecksum buf then
      .corrupt 1
    else
      .record (LittleEndian.value ((bodyOf buf).take 2))
        (LittleEndian.value (((bodyOf buf).drop 2).take 8))
        ((bodyOf buf).drop bodyFixedLen) (headerLen + declaredLen buf)

/-- `checksummed_len`: the length of the body `decode_record` will checksum, if any. -/
def checksummedLen (window : Bytes) : Option Nat :=
  if window.head? ≠ some magic ∨ window.length < headerLen then
    none
  else if plausibleLen (declaredLen window) ∧ headerLen + declaredLen window ≤ window.length then
    some (declaredLen window)
  else
    none

/-- A header that could begin a record. -/
structure Candidate (buf : Bytes) : Prop where
  first : buf.head? = some magic
  header : headerLen ≤ buf.length
  length : plausibleLen (declaredLen buf) = true

variable {buf : Bytes}

theorem declaredLen_append (header : headerLen ≤ buf.length) (more : Bytes) :
    declaredLen (buf ++ more) = declaredLen buf := by
  unfold headerLen at header
  unfold declaredLen
  rw [List.drop_append_of_le_length (by omega), List.take_append_of_le_length]
  rw [List.length_drop]
  omega

theorem declaredChecksum_append (header : headerLen ≤ buf.length) (more : Bytes) :
    declaredChecksum (buf ++ more) = declaredChecksum buf := by
  unfold headerLen at header
  unfold declaredChecksum
  rw [List.drop_append_of_le_length (by omega), List.take_append_of_le_length]
  rw [List.length_drop]
  omega

theorem bodyOf_append (header : headerLen ≤ buf.length)
    (whole : headerLen + declaredLen buf ≤ buf.length) (more : Bytes) :
    bodyOf (buf ++ more) = bodyOf buf := by
  unfold bodyOf
  rw [declaredLen_append header, List.drop_append_of_le_length header,
    List.take_append_of_le_length]
  rw [List.length_drop]
  omega

theorem Candidate.append (candidate : Candidate buf) (more : Bytes) : Candidate (buf ++ more) where
  first := by rw [List.head?_append, candidate.first]; rfl
  header := by
    have header := candidate.header
    rw [List.length_append]
    omega
  length := by
    rw [declaredLen_append candidate.header]
    exact candidate.length

theorem Candidate.needMore (candidate : Candidate buf)
    (short : buf.length < headerLen + declaredLen buf) : decodeRecord buf = .needMore := by
  have header := candidate.header
  unfold decodeRecord
  rw [candidate.first]
  dsimp only
  rw [if_neg (by decide), if_neg (by simp), if_neg (by omega), if_neg (by simp [candidate.length]),
    if_pos short]

theorem Candidate.whole (candidate : Candidate buf)
    (whole : headerLen + declaredLen buf ≤ buf.length) :
    checksummedLen buf = some (declaredLen buf) ∧
      (decodeRecord buf = .corrupt 1 ∨ ∃ shard seq payload,
          decodeRecord buf = .record shard seq payload (headerLen + declaredLen buf)) := by
  have header := candidate.header
  constructor
  · unfold checksummedLen
    rw [if_neg (by simp [candidate.first]; omega), if_pos ⟨candidate.length, whole⟩]
  · unfold decodeRecord
    rw [candidate.first]
    dsimp only
    rw [if_neg (by decide), if_neg (by simp), if_neg (by omega),
      if_neg (by simp [candidate.length]), if_neg (by omega)]
    split
    · exact .inl rfl
    · exact .inr ⟨_, _, _, rfl⟩

/-- What a buffer begins with. -/
inductive Front (buf : Bytes) : Prop where
  | marker (reads : decodeRecord buf = .endOfLog) (unpriced : checksummedLen buf = none)
      (stays : ∀ more, decodeRecord (buf ++ more) = .endOfLog ∧ checksummedLen (buf ++ more) = none)
  | damage (reads : decodeRecord buf = .corrupt 1) (unpriced : checksummedLen buf = none)
      (stays : ∀ more,
        decodeRecord (buf ++ more) = .corrupt 1 ∧ checksummedLen (buf ++ more) = none)
  | short (reads : decodeRecord buf = .needMore) (short : buf.length < headerLen)
      (first : buf = [] ∨ buf.head? = some magic)
  | candidate (candidate : Candidate buf)

theorem decodeRecord_marker (stands : buf.head? = some endOfLogMarker) :
    decodeRecord buf = .endOfLog ∧ checksummedLen buf = none := by
  constructor
  · unfold decodeRecord
    rw [stands]
    dsimp only
    rw [if_pos rfl]
  · unfold checksummedLen
    rw [stands, if_pos (.inl (by decide))]

theorem decodeRecord_stray {first : UInt8} (stands : buf.head? = some first)
    (unmarked : first ≠ endOfLogMarker) (other : first ≠ magic) :
    decodeRecord buf = .corrupt 1 ∧ checksummedLen buf = none := by
  constructor
  · unfold decodeRecord
    rw [stands]
    dsimp only
    rw [if_neg unmarked, if_pos other]
  · unfold checksummedLen
    rw [stands, if_pos (.inl (by simpa using other))]

theorem decodeRecord_unlikely (stands : buf.head? = some magic)
    (header : headerLen ≤ buf.length) (unlikely : plausibleLen (declaredLen buf) = false) :
    decodeRecord buf = .corrupt 1 ∧ checksummedLen buf = none := by
  constructor
  · unfold decodeRecord
    rw [stands]
    dsimp only
    rw [if_neg (by decide), if_neg (by simp), if_neg (by omega), if_pos (by simp [unlikely])]
  · unfold checksummedLen
    rw [if_neg (by simp [stands]; omega), if_neg (by simp [unlikely])]

theorem front (buf : Bytes) : Front buf := by
  cases stands : buf.head? with
  | none =>
    have empty : buf = [] := List.head?_eq_none_iff.mp stands
    subst empty
    exact .short rfl (by decide) (.inl rfl)
  | some first =>
    have behind (more : Bytes) : (buf ++ more).head? = some first := by simp [stands]
    by_cases marker : first = endOfLogMarker
    · subst marker
      obtain ⟨reads, unpriced⟩ := decodeRecord_marker stands
      exact .marker reads unpriced fun more => decodeRecord_marker (behind more)
    · by_cases other : first = magic
      · subst other
        by_cases short : buf.length < headerLen
        · refine .short ?_ short (.inr stands)
          unfold decodeRecord
          rw [stands]
          dsimp only
          rw [if_neg marker, if_neg (by simp), if_pos short]
        · have header : headerLen ≤ buf.length := by omega
          cases length : plausibleLen (declaredLen buf) with
          | true => exact .candidate ⟨stands, header, length⟩
          | false =>
            obtain ⟨reads, unpriced⟩ := decodeRecord_unlikely stands header length
            refine .damage reads unpriced fun more => ?_
            refine decodeRecord_unlikely (behind more) ?_ ?_
            · rw [List.length_append]
              omega
            · rw [declaredLen_append header, length]
      · obtain ⟨reads, unpriced⟩ := decodeRecord_stray stands marker other
        exact .damage reads unpriced fun more => decodeRecord_stray (behind more) marker other

theorem candidate_of_needMore (short : decodeRecord buf = .needMore)
    (header : headerLen ≤ buf.length) :
    Candidate buf ∧ buf.length < headerLen + declaredLen buf := by
  have candidate : Candidate buf := by
    cases front buf with
    | marker reads | damage reads =>
      rw [reads] at short
      cases short
    | short _ less => omega
    | candidate candidate => exact candidate
  refine ⟨candidate, ?_⟩
  by_contra whole
  obtain ⟨_, reads | ⟨_, _, _, reads⟩⟩ := candidate.whole (by omega)
  · rw [reads] at short
    cases short
  · rw [reads] at short
    cases short

theorem Candidate.decodeRecord_append (candidate : Candidate buf)
    (whole : headerLen + declaredLen buf ≤ buf.length) (more : Bytes) :
    decodeRecord (buf ++ more) = decodeRecord buf := by
  have header := candidate.header
  have longer := (candidate.append more).header
  unfold decodeRecord
  rw [candidate.first, (candidate.append more).first, declaredLen_append header,
    declaredChecksum_append header, bodyOf_append header whole]
  dsimp only
  have still : ¬ (buf ++ more).length < headerLen + declaredLen buf := by
    rw [List.length_append]
    omega
  rw [if_neg (show ¬ (buf ++ more).length < headerLen by omega), if_neg still,
    if_neg (show ¬ buf.length < headerLen by omega),
    if_neg (show ¬ buf.length < headerLen + declaredLen buf by omega)]

/-- What is not a short read is the same in a longer buffer. -/
theorem decodeRecord_append (settled : decodeRecord buf ≠ .needMore) (more : Bytes) :
    decodeRecord (buf ++ more) = decodeRecord buf ∧
      checksummedLen (buf ++ more) = checksummedLen buf := by
  cases front buf with
  | marker reads unpriced stays | damage reads unpriced stays =>
    rw [reads, unpriced]
    exact stays more
  | short reads => exact absurd reads settled
  | candidate candidate =>
    have whole : headerLen + declaredLen buf ≤ buf.length := by
      by_contra short
      exact settled (candidate.needMore (by omega))
    have still : headerLen + declaredLen (buf ++ more) ≤ (buf ++ more).length := by
      rw [declaredLen_append candidate.header, List.length_append]
      omega
    refine ⟨candidate.decodeRecord_append whole more, ?_⟩
    rw [((candidate.append more).whole still).1, (candidate.whole whole).1,
      declaredLen_append candidate.header]

/-- A record lies inside its buffer, and damage is stepped over a byte at a time. -/
theorem decodeRecord_inside :
    (∀ shard seq payload consumed, decodeRecord buf = .record shard seq payload consumed →
      Candidate buf ∧ consumed = headerLen + declaredLen buf ∧ consumed ≤ buf.length) ∧
    ∀ skip, decodeRecord buf = .corrupt skip → skip = 1 := by
  cases front buf with
  | marker reads | short reads => simp [reads]
  | damage reads =>
    rw [reads]
    refine ⟨fun _ _ _ _ read => (by cases read), ?_⟩
    rintro skip ⟨⟩
    rfl
  | candidate candidate =>
    by_cases whole : headerLen + declaredLen buf ≤ buf.length
    · obtain ⟨_, reads | ⟨shard, seq, payload, reads⟩⟩ := candidate.whole whole
      · rw [reads]
        refine ⟨fun _ _ _ _ read => (by cases read), ?_⟩
        rintro skip ⟨⟩
        rfl
      · rw [reads]
        refine ⟨?_, fun skip read => (by cases read)⟩
        rintro _ _ _ _ ⟨⟩
        exact ⟨candidate, rfl, whole⟩
    · rw [candidate.needMore (by omega)]
      exact ⟨fun _ _ _ _ read => (by cases read), fun skip read => (by cases read)⟩

theorem decodeRecord_record {shard seq consumed : Nat} {payload : Bytes}
    (reads : decodeRecord buf = .record shard seq payload consumed) :
    Candidate buf ∧ headerLen + declaredLen buf ≤ buf.length ∧
      (crc32IsoHdlc (bodyOf buf)).toNat = declaredChecksum buf ∧
      payload = (bodyOf buf).drop bodyFixedLen := by
  obtain ⟨candidate, length, inside⟩ := decodeRecord_inside.1 _ _ _ _ reads
  have header := candidate.header
  rw [length] at inside
  refine ⟨candidate, inside, ?_⟩
  unfold decodeRecord at reads
  rw [candidate.first] at reads
  dsimp only at reads
  rw [if_neg (by decide), if_neg (by simp), if_neg (by omega),
    if_neg (by simp [candidate.length]), if_neg (by omega)] at reads
  split at reads
  · cases reads
  · next same =>
    cases reads
    exact ⟨by simpa using same, rfl⟩

theorem checksummedLen_inside {len : Nat} (priced : checksummedLen buf = some len) :
    Candidate buf ∧ len = declaredLen buf ∧ headerLen + len ≤ buf.length := by
  unfold checksummedLen at priced
  split at priced
  · cases priced
  · next candidate =>
    split at priced
    · next whole =>
      cases priced
      push Not at candidate
      exact ⟨⟨candidate.1, candidate.2, whole.1⟩, rfl, whole.2⟩
    · cases priced

theorem checksummedLen_eq_none
    (unlooked : decodeRecord buf = .needMore ∨ decodeRecord buf = .endOfLog) :
    checksummedLen buf = none := by
  cases priced : checksummedLen buf with
  | none => rfl
  | some len =>
    obtain ⟨candidate, rfl, inside⟩ := checksummedLen_inside priced
    obtain ⟨_, other | ⟨_, _, _, other⟩⟩ := candidate.whole inside
    · simp [other] at unlooked
    · simp [other] at unlooked

/-- A header, and the body behind it. -/
def framed (check : Nat) (body : Bytes) : Bytes :=
  magic :: LittleEndian.bytes 4 body.length ++ LittleEndian.bytes 4 check ++ body

theorem encodeRecord_eq (shard seq : Nat) (payload : Bytes) :
    encodeRecord shard seq payload =
      framed
        (crc32IsoHdlc (LittleEndian.bytes 2 shard ++ LittleEndian.bytes 8 seq ++ payload)).toNat
        (LittleEndian.bytes 2 shard ++ LittleEndian.bytes 8 seq ++ payload) :=
  rfl

section

variable {check : Nat} {body : Bytes}

theorem length_framed : (framed check body).length = headerLen + body.length := by
  simp only [framed, List.length_append, List.length_cons, LittleEndian.length_bytes, headerLen]

theorem length_fits (short : body.length ≤ maxBodyLen) : body.length < 256 ^ 4 :=
  Nat.lt_of_le_of_lt short (by decide)

theorem declaredLen_framed (fits : body.length < 256 ^ 4) (rest : Bytes) :
    declaredLen (framed check body ++ rest) = body.length := by
  have split : (framed check body ++ rest).drop 1 =
      LittleEndian.bytes 4 body.length ++ (LittleEndian.bytes 4 check ++ body ++ rest) := by
    simp [framed]
  unfold declaredLen
  rw [split, List.take_left' (LittleEndian.length_bytes 4 _), LittleEndian.value_bytes fits]

theorem declaredChecksum_framed (fits : check < 256 ^ 4) (rest : Bytes) :
    declaredChecksum (framed check body ++ rest) = check := by
  have split : (framed check body ++ rest).drop 5 =
      LittleEndian.bytes 4 check ++ (body ++ rest) := by
    have whole : framed check body ++ rest = (magic :: LittleEndian.bytes 4 body.length) ++
          (LittleEndian.bytes 4 check ++ (body ++ rest)) := by
      simp [framed]
    rw [whole]
    exact List.drop_left' (by simp)
  unfold declaredChecksum
  rw [split, List.take_left' (LittleEndian.length_bytes 4 _), LittleEndian.value_bytes fits]

theorem bodyOf_framed (short : body.length ≤ maxBodyLen) (rest : Bytes) :
    bodyOf (framed check body ++ rest) = body := by
  have split : (framed check body ++ rest).drop headerLen = body ++ rest := by
    have whole : framed check body ++ rest =
        (magic :: LittleEndian.bytes 4 body.length ++ LittleEndian.bytes 4 check) ++
          (body ++ rest) := by
      simp [framed]
    rw [whole]
    exact List.drop_left' (by simp [headerLen])
  unfold bodyOf
  rw [declaredLen_framed (length_fits short), split, List.take_left]

theorem candidate_framed (long : bodyFixedLen ≤ body.length) (short : body.length ≤ maxBodyLen)
    (rest : Bytes) :
    Candidate (framed check body ++ rest) ∧
      headerLen + body.length ≤ (framed check body ++ rest).length := by
  have length : headerLen + body.length ≤ (framed check body ++ rest).length := by
    rw [List.length_append, length_framed]
    omega
  refine ⟨⟨rfl, by omega, ?_⟩, length⟩
  rw [declaredLen_framed (length_fits short)]
  simp [plausibleLen, long, short]

theorem decodeRecord_framed (long : bodyFixedLen ≤ body.length) (short : body.length ≤ maxBodyLen)
    (fits : check < 256 ^ 4) (rest : Bytes) :
    decodeRecord (framed check body ++ rest) =
      if (crc32IsoHdlc body).toNat ≠ check then
        .corrupt 1
      else
        .record (LittleEndian.value (body.take 2)) (LittleEndian.value ((body.drop 2).take 8))
          (body.drop bodyFixedLen) (headerLen + body.length) := by
  have both : Candidate (framed check body ++ rest) ∧
      headerLen + body.length ≤ (framed check body ++ rest).length :=
    candidate_framed long short rest
  obtain ⟨candidate, length⟩ := both
  have header := candidate.header
  have plausibly := candidate.length
  rw [declaredLen_framed (length_fits short)] at plausibly
  unfold decodeRecord
  rw [candidate.first]
  dsimp only
  rw [if_neg (by decide), if_neg (by simp), if_neg (by omega),
    declaredLen_framed (length_fits short), if_neg (by simp [plausibly]), if_neg (by omega),
      bodyOf_framed short,
    declaredChecksum_framed fits]

end

theorem decodeRecord_encodeRecord {shard seq : Nat} {payload : Bytes} (shardFits : shard < 256 ^ 2)
    (seqFits : seq < 256 ^ 8) (short : bodyFixedLen + payload.length ≤ maxBodyLen) (rest : Bytes) :
    decodeRecord (encodeRecord shard seq payload ++ rest) =
      .record shard seq payload (headerLen + (bodyFixedLen + payload.length)) := by
  have length : (LittleEndian.bytes 2 shard ++ LittleEndian.bytes 8 seq ++ payload).length =
      bodyFixedLen + payload.length := by
    simp only [List.length_append, LittleEndian.length_bytes, bodyFixedLen]
  have fits : (crc32IsoHdlc (LittleEndian.bytes 2 shard ++ LittleEndian.bytes 8 seq ++
      payload)).toNat < 256 ^ 4 := UInt32.toNat_lt _
  have first : (LittleEndian.bytes 2 shard ++ LittleEndian.bytes 8 seq ++ payload).take 2 =
      LittleEndian.bytes 2 shard := by
    rw [List.append_assoc]
    exact List.take_left' (by simp)
  have second : ((LittleEndian.bytes 2 shard ++ LittleEndian.bytes 8 seq ++ payload).drop 2).take
      8 = LittleEndian.bytes 8 seq := by
    rw [List.append_assoc, List.drop_left' (by simp)]
    exact List.take_left' (by simp)
  have third : (LittleEndian.bytes 2 shard ++ LittleEndian.bytes 8 seq ++ payload).drop
      bodyFixedLen = payload := List.drop_left' (by simp [bodyFixedLen])
  rw [encodeRecord_eq, decodeRecord_framed (by omega) (by omega) fits, if_neg (by simp), first,
    second, third, length, LittleEndian.value_bytes shardFits, LittleEndian.value_bytes seqFits]

end Seedstone
