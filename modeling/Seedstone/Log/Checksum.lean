import Seedstone.Library.Crc
import Seedstone.Log.Record

/-!
# The checksum of a record

`crc32_iso_hdlc` folds sixteen bytes at a time through tables; the bitwise loop it
replaced is `crc32Bitwise`, and the two agree.  No step of the register loses
anything, so a record whose body changed within four bytes, or whose checksum
changed, never decodes.
-/

namespace Seedstone

/-- The reflected polynomial of CRC-32/ISO-HDLC. -/
def crcPoly : UInt32 := 0xEDB88320

/-- CRC-32/ISO-HDLC bit by bit. -/
def crc32Bitwise (data : Bytes) : UInt32 :=
  ~~~ data.foldl (fun crc byte => (Crc.bit crcPoly)^[8] (crc ^^^ byte.toUInt32)) 0xFFFFFFFF

theorem crcTable_zero (byte : UInt8) : crcTable 0 byte = Crc.advance crcPoly 1 byte.toUInt32 := by
  rw [crcTable]
  rfl

/-- A row of the tables moves its byte on past so many more. -/
theorem crcTable_eq (row : Nat) (byte : UInt8) :
    crcTable row byte = Crc.advance crcPoly (row + 1) byte.toUInt32 := by
  induction row with
  | zero => exact crcTable_zero byte
  | succ row induction =>
    rw [crcTable, induction, crcTable_zero, ← Crc.advance_one, Crc.advance_advance, Nat.add_comm]

theorem crcByte_eq (crc : UInt32) (byte : UInt8) :
    crcByte crc byte = Crc.advance crcPoly 1 (crc ^^^ byte.toUInt32) := by
  have gone : (crc ^^^ byte.toUInt32) >>> 8 = crc >>> 8 := by
    have small : byte.toUInt32 >>> 8 = 0 := by
      rw [← UInt32.toNat_inj, UInt32.toNat_shiftRight, UInt8.toNat_toUInt32,
        Nat.shiftRight_eq_div_pow]
      exact Nat.div_eq_of_lt byte.toNat_lt
    rw [UInt32.shiftRight_xor, small, UInt32.xor_zero]
  rw [crcByte, crcTable_eq, Crc.advance_one (crc ^^^ _), gone]

theorem foldl_crcByte (crc : UInt32) (data : Bytes) :
    data.foldl crcByte crc = Crc.run crcPoly crc data := by
  unfold Crc.run
  congr 1
  funext crc byte
  exact crcByte_eq crc byte

theorem foldl_crcTable (bytes : Bytes) :
    ∀ folded : UInt32, (bytes.zip (List.range bytes.length).reverse).foldl
      (fun folded entry => folded ^^^ crcTable entry.2 entry.1) folded =
        folded ^^^ Crc.run crcPoly 0 bytes := by
  induction bytes with
  | nil =>
    intro folded
    exact UInt32.xor_zero.symm
  | cons byte rest induction =>
    intro folded
    have front : Crc.run crcPoly 0 (byte :: rest) =
        Crc.run crcPoly (Crc.advance crcPoly 1 (0 ^^^ byte.toUInt32)) rest := rfl
    rw [List.length_cons, List.range_succ, List.reverse_append, List.reverse_singleton,
      List.singleton_append, List.zip_cons_cons, List.foldl_cons, induction, crcTable_eq, front,
      UInt32.zero_xor, Crc.run_eq (Crc.advance _ _ _) rest, Crc.advance_advance, UInt32.xor_assoc]

theorem crcBlock_eq (crc : UInt32) {block : Bytes} (sixteen : block.length = 16) :
    crcBlock crc block = Crc.run crcPoly crc block := by
  have front : (block.take 4).length = 4 := by
    rw [List.length_take]
    omega
  have length : (crcFolded crc block).length = 16 := by
    simp only [crcFolded, List.length_append, List.length_zipWith, LittleEndian.length_bytes,
      List.length_take, List.length_drop]
    omega
  have folded : Crc.run crcPoly 0 (List.zipWith (· ^^^ ·) (block.take 4)
      (LittleEndian.bytes 4 crc.toNat)) = Crc.run crcPoly crc (block.take 4) := by
    rw [← Crc.run_folded (block.take 4) crc (by rw [front]; exact crc.toNat_lt), front]
  have rows := foldl_crcTable (crcFolded crc block) 0
  rw [length, UInt32.zero_xor] at rows
  refine Eq.trans rows ?_
  conv_rhs => rw [← List.take_append_drop 4 block]
  unfold Crc.run at folded ⊢
  rw [crcFolded, List.foldl_append, List.foldl_append, folded]

theorem crcBlocks_eq (blocks : Nat) :
    ∀ {crc : UInt32} {data : Bytes}, blocks * 16 ≤ data.length →
      crcBlocks blocks crc data = Crc.run crcPoly crc data := by
  induction blocks with
  | zero =>
    intro crc data _
    exact foldl_crcByte crc data
  | succ blocks induction =>
    intro crc data enough
    have sixteen : (data.take 16).length = 16 := by
      rw [List.length_take]
      omega
    have left : blocks * 16 ≤ (data.drop 16).length := by
      rw [List.length_drop]
      omega
    rw [crcBlocks, crcBlock_eq crc sixteen, induction left]
    conv_rhs => rw [← List.take_append_drop 16 data]
    exact List.foldl_append.symm

theorem crc32IsoHdlc_eq (data : Bytes) :
    crc32IsoHdlc data = ~~~ Crc.run crcPoly 0xFFFFFFFF data := by
  rw [crc32IsoHdlc, crcBlocks_eq _ (Nat.div_mul_le_self _ _)]

/-- Sixteen bytes at a time through the tables comes to the bitwise loop, for data of
any length. -/
theorem crc32IsoHdlc_eq_bitwise (data : Bytes) : crc32IsoHdlc data = crc32Bitwise data := by
  rw [crc32IsoHdlc_eq]
  rfl

theorem crc32IsoHdlc_burst {window other : Bytes} (same : other.length = window.length)
    (short : window.length ≤ 4) (changed : other ≠ window) (before after : Bytes) :
    crc32IsoHdlc (before ++ other ++ after) ≠ crc32IsoHdlc (before ++ window ++ after) := by
  have top : 2 ^ 31 ≤ crcPoly.toNat := by decide
  intro equal
  rw [crc32IsoHdlc_eq, crc32IsoHdlc_eq, UInt32.not_inj] at equal
  apply changed
  have split : ∀ middle : Bytes, Crc.run crcPoly 0xFFFFFFFF (before ++ middle ++ after) =
      Crc.run crcPoly (Crc.run crcPoly (Crc.run crcPoly 0xFFFFFFFF before) middle) after := by
    intro middle
    unfold Crc.run
    rw [List.foldl_append, List.foldl_append]
  rw [split, split] at equal
  exact Crc.run_short top same (same ▸ short) _ (Crc.run_injective top after equal)

theorem append_split {front back before behind : Bytes} (whole : front ++ back = before ++ behind)
    (long : front.length ≤ before.length) :
    ∃ kept, before = front ++ kept ∧ back = kept ++ behind := by
  rcases List.append_eq_append_iff.mp whole with split | ⟨left, rfl, rfl⟩
  · exact split
  · have none : left = [] := by
      rw [List.length_append] at long
      exact List.eq_nil_of_length_eq_zero (by omega)
    subst none
    exact ⟨[], by simp, by simp⟩

/-- A body under another checksum than its own is damage, too long a body included. -/
theorem decodeRecord_mischecked {check : Nat} {body : Bytes} (long : bodyFixedLen ≤ body.length)
    (encodes : body.length < 256 ^ 4) (fits : check < 256 ^ 4)
    (wrong : (crc32IsoHdlc body).toNat ≠ check) (rest : Bytes) :
    decodeRecord (framed check body ++ rest) = .corrupt 1 := by
  by_cases short : body.length ≤ maxBodyLen
  · rw [decodeRecord_framed long short fits, if_pos wrong]
  · refine (decodeRecord_unlikely rfl ?_ ?_).1
    · rw [List.length_append, length_framed]
      omega
    · rw [declaredLen_framed encodes]
      simp [plausibleLen, short]

/-- A record changed within four bytes of its body, or within its checksum, is damage,
whatever follows it. -/
theorem burst_is_damage (shard seq : Nat) (payload : Bytes)
    (encodes : bodyFixedLen + payload.length < 256 ^ 4) (before window other after : Bytes)
    (encoded : encodeRecord shard seq payload = before ++ window ++ after)
    (same : other.length = window.length) (changed : other ≠ window)
    (confined : headerLen ≤ before.length ∧ window.length ≤ 4 ∨
      5 ≤ before.length ∧ before.length + window.length ≤ headerLen) (rest : Bytes) :
    decodeRecord (before ++ other ++ after ++ rest) = .corrupt 1 := by
  rw [encodeRecord_eq] at encoded
  have length : (LittleEndian.bytes 2 shard ++ LittleEndian.bytes 8 seq ++ payload).length =
      bodyFixedLen + payload.length := by
    simp only [List.length_append, LittleEndian.length_bytes, bodyFixedLen]
  generalize LittleEndian.bytes 2 shard ++ LittleEndian.bytes 8 seq ++ payload = body
    at encoded length
  have long : bodyFixedLen ≤ body.length := by omega
  have checked : (crc32IsoHdlc body).toNat < 256 ^ 4 := UInt32.toNat_lt _
  rw [framed, List.append_assoc, List.append_assoc] at encoded
  unfold headerLen at confined
  -- What changed is behind the magic byte and the length.
  obtain ⟨kept, rfl, behind⟩ := append_split encoded (by simp; omega)
  rw [List.length_append, List.length_cons, LittleEndian.length_bytes] at confined
  rcases confined with ⟨inside, short⟩ | ⟨_, inside⟩
  · obtain ⟨kept, rfl, rfl⟩ := append_split behind (by simp; omega)
    have wrong : (crc32IsoHdlc (kept ++ other ++ after)).toNat ≠
        (crc32IsoHdlc (kept ++ (window ++ after))).toNat := by
      rw [Ne, UInt32.toNat_inj, ← List.append_assoc]
      exact crc32IsoHdlc_burst same short changed kept after
    have still : (kept ++ other ++ after).length = (kept ++ (window ++ after)).length := by
      simp [same]
    have read := decodeRecord_mischecked (still ▸ long) (by omega) checked wrong rest
    rw [framed, still] at read
    simpa using read
  · rw [← List.append_assoc] at behind
    obtain ⟨left, whole, rfl⟩ := append_split behind.symm (by simp; omega)
    have four : (kept ++ other ++ left).length = 4 := by
      have four := congrArg List.length whole
      simp only [List.length_append, LittleEndian.length_bytes] at four ⊢
      omega
    have spelled := LittleEndian.bytes_value four
    have wrong : (crc32IsoHdlc body).toNat ≠ LittleEndian.value (kept ++ other ++ left) := by
      intro equal
      rw [← equal, whole] at spelled
      exact changed (List.append_cancel_left (List.append_cancel_right spelled)).symm
    have read := decodeRecord_mischecked long (by omega) (LittleEndian.value_lt four) wrong rest
    rw [framed, spelled] at read
    simpa using read

theorem burst_is_damage_payload :
    decodeRecord ((encodeRecord 3 7 [4, 9]).take 19 ++ [9, 4] ++ [] ++ [0]) = .corrupt 1 := by
  have encoded : encodeRecord 3 7 [4, 9] = (encodeRecord 3 7 [4, 9]).take 19 ++ [4, 9] ++ [] := by
    decide +kernel
  exact burst_is_damage 3 7 [4, 9] (by decide) _ [4, 9] [9, 4] [] encoded rfl (by decide)
    (.inl (by decide +kernel)) [0]

end Seedstone
