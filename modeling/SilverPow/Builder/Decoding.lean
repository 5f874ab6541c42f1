import SilverPow.Builder.Block

/-!
# What the decoders accept

`BlockHeader::from_bytes` reads exactly the strings of 80 bytes, each of which is what
`BlockHeader::to_bytes` writes for the header it reads. `Block::from_hex` reads the fees as
eight bytes but asks for one: its last guard lets through texts that end inside them.
-/

namespace SilverPow.Builder

open SilverPow.Base

namespace BlockHeader

/-- Every string of 80 bytes is written by some header. -/
theorem exists_toBytes {bytes : Bytes} (h : bytes.length = 80) :
    ∃ header : BlockHeader, header.toBytes = bytes := by
  refine ⟨⟨BitVec.ofNat 32 (leNat (bytes.take 4)),
    ⟨(bytes.drop 4).take 32, by rw [List.length_take, List.length_drop]; omega⟩,
    ⟨(bytes.drop 36).take 32, by rw [List.length_take, List.length_drop]; omega⟩,
    BitVec.ofNat 32 (leNat ((bytes.drop 68).take 4)),
    BitVec.ofNat 32 (leNat ((bytes.drop 72).take 4)),
    BitVec.ofNat 32 (leNat (bytes.drop 76))⟩, ?_⟩
  have hsplit (k n : Nat) : bytes.drop k = (bytes.drop k).take n ++ bytes.drop (k + n) := by
    rw [← List.drop_drop, List.take_append_drop]
  have hlast : bytes.drop 76 = (bytes.drop 76).take 4 := by
    rw [List.take_of_length_le]
    rw [List.length_drop]
    omega
  have hword (k : Nat) (hk : k + 4 ≤ 80) :
      leBytes 4 (BitVec.ofNat 32 (leNat ((bytes.drop k).take 4))).toNat =
        (bytes.drop k).take 4 := by
    apply leBytes_ofNat_leNat rfl
    rw [List.length_take, List.length_drop]
    omega
  have h0 := hword 0 (by omega)
  rw [List.drop_zero] at h0
  rw [toBytes, h0, hword 68 (by omega), hword 72 (by omega), hlast, hword 76 (by omega), ← hlast]
  simp only [List.append_assoc]
  rw [← hsplit 72 4, ← hsplit 68 4, ← hsplit 36 32, ← hsplit 4 32, List.take_append_drop]

/-- What is read is what was written. -/
theorem fromBytes_eq_ok_iff {bytes : Bytes} {header : BlockHeader} :
    fromBytes bytes = some (.ok header) ↔ header.toBytes = bytes := by
  constructor
  · intro h
    by_cases hl : bytes.length = 80
    · obtain ⟨header', rfl⟩ := exists_toBytes hl
      rw [fromBytes_toBytes] at h
      rw [Except.ok.inj (Option.some.inj h)]
    · rw [fromBytes, if_pos hl] at h
      cases h
  · rintro rfl
    exact header.fromBytes_toBytes

/-- The strings of 80 bytes are the ones that are read. -/
theorem exists_fromBytes_iff {bytes : Bytes} :
    (∃ header, fromBytes bytes = some (.ok header)) ↔ bytes.length = 80 := by
  constructor
  · rintro ⟨header, h⟩
    rw [← fromBytes_eq_ok_iff.mp h, header.length_toBytes]
  · intro h
    obtain ⟨header, hbytes⟩ := exists_toBytes h
    exact ⟨header, fromBytes_eq_ok_iff.mpr hbytes⟩

/-- Headers and strings of 80 bytes are in bijection: `from_bytes` reads what `to_bytes`
writes, reads nothing but strings of 80 bytes, and writes back the string it read. -/
theorem fromBytes_bijective :
    (∀ header : BlockHeader, fromBytes header.toBytes = some (.ok header)) ∧
      (∀ bytes, (∃ header, fromBytes bytes = some (.ok header)) ↔ bytes.length = 80) ∧
      ∀ bytes header, fromBytes bytes = some (.ok header) ↔ header.toBytes = bytes :=
  ⟨fromBytes_toBytes, fun _ ↦ exists_fromBytes_iff, fun _ _ ↦ fromBytes_eq_ok_iff⟩

end BlockHeader

namespace Block

/-- The decoded bytes that `from_hex` reads past the end of: there are some for the fees, but
not eight. -/
def EndsInFees (bytes : Bytes) : Prop := 116 < bytes.length ∧ bytes.length < 124

/-- Once the header is there, `from_hex` stops the program in the fees only. -/
theorem fromHex_eq_none_iff_of_decode {hex : HexCrate} {hexStr : String} {bytes : Bytes}
    (h : hex.decode hexStr = .ok bytes) : fromHex hex hexStr = none ↔ EndsInFees bytes := by
  simp only [fromHex, h, EndsInFees]
  by_cases hshort : bytes.length < 96
  · rw [if_pos hshort]
    simp only [reduceCtorEq, false_iff]
    omega
  rw [if_neg hshort]
  have hfront : ((bytes.drop 0).take (80 - 0)).length = 80 := by
    rw [List.drop_zero, List.length_take]
    omega
  obtain ⟨header, hheader⟩ := BlockHeader.exists_fromBytes_iff.mpr hfront
  obtain ⟨height, hheight⟩ := exists_fromLeBytes 64 (show 80 + 64 / 8 ≤ bytes.length by omega)
  obtain ⟨timestamp, htimestamp⟩ :=
    exists_fromLeBytes 64 (show 88 + 64 / 8 ≤ bytes.length by omega)
  rw [slice_of_le (by omega) (by omega)]
  simp only [Option.bind_eq_bind, Option.bind_some, hheader, hheight, htimestamp]
  by_cases haddress : 96 < bytes.length
  · rw [if_pos haddress, slice_of_le (by omega) (by omega), Option.map_some, Option.bind_some]
    by_cases hfees : 116 < bytes.length
    · rw [if_pos hfees]
      have hnone := fromLeBytes_eq_none_iff 64 bytes 116
      cases hword : fromLeBytes 64 bytes 116 with
      | none => simpa [hfees] using hnone.mp hword
      | some fees =>
        have hlong : ¬ bytes.length < 124 := fun hlt ↦ by
          rw [hnone.mpr hlt] at hword
          cases hword
        simp [hlong]
    · simp [hfees]
  · simp [haddress, show ¬ 116 < bytes.length by omega]

/-- Every block that is read has the constant for its reward. -/
theorem rewardAmount_of_fromHex {hex : HexCrate} {hexStr : String} {block : Block}
    (h : fromHex hex hexStr = some (.ok block)) : block.coinbase.rewardAmount = blockReward := by
  unfold fromHex at h
  split at h
  · cases h
  · split at h
    · cases h
    · simp only [Option.bind_eq_bind, Option.bind_eq_some_iff] at h
      obtain ⟨_, -, result, -, h⟩ := h
      cases result with
      | error e => cases h
      | ok header =>
        simp only [Option.bind_eq_some_iff] at h
        obtain ⟨_, -, _, -, h⟩ := h
        -- With and without bytes for the address, and for the fees.
        split at h
        · obtain ⟨_, -, h⟩ := Option.bind_eq_some_iff.mp h
          split at h
          · obtain ⟨_, -, h⟩ := Option.bind_eq_some_iff.mp h
            cases h
            rfl
          · cases h
            rfl
        · split at h
          · rw [Option.bind_some] at h
            obtain ⟨_, -, h⟩ := Option.bind_eq_some_iff.mp h
            cases h
            rfl
          · cases h
            rfl

/-- The decoder returns for a text, instead of stopping the program, exactly when the text does
not decode to bytes that end in the fees. -/
theorem fromHex_ne_none_iff (hex : HexCrate) (hexStr : String) :
    fromHex hex hexStr ≠ none ↔ ¬ ∃ bytes, hex.decode hexStr = .ok bytes ∧ EndsInFees bytes := by
  cases h : hex.decode hexStr with
  | error e => simp [fromHex, h]
  | ok bytes => simp [fromHex_eq_none_iff_of_decode h]

theorem decode_zeros (n : Nat) :
    HexCrate.base16.decode (String.ofList (List.replicate (2 * n) '0')) =
      .ok (List.replicate n (BitVec.ofNat 8 (16 * 0 + 0))) := by
  simp only [HexCrate.base16, Hex.base16_decode, String.toList_ofList,
    Hex.decodeDigits_replicate (show Hex.digitValue '0' = some 0 by rfl) n]

/-- On 117 zero bytes the program stops. -/
theorem fromHex_zeros :
    fromHex HexCrate.base16 (String.ofList (List.replicate (2 * 117) '0')) = none := by
  rw [fromHex_eq_none_iff_of_decode (decode_zeros 117), EndsInFees, List.length_replicate]
  decide

end Block
end SilverPow.Builder
