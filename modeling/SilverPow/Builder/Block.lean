import SilverPow.Base.Bytes
import SilverPow.Base.Hex
import SilverPow.Ledger.Validation

/-!
# Blocks and their bytes

`src/block_builder.rs`: the block header, the coinbase and the block that a builder makes,
with the bytes and the hexadecimal text they are written as and the decoders that read them
back. An index or a slice out of range aborts the program; such a result is `none`.
-/

namespace SilverPow.Builder

open SilverPow.Base

/-- The `hex` crate: `hex::encode`, and `hex::decode` with the text of its error. -/
structure HexCrate where
  encode : Bytes → String
  decode : String → Except String Bytes

/-- The documented behaviour of the crate: lower-case digits, and what is written is read
back. -/
structure HexCrate.Lawful (hex : HexCrate) : Prop where
  encode_eq (bytes : Bytes) : hex.encode bytes = Hex.base16.encode bytes
  decode_encode (bytes : Bytes) : hex.decode (hex.encode bytes) = .ok bytes

/-- The usual codec in the place of the crate. -/
def HexCrate.base16 : HexCrate where
  encode := Hex.base16.encode
  decode text :=
    match Hex.base16.decode text with
    | some bytes => .ok bytes
    | none => .error "Invalid character"

theorem HexCrate.lawful_base16 : HexCrate.base16.Lawful where
  encode_eq _ := rfl
  decode_encode bytes := by
    simp only [HexCrate.base16, Hex.base16_decode_encode]

/-- `[u8; 32]`. -/
structure Hash32 where
  bytes : Bytes
  length_eq : bytes.length = 32

/-- `copy_from_slice` into a `[u8; 32]`; another length aborts the program. -/
def Hash32.copyFromSlice (bytes : Bytes) : Option Hash32 :=
  if h : bytes.length = 32 then some ⟨bytes, h⟩ else none

/-- The bytes of an array are copied back into it. -/
theorem Hash32.copyFromSlice_bytes (hash : Hash32) : copyFromSlice hash.bytes = some hash :=
  dif_pos hash.length_eq

/-- `BlockHeader`, `src/block_builder.rs:11–25`. -/
structure BlockHeader where
  version : U32
  prevBlockHash : Hash32
  merkleRoot : Hash32
  timestamp : U32
  bits : U32
  nonce : U32

/-- `CoinbaseTransaction`, `src/block_builder.rs:111–120`. -/
structure CoinbaseTransaction where
  blockHeight : U64
  minerAddress : String
  rewardAmount : U128
  transactionFees : U128

/-- `Block`, `src/block_builder.rs:168–177`. -/
structure Block where
  header : BlockHeader
  coinbase : CoinbaseTransaction
  height : U64
  timestamp : U64

/-- `BlockHeader::to_bytes`, `src/block_builder.rs:47–56`. -/
def BlockHeader.toBytes (header : BlockHeader) : Bytes :=
  leBytes 4 header.version.toNat ++ header.prevBlockHash.bytes ++ header.merkleRoot.bytes ++
    leBytes 4 header.timestamp.toNat ++ leBytes 4 header.bits.toNat ++
    leBytes 4 header.nonce.toNat

/-- `BlockHeader::from_bytes`, `src/block_builder.rs:59–84`. -/
def BlockHeader.fromBytes (bytes : Bytes) : Option (Except String BlockHeader) :=
  if bytes.length ≠ 80 then
    some (.error s!"Invalid header size: expected 80, got {bytes.length}")
  else do
    let version ← fromLeBytes 32 bytes 0
    let prevBlockHash ← Hash32.copyFromSlice (← slice bytes 4 36)
    let merkleRoot ← Hash32.copyFromSlice (← slice bytes 36 68)
    let timestamp ← fromLeBytes 32 bytes 68
    let bits ← fromLeBytes 32 bytes 72
    let nonce ← fromLeBytes 32 bytes 76
    return .ok ⟨version, prevBlockHash, merkleRoot, timestamp, bits, nonce⟩

theorem BlockHeader.length_toBytes (header : BlockHeader) : header.toBytes.length = 80 := by
  simp only [toBytes, List.length_append, length_leBytes, Hash32.length_eq]

/-- A header is read back from its bytes. -/
theorem BlockHeader.fromBytes_toBytes (header : BlockHeader) :
    fromBytes header.toBytes = some (.ok header) := by
  have hv : fromLeBytes 32 header.toBytes 0 = some header.version := by
    simp only [toBytes, List.append_assoc]
    exact fromLeBytes_leBytes (by rfl) _ _
  have hp : slice header.toBytes 4 36 = some header.prevBlockHash.bytes := by
    simp (disch := simp [length_leBytes, Hash32.length_eq]) only [toBytes, List.append_assoc,
      slice_append_right, slice_append_left, length_leBytes]
    exact slice_self header.prevBlockHash.length_eq
  have hm : slice header.toBytes 36 68 = some header.merkleRoot.bytes := by
    simp (disch := simp [length_leBytes, Hash32.length_eq]) only [toBytes, List.append_assoc,
      slice_append_right, slice_append_left, length_leBytes, Hash32.length_eq]
    exact slice_self header.merkleRoot.length_eq
  have ht : fromLeBytes 32 header.toBytes 68 = some header.timestamp := by
    simp (disch := simp [length_leBytes, Hash32.length_eq]) only [toBytes, List.append_assoc,
      fromLeBytes_append_right, length_leBytes, Hash32.length_eq]
    exact fromLeBytes_leBytes (by rfl) _ _
  have hb : fromLeBytes 32 header.toBytes 72 = some header.bits := by
    simp (disch := simp [length_leBytes, Hash32.length_eq]) only [toBytes, List.append_assoc,
      fromLeBytes_append_right, length_leBytes, Hash32.length_eq]
    exact fromLeBytes_leBytes (by rfl) _ _
  have hn : fromLeBytes 32 header.toBytes 76 = some header.nonce := by
    simp (disch := simp [length_leBytes, Hash32.length_eq]) only [toBytes, List.append_assoc,
      fromLeBytes_append_right, length_leBytes, Hash32.length_eq]
    rw [← List.append_nil (leBytes 4 header.nonce.toNat)]
    exact fromLeBytes_leBytes (by rfl) _ _
  rw [fromBytes, if_neg (not_not_intro header.length_toBytes), hv, hp, hm, ht, hb, hn]
  simp only [Option.bind_eq_bind, Option.bind_some, Hash32.copyFromSlice_bytes]
  rfl
/-- `CoinbaseTransaction::to_bytes`, `src/block_builder.rs:139–147`. -/
def CoinbaseTransaction.toBytes (coinbase : CoinbaseTransaction) : Bytes :=
  leBytes 8 coinbase.blockHeight.toNat ++ utf8 coinbase.minerAddress ++ [0] ++
    leBytes 16 coinbase.rewardAmount.toNat ++ leBytes 16 coinbase.transactionFees.toNat

namespace Block

/-- `Block::to_bytes`, `src/block_builder.rs:196–203`. -/
def toBytes (block : Block) : Bytes :=
  block.header.toBytes ++ block.coinbase.toBytes ++ leBytes 8 block.height.toNat ++
    leBytes 8 block.timestamp.toNat

/-- `Block::to_hex`, `src/block_builder.rs:206–208`. -/
def toHex (hex : HexCrate) (block : Block) : String := hex.encode block.toBytes

/-- `block_reward`, `src/block_builder.rs:240–241`. -/
def blockReward : U128 := 50 * Ledger.mistPerSlvr.setWidth 128

/-- `Block::from_hex`, `src/block_builder.rs:211–262`. -/
def fromHex (hex : HexCrate) (hexStr : String) : Option (Except String Block) :=
  match hex.decode hexStr with
  | .error e => some (.error s!"Invalid hex: {e}")
  | .ok bytes =>
    if bytes.length < 80 + 8 + 8 then some (.error s!"Block too short: {bytes.length} bytes")
    else do
      match ← BlockHeader.fromBytes (← slice bytes 0 80) with
      | .error e => return .error e
      | .ok header =>
        let height ← fromLeBytes 64 bytes 80
        let timestamp ← fromLeBytes 64 bytes 88
        let minerAddress ←
          if 96 < bytes.length then (slice bytes 96 (min 116 bytes.length)).map hex.encode
          else some ""
        let fees ←
          if 116 < bytes.length then (fromLeBytes 64 bytes 116).map (BitVec.setWidth 128)
          else some 0
        return .ok ⟨header, ⟨height, minerAddress, blockReward, fees⟩, height, timestamp⟩

end Block
end SilverPow.Builder
