import SilverPow.Builder.Block

/-!
# Blocks that their text gives back

`Block::to_hex` writes a coinbase of the length that the miner's address gives it;
`Block::from_hex` reads the timestamp, the address and the fees at fixed offsets, all of
which fall into that address or behind it. The decoder never fails on what the encoder
wrote, and gives the block back only for ten addresses, whose own digits it reads as the
timestamp, the address and the fees.
-/

namespace SilverPow.Builder

open SilverPow.Base

namespace Block

/-- What `to_bytes` writes behind the header and the height of the coinbase. -/
def payload (block : Block) : Bytes :=
  utf8 block.coinbase.minerAddress ++ (0 :: (leBytes 16 block.coinbase.rewardAmount.toNat ++
    (leBytes 16 block.coinbase.transactionFees.toNat ++ (leBytes 8 block.height.toNat ++
      leBytes 8 block.timestamp.toNat))))

theorem toBytes_eq (block : Block) :
    block.toBytes = block.header.toBytes ++
      (leBytes 8 block.coinbase.blockHeight.toNat ++ block.payload) := by
  simp only [toBytes, CoinbaseTransaction.toBytes, payload, List.append_assoc, List.cons_append,
    List.nil_append]

theorem le_length_payload (block : Block) : 49 ≤ block.payload.length := by
  simp only [payload, List.length_append, List.length_cons, length_leBytes]
  omega

theorem length_toBytes (block : Block) :
    block.toBytes.length = 88 + block.payload.length := by
  rw [toBytes_eq, List.length_append, List.length_append, BlockHeader.length_toBytes,
    length_leBytes]
  omega

/-- A range of the bytes behind the height of the coinbase. -/
theorem slice_toBytes {block : Block} {i j : Nat} (hi : 88 ≤ i) (hij : i ≤ j)
    (hj : j ≤ 88 + block.payload.length) :
    slice block.toBytes i j = some ((block.payload.drop (i - 88)).take (j - i)) := by
  have h8 : (leBytes 8 block.coinbase.blockHeight.toNat).length = 8 := length_leBytes _ _
  have h80 := block.header.length_toBytes
  rw [toBytes_eq, slice_append_right (by omega) (by omega),
    slice_append_right (by omega) (by omega), h8, h80, Nat.sub_sub, Nat.sub_sub,
    slice_of_le (by omega) (by omega),
    show j - (80 + 8) - (i - (80 + 8)) = j - i by omega]

/-- The block that `from_hex` makes of the bytes of a block. -/
def reread (hex : HexCrate) (block : Block) : Block where
  header := block.header
  coinbase :=
    { blockHeight := block.coinbase.blockHeight
      minerAddress := hex.encode ((block.payload.drop 8).take 20)
      rewardAmount := blockReward
      transactionFees := (BitVec.ofNat 64 (leNat ((block.payload.drop 28).take 8))).setWidth 128 }
  height := block.coinbase.blockHeight
  timestamp := BitVec.ofNat 64 (leNat (block.payload.take 8))

/-- The decoder accepts whatever the encoder wrote. -/
theorem fromHex_toHex {hex : HexCrate} (h : hex.Lawful) (block : Block) :
    fromHex hex (block.toHex hex) = some (.ok (block.reread hex)) := by
  have hp := block.le_length_payload
  have hl := block.length_toBytes
  have hh : slice block.toBytes 0 80 = some block.header.toBytes := by
    rw [toBytes_eq, slice_append_left (by rw [BlockHeader.length_toBytes]),
      slice_self (BlockHeader.length_toBytes _)]
  have hc : fromLeBytes 64 block.toBytes 80 = some block.coinbase.blockHeight := by
    rw [toBytes_eq, fromLeBytes_append_right (by rw [BlockHeader.length_toBytes]),
      BlockHeader.length_toBytes]
    exact fromLeBytes_leBytes (by rfl) _ _
  have ht : fromLeBytes 64 block.toBytes 88 =
      some (BitVec.ofNat 64 (leNat (block.payload.take 8))) := by
    rw [fromLeBytes, slice_toBytes (by omega) (by omega) (by omega)]
    rfl
  have ha : slice block.toBytes 96 (min 116 block.toBytes.length) =
      some ((block.payload.drop 8).take 20) := by
    rw [hl, Nat.min_eq_left (by omega)]
    exact slice_toBytes (by omega) (by omega) (by omega)
  have hf : fromLeBytes 64 block.toBytes 116 =
      some (BitVec.ofNat 64 (leNat ((block.payload.drop 28).take 8))) := by
    rw [fromLeBytes, slice_toBytes (by omega) (by omega) (by omega)]
    rfl
  unfold fromHex toHex
  rw [h.decode_encode]
  simp only [hh, hc, ht, ha, hf, BlockHeader.fromBytes_toBytes, Option.bind_eq_bind,
    Option.bind_some, Option.map_some]
  rw [if_neg (by omega), if_pos (by omega), if_pos (by omega)]
  rfl

/-- An address of forty digits `3`, the sixteenth of which may be any decimal digit. -/
def threes (d : Nat) : String :=
  String.ofList (List.replicate 15 '3' ++ d.digitChar :: List.replicate 24 '3')

/-- The bytes whose hexadecimal text is that address. -/
def threesBytes (d : Nat) : Bytes :=
  List.replicate 7 0x33 ++ Hex.digitByte d :: List.replicate 12 0x33

/-- The blocks whose fields are what the decoder finds in their own address. -/
structure Reproducible (block : Block) : Prop where
  height_eq : block.height = block.coinbase.blockHeight
  timestamp_eq : block.timestamp = 0x3333333333333333
  minerAddress_eq : ∃ d < 10, block.coinbase.minerAddress = threes d
  rewardAmount_eq : block.coinbase.rewardAmount = 5_000_000_000
  transactionFees_eq : block.coinbase.transactionFees = 0x3333333333333333

end Block

private def highDigit (b : U8) : U8 := Hex.digitByte (b.toNat / 16)

private def lowDigit (b : U8) : U8 := Hex.digitByte (b.toNat % 16)

/-- The digits of the code of a digit are decimal. -/
private theorem digits_of_digit {n : Nat} (h : n < 16) :
    (∃ m < 10, highDigit (Hex.digitByte n) = Hex.digitByte m) ∧
      ∃ m < 10, lowDigit (Hex.digitByte n) = Hex.digitByte m := by
  revert n
  decide

/-- The digits of the code of a decimal digit are `3` and that digit. -/
private theorem digits_of_decimal {n : Nat} (h : n < 10) :
    highDigit (Hex.digitByte n) = 0x33 ∧ lowDigit (Hex.digitByte n) = Hex.digitByte n := by
  revert n
  decide

/-- Twenty bytes that are the digits of ten of them, from the fifth on. -/
private structure Window (g : Nat → U8) : Prop where
  high (k : Nat) : k < 10 → g (2 * k) = highDigit (g (4 + k))
  low (k : Nat) : k < 10 → g (2 * k + 1) = lowDigit (g (4 + k))

section Window

variable {g : Nat → U8} {i k : Nat}

private theorem Window.exists_digit (h : Window g) (hi : i < 20) :
    ∃ n < 16, g i = Hex.digitByte n := by
  have hlt (b : U8) : b.toNat / 16 < 16 ∧ b.toNat % 16 < 16 := by
    have := b.isLt
    omega
  rcases Nat.even_or_odd' i with ⟨k, rfl | rfl⟩
  · exact ⟨_, (hlt _).1, h.high k (by omega)⟩
  · exact ⟨_, (hlt _).2, h.low k (by omega)⟩

private theorem Window.exists_decimal (h : Window g) (hi : i < 20) :
    ∃ n < 10, g i = Hex.digitByte n := by
  rcases Nat.even_or_odd' i with ⟨k, rfl | rfl⟩
  · obtain ⟨n, hn, hg⟩ := h.exists_digit (i := 4 + k) (by omega)
    rw [h.high k (by omega), hg]
    exact (digits_of_digit hn).1
  · obtain ⟨n, hn, hg⟩ := h.exists_digit (i := 4 + k) (by omega)
    rw [h.low k (by omega), hg]
    exact (digits_of_digit hn).2

private theorem Window.even (h : Window g) (hk : k < 10) : g (2 * k) = 0x33 := by
  obtain ⟨n, hn, hg⟩ := h.exists_decimal (i := 4 + k) (by omega)
  rw [h.high k hk, hg, (digits_of_decimal hn).1]

private theorem Window.odd (h : Window g) (hk : k < 10) : g (2 * k + 1) = g (4 + k) := by
  obtain ⟨n, hn, hg⟩ := h.exists_decimal (i := 4 + k) (by omega)
  rw [h.low k hk, hg, (digits_of_decimal hn).2]

/-- All the bytes but the eighth are the code of `3`. The induction is on the distance to the
eighth: a byte at an odd place is equal to one at half that distance. -/
private theorem Window.eq_three (h : Window g) (n : Nat) :
    ∀ i < 20, i ≠ 7 → i - 7 + (7 - i) ≤ n → g i = 0x33 := by
  induction n with
  | zero =>
    intro i _ hne hd
    omega
  | succ n ih =>
    intro i hi hne hd
    rcases Nat.even_or_odd' i with ⟨k, rfl | rfl⟩
    · exact h.even (by omega)
    · rw [h.odd (by omega)]
      exact ih _ (by omega) (by omega) (by omega)

end Window

private theorem getElem?_threesBytes {d i : Nat} (hi : i < 20) (hne : i ≠ 7) :
    (Block.threesBytes d)[i]? = some 0x33 := by
  rw [Block.threesBytes]
  rcases Nat.lt_or_gt_of_ne hne with h | h
  · rw [List.getElem?_append_left (by rwa [List.length_replicate]),
      List.getElem?_replicate_of_lt h]
  · rw [List.getElem?_append_right (by rw [List.length_replicate]; omega), List.length_replicate,
      show i - 7 = i - 8 + 1 by omega, List.getElem?_cons_succ,
      List.getElem?_replicate_of_lt (by omega)]

private theorem getElem?_eq_getD {bs : Bytes} (hl : bs.length = 20) {i : Nat} (hi : i < 20) :
    bs[i]? = some (bs.getD i 0) := by
  rw [List.getD_eq_getElem?_getD, List.getElem?_eq_getElem (by omega), Option.getD_some]

/-- Twenty bytes that stand from the ninth place on in their own hexadecimal text. -/
private theorem window_of_pairs {bs : Bytes} (hl : bs.length = 20)
    (hget : ∀ i < 20, bs[i]? = (bs.flatMap fun b ↦ [highDigit b, lowDigit b])[8 + i]?) :
    Window fun i ↦ bs.getD i 0 := by
  constructor
  · intro k hk
    apply Option.some_inj.mp
    rw [← getElem?_eq_getD hl (by omega), hget _ (by omega),
      show 8 + 2 * k = 2 * (4 + k) by omega, Hex.getElem?_pairs_even,
      getElem?_eq_getD hl (by omega), Option.map_some]
  · intro k hk
    apply Option.some_inj.mp
    rw [← getElem?_eq_getD hl (by omega), hget _ (by omega),
      show 8 + (2 * k + 1) = 2 * (4 + k) + 1 by omega, Hex.getElem?_pairs_odd,
      getElem?_eq_getD hl (by omega), Option.map_some]

/-- Only the eighth of such bytes is free, and it is the code of a decimal digit. -/
private theorem Window.exists_threesBytes {bs : Bytes} (hl : bs.length = 20)
    (h : Window fun i ↦ bs.getD i 0) : ∃ d < 10, bs = Block.threesBytes d := by
  obtain ⟨d, hd, h7⟩ := h.exists_decimal (i := 7) (by omega)
  refine ⟨d, hd, List.ext_getElem? fun i ↦ ?_⟩
  by_cases hi : i < 20
  · by_cases hi7 : i = 7
    · subst hi7
      rw [getElem?_eq_getD hl hi, h7]
      rfl
    · rw [getElem?_eq_getD hl hi, h.eq_three _ i hi hi7 le_rfl, getElem?_threesBytes hi hi7]
  · rw [List.getElem?_eq_none (by omega), List.getElem?_eq_none]
    simp only [Block.threesBytes, List.length_append, List.length_cons, List.length_replicate]
    omega

/-- A text that is the hexadecimal reading of its own bytes from the ninth on. -/
private theorem eq_threes {s : String} {rest : Bytes} (hlen : 28 ≤ (utf8 s ++ rest).length)
    (h : Hex.base16.encode (((utf8 s ++ rest).drop 8).take 20) = s) :
    ∃ d < 10, s = Hex.base16.encode (Block.threesBytes d) := by
  generalize hbs : ((utf8 s ++ rest).drop 8).take 20 = bs at h
  have hl : bs.length = 20 := by
    rw [← hbs, List.length_take, List.length_drop]
    omega
  have hu : utf8 s = bs.flatMap fun b ↦ [highDigit b, lowDigit b] := by
    rw [← h, Hex.utf8_encode]
    rfl
  have hget (i : Nat) (hi : i < 20) :
      bs[i]? = (bs.flatMap fun b ↦ [highDigit b, lowDigit b])[8 + i]? := by
    rw [← hu, ← hbs, List.getElem?_take_of_lt hi, List.getElem?_drop, List.getElem?_append_left]
    rw [hu, Hex.length_pairs, hl]
    omega
  obtain ⟨d, hd, rfl⟩ := (window_of_pairs hl hget).exists_threesBytes hl
  exact ⟨d, hd, h.symm⟩

private theorem encode_threesBytes {d : Nat} (hd : d < 10) :
    Hex.base16.encode (Block.threesBytes d) = Block.threes d := by
  apply congrArg String.ofList
  revert d
  decide

/-- The digits of such an address, where the decoder reads them. -/
private theorem digits_threesBytes {d : Nat} (hd : d < 10) :
    let digits := (Block.threesBytes d).flatMap Hex.digitBytes
    (digits.drop 8).take 20 = Block.threesBytes d ∧
      BitVec.ofNat 64 (leNat (digits.take 8)) = 0x3333333333333333 ∧
      BitVec.ofNat 64 (leNat ((digits.drop 28).take 8)) = 0x3333333333333333 := by
  revert d
  decide

namespace Block

/-- The decoder's fields of a block with such an address. -/
theorem reread_of_threes {hex : HexCrate} (h : hex.Lawful) {block : Block} {d : Nat} (hd : d < 10)
    (ha : block.coinbase.minerAddress = threes d) :
    block.reread hex = ⟨block.header, ⟨block.coinbase.blockHeight, threes d, 5_000_000_000,
      0x3333333333333333⟩, block.coinbase.blockHeight, 0x3333333333333333⟩ := by
  obtain ⟨hw, ht, hf⟩ := digits_threesBytes hd
  have hu : utf8 block.coinbase.minerAddress = (threesBytes d).flatMap Hex.digitBytes := by
    rw [ha, ← encode_threesBytes hd, Hex.utf8_encode]
  have hl : ((threesBytes d).flatMap Hex.digitBytes).length = 40 := by
    rw [show Hex.digitBytes = fun b ↦ [highDigit b, lowDigit b] from rfl, Hex.length_pairs]
    rfl
  have hcut (start n : Nat) (hs : start + n ≤ 40) : (block.payload.drop start).take n =
      (((threesBytes d).flatMap Hex.digitBytes).drop start).take n := by
    rw [payload, hu, take_drop_append (by omega)]
  have ht0 : block.payload.take 8 = ((threesBytes d).flatMap Hex.digitBytes).take 8 :=
    hcut 0 8 (by omega)
  rw [reread, hcut 8 20 (by omega), hcut 28 8 (by omega), ht0, hw, ht, hf, h.encode_eq,
    encode_threesBytes hd]
  rfl

/-- Exactly the reproducible blocks are given back. -/
theorem fromHex_toHex_iff {hex : HexCrate} (h : hex.Lawful) (block : Block) :
    fromHex hex (block.toHex hex) = some (.ok block) ↔ block.Reproducible := by
  rw [fromHex_toHex h]
  constructor
  · intro he
    have hr : block.reread hex = block := Except.ok.inj (Option.some.inj he)
    have hp := block.le_length_payload
    have ha : Hex.base16.encode ((block.payload.drop 8).take 20) = block.coinbase.minerAddress := by
      rw [← h.encode_eq]
      exact congrArg (·.coinbase.minerAddress) hr
    obtain ⟨d, hd, haddr⟩ := eq_threes (by rw [← payload]; omega) ha
    rw [encode_threesBytes hd] at haddr
    rw [reread_of_threes h hd haddr] at hr
    exact
      { height_eq := (congrArg (·.height) hr).symm
        timestamp_eq := (congrArg (·.timestamp) hr).symm
        minerAddress_eq := ⟨d, hd, haddr⟩
        rewardAmount_eq := (congrArg (·.coinbase.rewardAmount) hr).symm
        transactionFees_eq := (congrArg (·.coinbase.transactionFees) hr).symm }
  · intro hr
    obtain ⟨d, hd, ha⟩ := hr.minerAddress_eq
    rw [reread_of_threes h hd ha, ← ha, ← hr.rewardAmount_eq, ← hr.transactionFees_eq,
      ← hr.timestamp_eq]
    exact congrArg (fun height ↦ some (Except.ok
      (⟨block.header, block.coinbase, height, block.timestamp⟩ : Block))) hr.height_eq.symm

/-- The header of the tests, with no hash. -/
def sampleHeader : BlockHeader where
  version := 1
  prevBlockHash := ⟨List.replicate 32 0, by rw [List.length_replicate]⟩
  merkleRoot := ⟨List.replicate 32 0, by rw [List.length_replicate]⟩
  timestamp := 1000
  bits := 0x207fffff
  nonce := 12345

/-- A reproducible block. -/
def sample : Block where
  header := sampleHeader
  coinbase := ⟨1, threes 7, 5_000_000_000, 0x3333333333333333⟩
  height := 1
  timestamp := 0x3333333333333333

/-- The usual codec gives that block back. -/
theorem fromHex_toHex_sample :
    fromHex HexCrate.base16 (sample.toHex HexCrate.base16) = some (.ok sample) :=
  (fromHex_toHex_iff HexCrate.lawful_base16 sample).mpr
    ⟨rfl, rfl, ⟨7, by decide, rfl⟩, rfl, rfl⟩

/-- A block for the address `miner` comes back with that text read as its timestamp. -/
theorem miner_not_given_back :
    let block : Block := ⟨sampleHeader, ⟨1, "miner", 5_000_000_000, 100_000⟩, 1, 1000⟩
    fromHex HexCrate.base16 (block.toHex HexCrate.base16) ≠ some (.ok block) := by
  intro block he
  rw [fromHex_toHex HexCrate.lawful_base16] at he
  have ht := congrArg (·.timestamp) (Except.ok.inj (Option.some.inj he))
  revert ht
  decide

end Block
end SilverPow.Builder
