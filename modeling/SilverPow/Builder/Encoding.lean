import SilverPow.Builder.Block

/-!
# Different blocks have different bytes

The address of a coinbase stands between words of fixed sizes, so its ends are known without
a length before it, and a zero byte in it is no different from any other byte.
-/

namespace SilverPow.Builder

open SilverPow.Base

theorem BlockHeader.toBytes_injective : Function.Injective BlockHeader.toBytes := by
  intro header header' h
  have hb := header.fromBytes_toBytes
  rw [h, header'.fromBytes_toBytes] at hb
  exact (Except.ok.inj (Option.some.inj hb)).symm

/-- What `CoinbaseTransaction::to_bytes` writes behind the address. -/
theorem CoinbaseTransaction.suffixCode_amounts :
    SuffixCode fun amounts : U128 × U128 ↦
      [(0 : U8)] ++ (leBytes 16 amounts.1.toNat ++ leBytes 16 amounts.2.toNat) :=
  ((suffixCode_leBytes (n := 16) rfl).append (suffixCode_leBytes (n := 16) rfl)).text_append [0]

theorem CoinbaseTransaction.ext_of_toBytes {coinbase coinbase' : CoinbaseTransaction}
    (h : coinbase.toBytes = coinbase'.toBytes) : coinbase = coinbase' := by
  obtain ⟨height, address, reward, fees⟩ := coinbase
  obtain ⟨height', address', reward', fees'⟩ := coinbase'
  simp only [toBytes, List.append_assoc] at h
  rw [← List.append_assoc, ← List.append_assoc (leBytes 8 height'.toNat)] at h
  obtain ⟨hfront, hamounts⟩ := suffixCode_amounts (a := (reward, fees)) (b := (reward', fees')) h
  obtain ⟨hheight, haddress⟩ := List.append_inj hfront (by rw [length_leBytes, length_leBytes])
  obtain ⟨rfl, rfl⟩ := Prod.mk.inj hamounts
  rw [leBytes_injective rfl hheight, utf8_injective haddress]

/-- What `Block::to_bytes` writes behind the coinbase. -/
theorem Block.suffixCode_stamps :
    SuffixCode fun stamps : U64 × U64 ↦ leBytes 8 stamps.1.toNat ++ leBytes 8 stamps.2.toNat :=
  (suffixCode_leBytes (n := 8) rfl).append (suffixCode_leBytes (n := 8) rfl)

theorem Block.ext_of_toBytes {block block' : Block} (h : block.toBytes = block'.toBytes) :
    block = block' := by
  obtain ⟨header, coinbase, height, timestamp⟩ := block
  obtain ⟨header', coinbase', height', timestamp'⟩ := block'
  simp only [toBytes, List.append_assoc] at h
  rw [← List.append_assoc, ← List.append_assoc header'.toBytes] at h
  obtain ⟨hfront, hstamps⟩ :=
    suffixCode_stamps (a := (height, timestamp)) (b := (height', timestamp')) h
  obtain ⟨hheader, hcoinbase⟩ := List.append_inj hfront
    (by rw [BlockHeader.length_toBytes, BlockHeader.length_toBytes])
  obtain ⟨rfl, rfl⟩ := Prod.mk.inj hstamps
  rw [BlockHeader.toBytes_injective hheader, CoinbaseTransaction.ext_of_toBytes hcoinbase]

/-- Blocks with the same bytes are the same, and so are coinbases: what a coinbase's hash is
taken of belongs to no other coinbase. -/
theorem block_and_coinbase_toBytes_injective :
    Function.Injective Block.toBytes ∧ Function.Injective CoinbaseTransaction.toBytes :=
  ⟨fun _ _ ↦ Block.ext_of_toBytes, fun _ _ ↦ CoinbaseTransaction.ext_of_toBytes⟩

end SilverPow.Builder
