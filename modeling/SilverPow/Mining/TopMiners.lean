import SilverPow.Base.Ranking
import SilverPow.Mining.Payouts

/-!
# The miners with the most work

`src/mining_pool.rs:581–592`: the difficulties of the stored shares are summed for each miner,
and the miners with the largest sums are returned. The sums are kept in a hash table, so miners
with equal sums come in whatever order the table is iterated in.
-/

namespace SilverPow.Mining

open SilverPow.Base

/-- Add the difficulty of a share to the sum of its miner, `src/mining_pool.rs:587`. -/
def addDifficulty (minerShares : Table Bytes U64) (share : MinerShare) : Table Bytes U64 :=
  let (sum, minerShares) := minerShares.entryOrInsert share.minerId 0
  minerShares.insert share.minerId (sum + share.difficulty)

/-- The difficulties of some shares, summed for each miner, `src/mining_pool.rs:584–588`. -/
def minerShares (shares : List MinerShare) : Table Bytes U64 := shares.foldl addDifficulty ∅

/-- `get_top_miners`, `src/mining_pool.rs:581–592`, with the order in which a hash table is
iterated. -/
def MiningPool.getTopMiners (iterate : Table Bytes U64 → List (Bytes × U64)) (s : MiningPool)
    (limit : Nat) : List (Bytes × U64) :=
  firstBy (fun a b ↦ decide (b.2 ≤ a.2)) limit (iterate (minerShares s.shares))

/-- The miners of some shares. -/
def minerIds (shares : List MinerShare) : Finset Bytes := (shares.map (·.minerId)).toFinset

/-- The true sum of the difficulties of one miner's shares. -/
def workOf (shares : List MinerShare) (id : Bytes) : Nat :=
  work (shares.filter (·.minerId == id))

/-- At most so many of the miners of some shares, with their true sums: different ones, in
non-increasing order, and none that is left out has done more than one that is not. -/
structure TopMiners (shares : List MinerShare) (limit : Nat) (top : List (Bytes × U64)) :
    Prop where
  length_eq : top.length = min limit (minerIds shares).card
  nodup : (top.map Prod.fst).Nodup
  work_eq : ∀ miner ∈ top, miner.1 ∈ minerIds shares ∧ miner.2.toNat = workOf shares miner.1
  sorted : top.Pairwise fun a b ↦ b.2.toNat ≤ a.2.toNat
  left_out : ∀ id ∈ minerIds shares, id ∉ top.map Prod.fst →
    ∀ miner ∈ top, workOf shares id ≤ miner.2.toNat

/-! ### The sums -/

theorem minerShares_concat (shares : List MinerShare) (share : MinerShare) :
    minerShares (shares ++ [share]) = addDifficulty (minerShares shares) share :=
  List.foldl_concat ..

/-- Adding a share changes the sum of its own miner only. -/
theorem lookup_addDifficulty (m : Table Bytes U64) (share : MinerShare) (id : Bytes) :
    (addDifficulty m share).lookup id =
      if id = share.minerId then some ((m.lookup id).getD 0 + share.difficulty)
      else m.lookup id := by
  rw [show addDifficulty m share = (m.entryOrInsert share.minerId 0).2.insert share.minerId
    ((m.entryOrInsert share.minerId 0).1 + share.difficulty) from rfl]
  by_cases h : id = share.minerId
  · rw [if_pos h, h, Finmap.lookup_insert, Table.entryOrInsert_fst]
  · rw [if_neg h, Finmap.lookup_insert_of_ne _ h, Table.lookup_entryOrInsert_of_ne _ h]

theorem mem_minerIds_concat {shares : List MinerShare} {share : MinerShare} {id : Bytes} :
    id ∈ minerIds (shares ++ [share]) ↔ id ∈ minerIds shares ∨ id = share.minerId := by
  simp [minerIds, or_comm]

theorem filter_of_notMem_minerIds {shares : List MinerShare} {id : Bytes}
    (h : id ∉ minerIds shares) : shares.filter (·.minerId == id) = [] := by
  rw [List.filter_eq_nil_iff]
  intro share hs he
  exact h (List.mem_toFinset.mpr (List.mem_map.mpr ⟨share, hs, eq_of_beq he⟩))

/-- The table has the sum of each miner that has a share, and no others. -/
theorem lookup_minerShares (shares : List MinerShare) (id : Bytes) :
    (minerShares shares).lookup id =
      if id ∈ minerIds shares then
        some (((shares.filter (·.minerId == id)).map (·.difficulty)).sum)
      else none := by
  induction shares using List.reverseRecOn with
  | nil => rfl
  | append_singleton shares share ih =>
    rw [minerShares_concat, lookup_addDifficulty,
      Table.filter_key_concat MinerShare.minerId, ih]
    by_cases hid : id = share.minerId
    · have hold : (if id ∈ minerIds shares then
          some (((shares.filter (·.minerId == id)).map (·.difficulty)).sum) else none).getD 0 =
          ((shares.filter (·.minerId == id)).map (·.difficulty)).sum := by
        split
        · rfl
        · next hn => rw [filter_of_notMem_minerIds hn]; rfl
      rw [if_pos hid, if_pos hid, if_pos (mem_minerIds_concat.mpr (.inr hid)), hold,
        List.map_append, List.sum_append, List.map_singleton, List.sum_singleton]
    · have hmem : id ∈ minerIds (shares ++ [share]) ↔ id ∈ minerIds shares := by
        rw [mem_minerIds_concat, or_iff_left hid]
      simp only [if_neg hid, hmem]

theorem keys_minerShares (shares : List MinerShare) :
    (minerShares shares).keys = minerIds shares := by
  ext id
  rw [Finmap.mem_keys, ← Finmap.lookup_isSome, lookup_minerShares]
  split
  · next h => exact iff_of_true rfl h
  · next h => exact iff_of_false Bool.noConfusion h

/-- One miner's sum is part of the whole. -/
theorem workOf_le_work (shares : List MinerShare) (id : Bytes) :
    workOf shares id ≤ work shares := by
  have hle := sum_work_le {id} shares
  rwa [Finset.sum_singleton] at hle

/-- While the whole fits in a word, each stored sum is the true one. -/
theorem lookup_minerShares_iff {shares : List MinerShare} (h : work shares < 2 ^ 64)
    {id : Bytes} {sum : U64} :
    (minerShares shares).lookup id = some sum ↔
      id ∈ minerIds shares ∧ sum.toNat = workOf shares id := by
  have hsum : ((shares.filter (·.minerId == id)).map MinerShare.difficulty).sum.toNat =
      workOf shares id := by
    rw [toNat_sum_difficulty, ← workOf, Nat.mod_eq_of_lt]
    exact (workOf_le_work shares id).trans_lt h
  rw [lookup_minerShares]
  split
  · next hid => rw [Option.some_inj, ← BitVec.toNat_inj, hsum, eq_comm, and_iff_right hid]
  · next hid => exact iff_of_false (Option.some_ne_none sum).symm fun he ↦ hid he.1

/-! ### The selection -/

/-- Ranking by non-increasing sums is transitive. -/
theorem ranking_trans (a b c : Bytes × U64) (hab : decide (b.2 ≤ a.2) = true)
    (hbc : decide (c.2 ≤ b.2) = true) : decide (c.2 ≤ a.2) = true :=
  decide_eq_true (BitVec.le_trans (of_decide_eq_true hbc) (of_decide_eq_true hab))

/-- Of two miners, one can be ranked first. -/
theorem ranking_total (a b : Bytes × U64) :
    (decide (b.2 ≤ a.2) || decide (a.2 ≤ b.2)) = true := by
  rw [Bool.or_eq_true, decide_eq_true_iff, decide_eq_true_iff]
  exact BitVec.le_total b.2 a.2

/-- Whatever the order in which the table is iterated, the top miners are returned. -/
theorem getTopMiners_topMiners {iterate : Table Bytes U64 → List (Bytes × U64)}
    (s : MiningPool) (limit : Nat) (hwork : work s.shares < 2 ^ 64)
    (horder : (minerShares s.shares).Iterates (iterate (minerShares s.shares))) :
    TopMiners s.shares limit (s.getTopMiners iterate limit) := by
  have hentry (id : Bytes) (sum : U64) : (id, sum) ∈ iterate (minerShares s.shares) ↔
      id ∈ minerIds s.shares ∧ sum.toNat = workOf s.shares id :=
    (Table.mem_iterates_iff horder).trans (lookup_minerShares_iff hwork)
  constructor
  case length_eq =>
    rw [MiningPool.getTopMiners, length_firstBy, Table.length_of_iterates horder,
      keys_minerShares]
  case nodup => exact nodup_map_firstBy (Table.nodup_of_iterates horder)
  case work_eq => exact fun miner h ↦ (hentry miner.1 miner.2).mp (mem_of_mem_firstBy h)
  case sorted =>
    exact (pairwise_firstBy ranking_trans ranking_total limit _).imp fun h ↦
      BitVec.le_def.mp (of_decide_eq_true h)
  case left_out =>
    intro id hid hn miner hm
    have hlt : workOf s.shares id < 2 ^ 64 := (workOf_le_work s.shares id).trans_lt hwork
    have hsum : (BitVec.ofNat 64 (workOf s.shares id)).toNat = workOf s.shares id :=
      (BitVec.toNat_ofNat _ _).trans (Nat.mod_eq_of_lt hlt)
    have hle := le_of_notMem_firstBy ranking_trans ranking_total
      ((hentry id _).mpr ⟨hid, hsum⟩) (fun h ↦ hn (List.mem_map.mpr ⟨_, h, rfl⟩)) hm
    rw [← hsum]
    exact BitVec.le_def.mp (of_decide_eq_true hle)

/-- Two miners with equal sums, one of them from two shares. -/
def tiedPool : MiningPool :=
  { MiningPool.new .new with
    shares := [shareOf 1 5_000, shareOf 2 7_000, shareOf 1 2_000] }

/-- The second miner comes first. -/
def tiedOrder : List (Bytes × U64) :=
  [(List.replicate 20 2, 7_000), (List.replicate 20 1, 7_000)]

/-- One of two miners with equal sums is returned. -/
theorem getTopMiners_topMiners_tied :
    tiedPool.getTopMiners (fun _ ↦ tiedOrder) 1 = [(List.replicate 20 2, 7_000)] ∧
      TopMiners tiedPool.shares 1 (tiedPool.getTopMiners (fun _ ↦ tiedOrder) 1) :=
  ⟨by simp [MiningPool.getTopMiners, firstBy, tiedOrder, List.mergeSort],
    getTopMiners_topMiners tiedPool 1 (by decide +kernel) (by decide +kernel)⟩

end SilverPow.Mining
