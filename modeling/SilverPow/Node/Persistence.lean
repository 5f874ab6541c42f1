import SilverPow.Node.State

/-!
# Saving the state and loading it again

A save puts the four fields one after another, so a save that stops leaves a database with the
first fields of the new state and the other fields of the old one. A load yields one of the two
states exactly if the fields that were put, or those that were not, are the same in both.
-/

namespace SilverPow.Node

open SilverPow.Base

/-- A field that is saved. -/
inductive SavedField where
  | blockCount (count : U64)
  | difficulty (difficulty : U64)
  | miningAddress (address : String)
  | balances (balances : Table String U128)
  deriving DecidableEq

/-- The fields that are saved, in the order of the puts. -/
def BlockchainState.saved (state : BlockchainState) : List SavedField :=
  [.blockCount state.blockCount, .difficulty state.difficulty,
    .miningAddress state.miningAddress, .balances state.balances]

/-- The puts of a save; without a text of the balances there are only three. -/
def writes (json : BalancesJson) (state : BlockchainState) (order : List (String × U128)) :
    List (String × Bytes) :=
  [("blockchain:block_count", leBytes 8 state.blockCount.toNat),
    ("blockchain:difficulty", leBytes 8 state.difficulty.toNat),
    ("blockchain:mining_address", utf8 state.miningAddress)] ++
  match json.toString order with
  | .error _ => []
  | .ok balancesJson => [("blockchain:balances", utf8 balancesJson)]

/-- The number of fields that a save has put when it stops. -/
def putsDone (json : BalancesJson) (order : List (String × U128)) (outcomes : List PutOutcome) :
    Nat :=
  min (DiskWriter.doneCount outcomes) (if (json.toString order).isOk then 4 else 3)

/-- A load yields the saved fields of a state. -/
def Loads (json : BalancesJson) (db : Metadata) (state : BlockchainState) : Prop :=
  ∃ loaded, loadBlockchainStateFromDb json db = .ok loaded ∧ loaded.saved = state.saved

section Save

variable {json : BalancesJson} {state : BlockchainState} {order : List (String × U128)}

/-- A save puts its fields until it stops. -/
theorem puts_save : (saveBlockchainStateToDb json state order).Puts (writes json state order) := by
  unfold saveBlockchainStateToDb writes
  apply DiskWriter.puts_bind
  apply DiskWriter.puts_bind
  apply DiskWriter.puts_bind
  cases json.toString order with
  | error e => exact DiskWriter.puts_throw _
  | ok balancesJson => exact DiskWriter.puts_put _ _

/-- A save that finishes has put all four fields. -/
theorem putsDone_of_ok {disk : Disk String Bytes}
    (h : (saveBlockchainStateToDb json state order disk).1 = .ok ()) :
    putsDone json order disk.outcomes = 4 := by
  obtain ⟨disk₁, h, h₁⟩ := DiskWriter.ok_of_bind h
  obtain ⟨disk₂, h, h₂⟩ := DiskWriter.ok_of_bind h
  obtain ⟨disk₃, h, h₃⟩ := DiskWriter.ok_of_bind h
  cases htext : json.toString order with
  | error e =>
    rw [htext] at h
    cases h
  | ok balancesJson =>
    rw [htext] at h
    have := DiskWriter.ok_of_put h
    rw [putsDone, htext]
    change min _ 4 = 4
    omega

/-- The four keys are different. -/
theorem nodup_writes : ((writes json state order).map Prod.fst).Nodup := by
  unfold writes
  cases json.toString order with
  | error e => simp
  | ok balancesJson => simp

/-- A key after a save: the new value if its put has taken effect, and the old one if not. -/
theorem lookup_save (db : Metadata) (outcomes : List PutOutcome) {i : Nat} {key : String}
    {value : Bytes} (h : (writes json state order)[i]? = some (key, value)) :
    (saveBlockchainStateToDb json state order ⟨db, outcomes⟩).2.store.lookup key =
      if i < DiskWriter.doneCount outcomes then some value else db.lookup key := by
  rw [puts_save, Table.lookup_putAll_take _ nodup_writes _ h]

/-- One of the first three keys after a save over a database that has it. -/
theorem lookup_save_of_lt {db : Metadata} (outcomes : List PutOutcome) {i : Nat} (hi : i < 3)
    {key : String} {value old : Bytes} (h : (writes json state order)[i]? = some (key, value))
    (hold : db.lookup key = some old) :
    (saveBlockchainStateToDb json state order ⟨db, outcomes⟩).2.store.lookup key =
      some (if i < putsDone json order outcomes then value else old) := by
  have hdone : i < DiskWriter.doneCount outcomes ↔ i < putsDone json order outcomes := by
    unfold putsDone
    split <;> omega
  rw [lookup_save db outcomes h, hold]
  simp only [hdone]
  split <;> rfl

/-- Without a text of the balances their key keeps its value. -/
theorem lookup_save_of_error (db : Metadata) (outcomes : List PutOutcome) {e : String}
    (h : json.toString order = .error e) :
    (saveBlockchainStateToDb json state order ⟨db, outcomes⟩).2.store.lookup
      "blockchain:balances" = db.lookup "blockchain:balances" := by
  rw [puts_save]
  apply Table.lookup_putAll_of_notMem
  intro hmem
  have := List.map_subset _ (List.take_subset _ _) hmem
  simp [writes, h] at this

end Save

/-! ### What a load finds -/

/-- The database holds the saved fields of a state. -/
structure Encodes (json : BalancesJson) (db : Metadata) (state : BlockchainState) : Prop where
  blockCount : db.lookup "blockchain:block_count" = some (leBytes 8 state.blockCount.toNat)
  difficulty : db.lookup "blockchain:difficulty" = some (leBytes 8 state.difficulty.toNat)
  miningAddress : db.lookup "blockchain:mining_address" = some (utf8 state.miningAddress)
  balances : ∃ text, db.lookup "blockchain:balances" = some (utf8 text) ∧
    json.fromStr text = .ok state.balances

/-- The state that a load makes of the saved fields. -/
def BlockchainState.reloaded (state : BlockchainState) : BlockchainState :=
  { state with hashrate := 0, miningEnabled := false, blocks := ∅ }

section Load

variable {json : BalancesJson} {db : Metadata} {state old new : BlockchainState}
  {order : List (String × U128)}

/-- A word is loaded from its bytes. -/
theorem loadWord_of_lookup {key missing invalid : String} {x : U64}
    (h : db.lookup key = some (leBytes 8 x.toNat)) : loadWord db key missing invalid = .ok x := by
  unfold loadWord
  rw [h]
  dsimp only
  rw [if_pos (length_leBytes 8 _), ofNat_leNat_leBytes (w := 64) (n := 8) rfl]

/-- A load finds the saved fields. -/
theorem load_of_encodes (h : Encodes json db state) :
    loadBlockchainStateFromDb json db = .ok state.reloaded := by
  obtain ⟨text, hlookup, htext⟩ := h.balances
  have haddress : loadMiningAddress db = .ok state.miningAddress := by
    rw [loadMiningAddress, h.miningAddress]
    dsimp only
    rw [fromUtf8_utf8]
  have hbalances : loadBalances json db = state.balances := by
    rw [loadBalances, hlookup]
    dsimp only
    rw [fromUtf8_utf8]
    dsimp only
    rw [htext]
  unfold loadBlockchainStateFromDb
  rw [loadWord_of_lookup h.blockCount, loadWord_of_lookup h.difficulty, haddress, hbalances]
  rfl

/-- A load yields the saved fields of a state exactly if they are those that the database
holds. -/
theorem loads_iff (h : Encodes json db state) : Loads json db old ↔ state.saved = old.saved := by
  rw [Loads, load_of_encodes h]
  constructor
  · rintro ⟨loaded, hloaded, hsaved⟩
    cases hloaded
    exact hsaved
  · intro hsaved
    exact ⟨_, rfl, hsaved⟩

/-- The old state with the first `n` fields of the new one. -/
def stoppedState (old new : BlockchainState) (n : Nat) : BlockchainState :=
  { old with
    blockCount := if 0 < n then new.blockCount else old.blockCount
    difficulty := if 1 < n then new.difficulty else old.difficulty
    miningAddress := if 2 < n then new.miningAddress else old.miningAddress
    balances := if 3 < n then new.balances else old.balances }

/-- Its saved fields. -/
theorem saved_stoppedState (old new : BlockchainState) (n : Nat) :
    (stoppedState old new n).saved = mixed old.saved new.saved n := by
  match n with
  | 0 => rfl
  | 1 => rfl
  | 2 => rfl
  | 3 => rfl
  | n + 4 => simp [stoppedState, mixed, BlockchainState.saved]

/-- After a save that stops, the database holds the old state with the first fields of the new
one. -/
theorem encodes_stopped (hjson : json.Lawful) (hn : new.balances.Iterates order)
    (h : Encodes json db old) (outcomes : List PutOutcome) :
    Encodes json (saveBlockchainStateToDb json new order ⟨db, outcomes⟩).2.store
      (stoppedState old new (putsDone json order outcomes)) := by
  constructor
  · rw [lookup_save_of_lt outcomes (i := 0) (by decide) rfl h.blockCount, stoppedState]
    split_ifs <;> rfl
  · rw [lookup_save_of_lt outcomes (i := 1) (by decide) rfl h.difficulty, stoppedState]
    split_ifs <;> rfl
  · rw [lookup_save_of_lt outcomes (i := 2) (by decide) rfl h.miningAddress, stoppedState]
    split_ifs <;> rfl
  · obtain ⟨text, hlookup, htext⟩ := h.balances
    cases hnew : json.toString order with
    | error e =>
      have hlt : ¬3 < putsDone json order outcomes := by
        rw [putsDone, hnew]
        change ¬3 < min _ 3
        omega
      refine ⟨text, ?_, ?_⟩
      · rw [lookup_save_of_error db outcomes hnew, hlookup]
      · rw [htext, stoppedState, if_neg hlt]
    | ok newText =>
      have hlt : 3 < DiskWriter.doneCount outcomes ↔ 3 < putsDone json order outcomes := by
        rw [putsDone, hnew]
        change _ ↔ 3 < min _ 4
        omega
      have hget : (writes json new order)[3]? =
          some ("blockchain:balances", utf8 newText) := by
        rw [writes, hnew]
        rfl
      rw [lookup_save db outcomes hget, hlookup, stoppedState]
      simp only [hlt]
      split
      · exact ⟨newText, rfl, hjson _ _ _ hn hnew⟩
      · exact ⟨text, rfl, htext⟩

/-- A save that finishes leaves the saved fields of its state, whatever was there before. -/
theorem encodes_of_ok (hjson : json.Lawful) (hs : state.balances.Iterates order)
    {outcomes : List PutOutcome}
    (h : (saveBlockchainStateToDb json state order ⟨db, outcomes⟩).1 = .ok ()) :
    Encodes json (saveBlockchainStateToDb json state order ⟨db, outcomes⟩).2.store state := by
  have hdone := putsDone_of_ok h
  have hfour : 4 ≤ DiskWriter.doneCount outcomes := by
    rw [← hdone]
    exact Nat.min_le_left _ _
  constructor
  · rw [lookup_save db outcomes (i := 0) rfl, if_pos (by omega)]
  · rw [lookup_save db outcomes (i := 1) rfl, if_pos (by omega)]
  · rw [lookup_save db outcomes (i := 2) rfl, if_pos (by omega)]
  · cases htext : json.toString order with
    | error e =>
      rw [putsDone, htext] at hdone
      change min _ 3 = 4 at hdone
      omega
    | ok text =>
      have hget : (writes json state order)[3]? = some ("blockchain:balances", utf8 text) := by
        rw [writes, htext]
        rfl
      rw [lookup_save db outcomes hget, if_pos (by omega)]
      exact ⟨text, rfl, hjson _ _ _ hs htext⟩

/-! ### Which stops are atomic -/

/-- The states that a load can yield after a save that stops. -/
theorem loads_stopped_iff (hjson : json.Lawful) (hn : new.balances.Iterates order)
    (h : Encodes json db old) (outcomes : List PutOutcome) (state : BlockchainState) :
    Loads json (saveBlockchainStateToDb json new order ⟨db, outcomes⟩).2.store state ↔
      mixed old.saved new.saved (putsDone json order outcomes) = state.saved := by
  rw [loads_iff (encodes_stopped hjson hn h outcomes), saved_stoppedState]

/-- After a save of the new state over a saved old one, a load yields the old or the new
fields, exactly if the fields that were put before the stop are the same in both states or
those that were not put are. -/
theorem stop_atomic_iff (hjson : json.Lawful) {order' : List (String × U128)}
    (ho : old.balances.Iterates order) (hn : new.balances.Iterates order')
    {outcomes₀ : List PutOutcome}
    (hsaved : (saveBlockchainStateToDb json old order ⟨db, outcomes₀⟩).1 = .ok ())
    (outcomes : List PutOutcome) :
    let saved := (saveBlockchainStateToDb json old order ⟨db, outcomes₀⟩).2.store
    let stopped := (saveBlockchainStateToDb json new order' ⟨saved, outcomes⟩).2.store
    let n := putsDone json order' outcomes
    Loads json stopped old ∨ Loads json stopped new ↔
      new.saved.take n = old.saved.take n ∨ old.saved.drop n = new.saved.drop n := by
  dsimp only
  have h := encodes_of_ok hjson ho hsaved
  rw [loads_stopped_iff hjson hn h, loads_stopped_iff hjson hn h, mixed_eq_old_iff,
    mixed_eq_new_iff]

/-- A save is atomic at every stop exactly if at most one of the four fields changes. -/
theorem every_stop_atomic_iff (hjson : json.Lawful) (hn : new.balances.Iterates order)
    {text : String} (htext : json.toString order = .ok text) (h : Encodes json db old) :
    (∀ outcomes,
      let stopped := (saveBlockchainStateToDb json new order ⟨db, outcomes⟩).2.store
      Loads json stopped old ∨ Loads json stopped new) ↔
      ∀ i j : Nat, i < j →
        old.saved[i]? = new.saved[i]? ∨ old.saved[j]? = new.saved[j]? := by
  rw [← mixed_atomic_iff]
  simp only [loads_stopped_iff hjson hn h]
  constructor
  · intro hall n
    have hdone : putsDone json order (List.replicate n .done) = min n 4 := by
      rw [putsDone, htext, DiskWriter.doneCount, List.takeWhile_replicate]
      simp [Except.isOk, Except.toBool]
    have hmixed : mixed old.saved new.saved (min n 4) = mixed old.saved new.saved n := by
      obtain hle | hle := Nat.le_total n 4
      · rw [Nat.min_eq_left hle]
      · have hall : mixed old.saved new.saved n = new.saved := mixed_of_length_le hle hle
        rw [Nat.min_eq_right hle, hall]
        rfl
    rw [← hmixed, ← hdone]
    exact hall _
  · intro hall outcomes
    exact hall _

end Load

/-- A node that has found its first block. -/
def firstBlockState : BlockchainState :=
  { genesisState with
    blockCount := 2
    balances := Finmap.insert "miner" 50_000_000_000 ∅
    blocks := Finmap.insert 1 "miner" ∅ }

/-- Its balances. -/
def firstBlockOrder : List (String × U128) := [("miner", 50_000_000_000)]

theorem iterates_genesisState : genesisState.balances.Iterates [] := rfl

theorem iterates_firstBlockState : firstBlockState.balances.Iterates firstBlockOrder := rfl

/-- `serde_json` on the balances of the two states. -/
def sampleJson : BalancesJson where
  toString order :=
    if order = [] then .ok "\x7b\x7d"
    else if order = firstBlockOrder then .ok "\x7b\"miner\":50000000000\x7d"
    else .error "unknown map"
  fromStr text :=
    if text = "\x7b\x7d" then .ok ∅
    else if text = "\x7b\"miner\":50000000000\x7d" then .ok firstBlockState.balances
    else .error "unknown text"

theorem lawful_sampleJson : sampleJson.Lawful := by
  intro balances order text hi htext
  unfold sampleJson at htext ⊢
  dsimp only at htext ⊢
  split at htext
  · next h =>
    subst h
    cases htext
    rw [Table.eq_of_iterates hi iterates_genesisState]
    rfl
  · split at htext
    · next h =>
      subst h
      cases htext
      rw [Table.eq_of_iterates hi iterates_firstBlockState]
      rfl
    · cases htext

/-- Four puts that take effect. -/
def allDone : List PutOutcome := [.done, .done, .done, .done]

theorem save_genesisState :
    (saveBlockchainStateToDb sampleJson genesisState [] ⟨∅, allDone⟩).1 = .ok () := rfl

/-- A node without blocks is saved, and then the save of its first block crashes after one put:
a load finds two blocks and no balances, in neither of the two states. -/
theorem mixed_after_blockCount :
    (saveBlockchainStateToDb sampleJson genesisState [] ⟨∅, allDone⟩).1 = .ok () ∧
      let saved := (saveBlockchainStateToDb sampleJson genesisState [] ⟨∅, allDone⟩).2.store
      let stopped := (saveBlockchainStateToDb sampleJson firstBlockState firstBlockOrder
        ⟨saved, [.done]⟩).2.store
      Loads sampleJson stopped { genesisState with blockCount := 2 } ∧
        ¬(Loads sampleJson stopped genesisState ∨ Loads sampleJson stopped firstBlockState) := by
  refine ⟨save_genesisState, ?_⟩
  dsimp only
  have h := encodes_of_ok lawful_sampleJson iterates_genesisState save_genesisState
  have hiff := loads_stopped_iff lawful_sampleJson iterates_firstBlockState h [.done]
  rw [hiff, hiff, hiff]
  refine ⟨rfl, ?_⟩
  rintro (heq | heq)
  · exact absurd heq (by decide +kernel)
  · exact absurd heq (by decide +kernel)

/-- The same stop, at which the condition fails. -/
theorem stop_atomic_iff_firstBlock :
    let saved := (saveBlockchainStateToDb sampleJson genesisState [] ⟨∅, allDone⟩).2.store
    let stopped := (saveBlockchainStateToDb sampleJson firstBlockState firstBlockOrder
      ⟨saved, [.done]⟩).2.store
    let n := putsDone sampleJson firstBlockOrder [.done]
    Loads sampleJson stopped genesisState ∨ Loads sampleJson stopped firstBlockState ↔
      firstBlockState.saved.take n = genesisState.saved.take n ∨
        genesisState.saved.drop n = firstBlockState.saved.drop n :=
  stop_atomic_iff lawful_sampleJson iterates_genesisState iterates_firstBlockState
    save_genesisState [.done]

end SilverPow.Node
