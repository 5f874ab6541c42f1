import SilverPow.Base.Component
import SilverPow.Base.Jams
import SilverPow.Base.LockOrder
import SilverPow.Ledger.Utxo

/-!
# Overlapping calls of the UTXO set

The calls of `src/transaction_engine.rs:49–164` as programs over the two locks of a UTXO set.
They act as calls one after another, so that of overlapping calls that spend one coin exactly
one succeeds. But a call that adds a coin takes the coins before the index, and one that lists
the coins of an address takes the index before the coins: these two can keep each other
waiting for ever.
-/

namespace SilverPow.Ledger

open SilverPow.Base SilverPow.Base.Executor UTXOSet

/-- The locks of a `UTXOSet`, `src/transaction_engine.rs:32–37`. -/
inductive UtxoLock where
  | utxos
  | addressUtxos
  deriving DecidableEq

/-- What the locks guard. -/
abbrev UtxoData : UtxoLock → Type
  | .utxos => Table String UTXOEntry
  | .addressUtxos => Table String (List String)

/-- The set as its locks see it. -/
def UTXOSet.data (set : UTXOSet) : ∀ l, UtxoData l
  | .utxos => set.utxos
  | .addressUtxos => set.addressUtxos

/-- What a call returns. -/
inductive UtxoReply where
  | done (result : Except String Unit)
  | utxo (entry : Option UTXOEntry)
  | utxos (entries : List UTXOEntry)
  | amount (total : U128)
  | count (n : Nat)
  | stats (utxos unspent : Nat)

/-- A call of the set as a program. -/
abbrev UtxoProg : Type := Prog UtxoLock UtxoData UtxoReply

/-- The entries that are not spent. -/
def unspentCount (utxos : Table String UTXOEntry) : Nat :=
  (utxos.entries.filter fun e ↦ e.2.spent = false).card

/-! ### The programs -/

/-- `add_utxo`, `src/transaction_engine.rs:49–78`. -/
def addUtxoProg (hexDecode : String → Option (List U8)) (utxo : UTXOEntry) : UtxoProg :=
  if utxo.amount = 0 then .ret (.done (.error "UTXO amount must be greater than zero"))
  else if utxo.txHash.utf8ByteSize ≠ 128 then
    .ret (.done (.error "Invalid transaction hash length"))
  else if (hexDecode utxo.txHash).isNone then
    .ret (.done (.error "Invalid transaction hash format"))
  else
    .lock .utxos .write <| .get .utxos fun utxos ↦
    .set .utxos (utxos.insert (keyOf utxo) utxo) <|
    .lock .addressUtxos .write <| .get .addressUtxos fun index ↦
    .set .addressUtxos ((Table.entryOrInsert index utxo.recipient []).2.insert utxo.recipient
      ((Table.entryOrInsert index utxo.recipient []).1 ++ [keyOf utxo])) <|
    .ret (.done (.ok ()))

/-- `spend_utxo`, `src/transaction_engine.rs:92–106`. -/
def spendUtxoProg (txHash : String) (outputIndex : U32) : UtxoProg :=
  .lock .utxos .write <| .get .utxos fun utxos ↦
    match utxos.lookup (outpointKey txHash outputIndex) with
    | some utxo =>
      if utxo.spent then
        .ret (.done (.error s!"UTXO already spent: {outpointKey txHash outputIndex}"))
      else
        .set .utxos (utxos.insert (outpointKey txHash outputIndex) { utxo with spent := true }) <|
        .ret (.done (.ok ()))
    | none => .ret (.done (.error s!"UTXO not found: {outpointKey txHash outputIndex}"))

/-- A call that reads the coins: `get_utxo`, `validate_utxo`, `utxo_count` and
`unspent_utxo_count`, `src/transaction_engine.rs:81–163`. -/
def readUtxosProg (f : Table String UTXOEntry → UtxoReply) : UtxoProg :=
  .lock .utxos .read <| .get .utxos fun utxos ↦ .ret (f utxos)

/-- A call that reads the coins of an address: `get_address_utxos` and `get_address_balance`,
`src/transaction_engine.rs:109–132`. -/
def readAddressProg (f : UTXOSet → UtxoReply) : UtxoProg :=
  .lock .addressUtxos .read <| .lock .utxos .read <|
  .get .addressUtxos fun index ↦ .get .utxos fun utxos ↦ .ret (f ⟨utxos, index⟩)

/-- `get_utxo_stats`, `src/transaction_engine.rs:892–897`: the coins, twice. -/
def getUtxoStatsProg : UtxoProg :=
  .lock .utxos .read <| .get .utxos fun before ↦ .unlock .utxos <|
  .lock .utxos .read <| .get .utxos fun utxos ↦
  .ret (.stats before.entries.card (unspentCount utxos))

/-- The calls of a UTXO set. -/
inductive UtxoCall where
  | addUtxo (utxo : UTXOEntry)
  | getUtxo (txHash : String) (outputIndex : U32)
  | spendUtxo (txHash : String) (outputIndex : U32)
  | getAddressUtxos (address : String)
  | getAddressBalance (address : String)
  | validateUtxo (txHash : String) (outputIndex : U32)
  | utxoCount
  | unspentUtxoCount
  | getUtxoStats

/-- The program of a call. -/
def UtxoCall.prog (hexDecode : String → Option (List U8)) : UtxoCall → UtxoProg
  | .addUtxo utxo => addUtxoProg hexDecode utxo
  | .getUtxo txHash outputIndex =>
    readUtxosProg fun utxos ↦ .utxo (utxos.lookup (outpointKey txHash outputIndex))
  | .spendUtxo txHash outputIndex => spendUtxoProg txHash outputIndex
  | .getAddressUtxos address => readAddressProg fun set ↦ .utxos (set.getAddressUtxos address)
  | .getAddressBalance address =>
    readAddressProg fun set ↦ .amount (set.getAddressBalance address)
  | .validateUtxo txHash outputIndex =>
    readUtxosProg fun utxos ↦ .done (UTXOSet.validateUtxo ⟨utxos, ∅⟩ txHash outputIndex)
  | .utxoCount => readUtxosProg fun utxos ↦ .count utxos.entries.card
  | .unspentUtxoCount => readUtxosProg fun utxos ↦ .count (unspentCount utxos)
  | .getUtxoStats => getUtxoStatsProg

/-- A call that runs alone: what it returns, and the set after it. -/
def UTXOSet.apply (hexDecode : String → Option (List U8)) (set : UTXOSet) :
    UtxoCall → UtxoReply × UTXOSet
  | .addUtxo utxo => ((.done (set.addUtxo hexDecode utxo).1), (set.addUtxo hexDecode utxo).2)
  | .getUtxo txHash outputIndex => (.utxo (set.getUtxo txHash outputIndex), set)
  | .spendUtxo txHash outputIndex =>
    (.done (set.spendUtxo txHash outputIndex).1, (set.spendUtxo txHash outputIndex).2)
  | .getAddressUtxos address => (.utxos (set.getAddressUtxos address), set)
  | .getAddressBalance address => (.amount (set.getAddressBalance address), set)
  | .validateUtxo txHash outputIndex => (.done (set.validateUtxo txHash outputIndex), set)
  | .utxoCount => (.count set.utxos.entries.card, set)
  | .unspentUtxoCount => (.count (unspentCount set.utxos), set)
  | .getUtxoStats => (.stats set.utxos.entries.card (unspentCount set.utxos), set)

/-! ### What the programs do alone -/

/-- The set as its locks see it, after some of what they guard is written. -/
theorem UTXOSet.data_ext {set : UTXOSet} {data : ∀ l, UtxoData l} (hu : data .utxos = set.utxos)
    (ha : data .addressUtxos = set.addressUtxos) : data = set.data := by
  funext l
  cases l with
  | utxos => exact hu
  | addressUtxos => exact ha

section Programs

variable (hexDecode : String → Option (List U8))

/-- Alone, each program does what the call does to the set. -/
theorem exec_utxoProg (set : UTXOSet) (call : UtxoCall) :
    (call.prog hexDecode).exec set.data =
      ((set.apply hexDecode call).1, (set.apply hexDecode call).2.data) := by
  cases call with
  | addUtxo utxo =>
    simp only [UtxoCall.prog, addUtxoProg, UTXOSet.apply, UTXOSet.addUtxo]
    by_cases hz : utxo.amount = 0
    · rw [if_pos hz, if_pos hz]
      rfl
    · rw [if_neg hz, if_neg hz]
      by_cases hl : utxo.txHash.utf8ByteSize ≠ 128
      · rw [if_pos hl, if_pos hl]
        rfl
      · rw [if_neg hl, if_neg hl]
        by_cases hx : (hexDecode utxo.txHash).isNone
        · rw [if_pos hx, if_pos hx]
          rfl
        · rw [if_neg hx, if_neg hx]
          exact Prod.ext rfl (UTXOSet.data_ext rfl rfl)
  | spendUtxo txHash outputIndex =>
    change Prog.exec (match set.utxos.lookup (outpointKey txHash outputIndex) with
      | some utxo => if utxo.spent then _ else _
      | none => _) set.data = _
    simp only [UTXOSet.apply, UTXOSet.spendUtxo]
    cases set.utxos.lookup (outpointKey txHash outputIndex) with
    | none => rfl
    | some utxo =>
      dsimp only
      by_cases hs : utxo.spent
      · rw [if_pos hs, if_pos hs]
        rfl
      · rw [if_neg hs, if_neg hs]
        exact Prod.ext rfl (UTXOSet.data_ext rfl rfl)
  | getUtxo | getAddressUtxos | getAddressBalance | validateUtxo | utxoCount | unspentUtxoCount
  | getUtxoStats => rfl

/-- Each call keeps its locks until it returns, or reads twice and writes nothing. -/
theorem twoPhase_utxoProg (call : UtxoCall) :
    (call.prog hexDecode).TwoPhase [] ∨ call = .getUtxoStats := by
  cases call with
  | addUtxo utxo => simp [UtxoCall.prog, addUtxoProg]
  | spendUtxo txHash outputIndex =>
    refine .inl ⟨by simp, fun utxos ↦ ?_⟩
    dsimp only
    split <;> simp
  | getUtxo | validateUtxo | utxoCount | unspentUtxoCount => simp [UtxoCall.prog, readUtxosProg]
  | getAddressUtxos | getAddressBalance => simp [UtxoCall.prog, readAddressProg]
  | getUtxoStats => exact .inr rfl

/-- The programs are those of the calls. -/
theorem implements_utxoSet :
    Implements (fun _ ↦ True) UTXOSet.data (UtxoCall.prog hexDecode)
      (UTXOSet.apply hexDecode) where
  exec set call _ := exec_utxoProg hexDecode set call
  keeps _ _ _ := trivial
  whole call := by
    obtain h | rfl := twoPhase_utxoProg hexDecode call
    · exact .inl h
    · exact .inr (by simp [UtxoCall.prog, getUtxoStatsProg])

/-! ### Spending a coin -/

/-- A call that neither adds nor spends a coin leaves it. -/
theorem lookup_apply {set : UTXOSet} {call : UtxoCall} {key : String}
    (hadd : ∀ utxo, call = .addUtxo utxo → keyOf utxo ≠ key)
    (hspend : ∀ txHash outputIndex, call = .spendUtxo txHash outputIndex →
      outpointKey txHash outputIndex ≠ key) :
    (set.apply hexDecode call).2.utxos.lookup key = set.utxos.lookup key := by
  cases call with
  | addUtxo utxo =>
    dsimp only [UTXOSet.apply]
    generalize h : set.addUtxo hexDecode utxo = r
    obtain ⟨result, set'⟩ := r
    have hstep : UTXOSet.Step hexDecode set ⟨.addUtxo utxo, result⟩ set' := h
    cases effect_of_step hstep with
    | refused => rfl
    | stored _ hu _ =>
      change set'.utxos.lookup key = _
      rw [hu, Finmap.lookup_insert_of_ne _ (hadd utxo rfl).symm]
  | spendUtxo txHash outputIndex =>
    dsimp only [UTXOSet.apply]
    generalize h : set.spendUtxo txHash outputIndex = r
    obtain ⟨result, set'⟩ := r
    have hstep : UTXOSet.Step hexDecode set ⟨.spendUtxo txHash outputIndex, result⟩ set' := h
    cases effect_of_step hstep with
    | unspendable => rfl
    | spent _ _ hu _ =>
      change set'.utxos.lookup key = _
      rw [hu, Finmap.lookup_insert_of_ne _ (hspend txHash outputIndex rfl).symm]
  | getUtxo | getAddressUtxos | getAddressBalance | validateUtxo | utxoCount | unspentUtxoCount
  | getUtxoStats => rfl

/-- A coin that is not spent is spent. -/
theorem apply_spend_of_unspent {set : UTXOSet} {txHash : String} {outputIndex : U32}
    {utxo : UTXOEntry} (hget : set.getUtxo txHash outputIndex = some utxo)
    (h : utxo.spent = false) :
    set.apply hexDecode (.spendUtxo txHash outputIndex) = (.done (.ok ()),
      ⟨set.utxos.insert (outpointKey txHash outputIndex) { utxo with spent := true },
        set.addressUtxos⟩) := by
  rw [UTXOSet.getUtxo] at hget
  simp [UTXOSet.apply, UTXOSet.spendUtxo, hget, h]

/-- A coin that is spent is not spent again. -/
theorem apply_spend_of_spent {set : UTXOSet} {txHash : String} {outputIndex : U32}
    {utxo : UTXOEntry} (hget : set.getUtxo txHash outputIndex = some utxo)
    (h : utxo.spent = true) :
    set.apply hexDecode (.spendUtxo txHash outputIndex) =
      (.done (.error s!"UTXO already spent: {outpointKey txHash outputIndex}"), set) := by
  rw [UTXOSet.getUtxo] at hget
  simp [UTXOSet.apply, UTXOSet.spendUtxo, hget, h]

/-- Of the calls so far, none has spent the coin, or exactly one has. -/
def SpentBy (calls : List UtxoCall) (txHash : String) (outputIndex : U32)
    (history : List (Nat × UtxoReply)) (set : UTXOSet) : Prop :=
  (∃ utxo, set.getUtxo txHash outputIndex = some utxo ∧ utxo.spent = false ∧
    ∀ i a, (i, a) ∈ history → calls[i]? ≠ some (.spendUtxo txHash outputIndex)) ∨
  (∃ utxo, set.getUtxo txHash outputIndex = some utxo ∧ utxo.spent = true ∧
    ∃ i, calls[i]? = some (.spendUtxo txHash outputIndex) ∧ (i, .done (.ok ())) ∈ history ∧
      ∀ j, (j, .done (.ok ())) ∈ history → calls[j]? = some (.spendUtxo txHash outputIndex) →
        j = i)

/-- One more call that adds no coin in its place. -/
theorem SpentBy.step {calls : List UtxoCall} {txHash : String} {outputIndex : U32}
    {history : List (Nat × UtxoReply)} {set : UTXOSet}
    (h : SpentBy calls txHash outputIndex history set)
    (hadd : ∀ utxo, .addUtxo utxo ∈ calls → keyOf utxo ≠ outpointKey txHash outputIndex) {i : Nat}
    {call : UtxoCall} (hi : calls[i]? = some call) :
    SpentBy calls txHash outputIndex (history ++ [(i, (set.apply hexDecode call).1)])
      (set.apply hexDecode call).2 := by
  by_cases hs : call = .spendUtxo txHash outputIndex
  · subst hs
    obtain ⟨utxo, hget, hunspent, hnone⟩ | ⟨utxo, hget, hspent, k, hk, hok, hone⟩ := h
    · -- The first call that spends the coin succeeds.
      rw [apply_spend_of_unspent hexDecode hget hunspent]
      refine .inr ⟨{ utxo with spent := true }, Finmap.lookup_insert _, rfl, i, hi, by simp,
        fun j hj hc ↦ ?_⟩
      obtain hj | hj := List.mem_append.mp hj
      · exact absurd hc (hnone j _ hj)
      · cases List.mem_singleton.mp hj
        rfl
    · rw [apply_spend_of_spent hexDecode hget hspent]
      refine .inr ⟨utxo, hget, hspent, k, hk, List.mem_append_left _ hok, fun j hj hc ↦ ?_⟩
      obtain hj | hj := List.mem_append.mp hj
      · exact hone j hj hc
      · cases List.mem_singleton.mp hj
  · have hsame : (set.apply hexDecode call).2.getUtxo txHash outputIndex =
        set.getUtxo txHash outputIndex := by
      refine lookup_apply hexDecode (fun utxo hc ↦ ?_) fun h' i' hc hkey ↦ ?_
      · subst hc
        exact hadd utxo (List.mem_of_getElem? hi)
      · obtain ⟨rfl, rfl⟩ := outpointKey_inj.mp hkey
        exact hs hc
    have hmem {j : Nat} {a : UtxoReply}
        (hj : (j, a) ∈ history ++ [(i, (set.apply hexDecode call).1)])
        (hc : calls[j]? = some (.spendUtxo txHash outputIndex)) : (j, a) ∈ history := by
      obtain hj | hj := List.mem_append.mp hj
      · exact hj
      · cases List.mem_singleton.mp hj
        cases hi.symm.trans hc
        exact absurd rfl hs
    obtain ⟨utxo, hget, hunspent, hnone⟩ | ⟨utxo, hget, hspent, k, hk, hok, hone⟩ := h
    · exact .inl ⟨utxo, hsame.trans hget, hunspent, fun j a hj hc ↦ hnone j a (hmem hj hc) hc⟩
    · exact .inr ⟨utxo, hsame.trans hget, hspent, k, hk, List.mem_append_left _ hok,
        fun j hj hc ↦ hone j (hmem hj hc) hc⟩

/-! ### Which calls keep each other waiting -/

/-- A call that lists the coins of an address. -/
def UtxoCall.Lists : UtxoCall → Prop
  | .getAddressUtxos _ | .getAddressBalance _ => True
  | _ => False

/-- A call that adds a coin. -/
def UtxoCall.Adds : UtxoCall → Prop
  | .addUtxo utxo => Storable hexDecode utxo
  | _ => False

/-- The order of the locks for calls that add no coins. -/
def rankOfListing : UtxoLock → Nat
  | .addressUtxos => 1
  | .utxos => 2

/-- The order of the locks for calls that list no coins. -/
def rankOfAdding : UtxoLock → Nat
  | .utxos => 1
  | .addressUtxos => 2

/-- A call that adds no coin. -/
theorem UtxoCall.ordered_of_not_adds {call : UtxoCall} (h : ¬call.Adds hexDecode) :
    (call.prog hexDecode).Ordered rankOfListing [] := by
  cases call with
  | addUtxo utxo =>
    rw [prog, addUtxoProg]
    simp only [Prog.ordered_ite]
    refine ⟨fun _ ↦ trivial, fun hz ↦ ⟨fun _ ↦ trivial, fun hl ↦ ⟨fun _ ↦ trivial, fun hx ↦ ?_⟩⟩⟩
    exact absurd ⟨hz, not_not.mp hl, by simpa [Option.isSome_iff_ne_none] using hx⟩ h
  | spendUtxo txHash outputIndex =>
    refine ⟨by simp [rankOfListing], fun utxos ↦ ?_⟩
    dsimp only
    split <;> simp
  | getUtxo | validateUtxo | utxoCount | unspentUtxoCount =>
    simp [prog, readUtxosProg, rankOfListing]
  | getAddressUtxos | getAddressBalance => simp [prog, readAddressProg, rankOfListing]
  | getUtxoStats => simp [prog, getUtxoStatsProg, rankOfListing]

/-- A call that lists no coins. -/
theorem UtxoCall.ordered_of_not_lists {call : UtxoCall} (h : ¬call.Lists) :
    (call.prog hexDecode).Ordered rankOfAdding [] := by
  cases call with
  | addUtxo utxo => simp [prog, addUtxoProg, rankOfAdding]
  | spendUtxo txHash outputIndex =>
    refine ⟨by simp [rankOfAdding], fun utxos ↦ ?_⟩
    dsimp only
    split <;> simp
  | getUtxo | validateUtxo | utxoCount | unspentUtxoCount =>
    simp [prog, readUtxosProg, rankOfAdding]
  | getAddressUtxos | getAddressBalance => exact absurd trivial h
  | getUtxoStats => simp [prog, getUtxoStatsProg, rankOfAdding]

/-- A call that adds a coin comes to ask for the index. -/
theorem UtxoCall.after_of_adds {call : UtxoCall} (h : call.Adds hexDecode)
    (data : ∀ l, UtxoData l) : ∃ data' p, (call.prog hexDecode).after [] 3 data [] =
      (data', .lock .addressUtxos .write p, [(.utxos, .write)]) := by
  cases call with
  | addUtxo utxo =>
    obtain ⟨hz, hl, hx⟩ := h
    rw [prog, addUtxoProg, if_neg hz, if_neg (not_not.mpr hl),
      if_neg (by simpa [Option.isSome_iff_ne_none] using hx)]
    exact ⟨_, _, rfl⟩
  | getUtxo | spendUtxo | getAddressUtxos | getAddressBalance | validateUtxo | utxoCount
  | unspentUtxoCount | getUtxoStats => exact h.elim

/-- A call that lists coins comes to ask for them. -/
theorem UtxoCall.after_of_lists {call : UtxoCall} (h : call.Lists) (data : ∀ l, UtxoData l) :
    ∃ p, (call.prog hexDecode).after [(.utxos, .write)] 1 data [] =
      (data, .lock .utxos .read p, [(.addressUtxos, .read)]) := by
  cases call with
  | getAddressUtxos | getAddressBalance => exact ⟨_, rfl⟩
  | addUtxo | getUtxo | spendUtxo | validateUtxo | utxoCount | unspentUtxoCount | getUtxoStats =>
    exact h.elim

/-- In any set, calls always return exactly if none of them adds a coin or none lists the
coins of an address. -/
theorem utxo_allReturn_iff (set : UTXOSet) (calls : List UtxoCall) :
    AllReturn (start set.data (calls.map (·.prog hexDecode))) ↔
      (∀ call ∈ calls, ¬call.Adds hexDecode) ∨ ∀ call ∈ calls, ¬call.Lists := by
  constructor
  · intro hall
    by_contra hno
    push Not at hno
    obtain ⟨⟨c, hc, hadds⟩, d, hd, hlists⟩ := hno
    obtain ⟨i, hi⟩ := List.getElem?_of_mem hc
    obtain ⟨j, hj⟩ := List.getElem?_of_mem hd
    have hij : i ≠ j := by
      rintro rfl
      cases hi.symm.trans hj
      cases c <;> first | exact hadds.elim | exact hlists.elim
    obtain ⟨data, p', hp⟩ := UtxoCall.after_of_adds hexDecode hadds set.data
    obtain ⟨q', hq⟩ := UtxoCall.after_of_lists hexDecode hlists data
    exact not_allReturn_of_cross hij (getElem?_progs hi (·.prog hexDecode))
      (getElem?_progs hj (·.prog hexDecode)) hp hq (by simp) (by simp) hall
  · rintro (h | h)
    · refine allReturn_of_ordered rankOfListing (fun p hp ↦ ?_) _
      obtain ⟨call, hc, rfl⟩ := List.mem_map.mp hp
      exact call.ordered_of_not_adds hexDecode (h call hc)
    · refine allReturn_of_ordered rankOfAdding (fun p hp ↦ ?_) _
      obtain ⟨call, hc, rfl⟩ := List.mem_map.mp hp
      exact call.ordered_of_not_lists hexDecode (h call hc)

/-! ### Overlapping calls -/

/-- Of overlapping calls that spend one coin, exactly one succeeds, whatever the schedule and
whatever else is called that does not add the coin again. -/
theorem spent_once {set : UTXOSet} {calls : List UtxoCall} {is : List Nat}
    {x : Executor UtxoLock UtxoData UtxoReply}
    (hr : Run Step (start set.data (calls.map (·.prog hexDecode))) is x) (hfin : x.Finished)
    {txHash : String} {outputIndex : U32} {utxo : UTXOEntry}
    (hget : set.getUtxo txHash outputIndex = some utxo) (hunspent : utxo.spent = false)
    (hadd : ∀ utxo, .addUtxo utxo ∈ calls → keyOf utxo ≠ outpointKey txHash outputIndex)
    (hspend : .spendUtxo txHash outputIndex ∈ calls) :
    ∃! i : Nat, calls[i]? = some (.spendUtxo txHash outputIndex) ∧
      ∃ t, x.tasks[i]? = some t ∧ t.prog = .ret (.done (.ok ())) := by
  obtain ⟨history, set', h⟩ := (implements_utxoSet hexDecode).exists_callOrder trivial hr hfin
  have hspent : SpentBy calls txHash outputIndex history set' := by
    refine h.run.historyInvariant (SpentBy calls txHash outputIndex)
      (.inl ⟨utxo, hget, hunspent, fun i a hi ↦ (nomatch hi)⟩) ?_
    rintro history t ⟨i, a⟩ t' ht ⟨call, hi, happly⟩
    have hstep := ht.step hexDecode hadd hi
    rwa [happly] at hstep
  have h2 : ((UtxoCall.spendUtxo txHash outputIndex).prog hexDecode).TwoPhase [] :=
    (twoPhase_utxoProg hexDecode _).resolve_right (by rintro ⟨⟩)
  obtain ⟨_, -, -, hnone⟩ | ⟨_, -, -, i, hi, hok, hone⟩ := hspent
  · obtain ⟨i, hi⟩ := List.getElem?_of_mem hspend
    obtain ⟨⟨_, a⟩, ha, rfl⟩ := List.mem_map.mp (h.all i _ hi h2)
    exact absurd hi (hnone _ _ ha)
  · refine ⟨i, ⟨hi, h.results i _ hok⟩, ?_⟩
    rintro j ⟨hj, t, ht, hret⟩
    exact hone j (h.mem_of_ret hj h2 ht hret) hj

end Programs

/-- Two calls that spend one coin, while the coins are counted. -/
def spendTwice : List UtxoCall :=
  [.spendUtxo aliceUtxo.txHash 0, .spendUtxo aliceUtxo.txHash 0, .utxoCount]

/-- One of the two calls succeeds. -/
theorem spent_once_twice : ∃ is x, Run Step
    (start withAliceUtxo.data (spendTwice.map (·.prog Hex.base16.decode))) is x ∧
    ∃! i : Nat, spendTwice[i]? = some (.spendUtxo aliceUtxo.txHash 0) ∧
      ∃ t, x.tasks[i]? = some t ∧ t.prog = .ret (.done (.ok ())) := by
  have hall : AllReturn (start withAliceUtxo.data
      (spendTwice.map (·.prog Hex.base16.decode))) := by
    refine allReturn_of_ordered rankOfAdding (fun p hp ↦ ?_) _
    obtain ⟨call, hc, rfl⟩ := List.mem_map.mp hp
    refine call.ordered_of_not_lists _ ?_
    simp only [spendTwice, List.mem_cons, List.not_mem_nil, or_false] at hc
    obtain rfl | rfl | rfl := hc <;> exact id
  obtain ⟨is, x, hr, hend⟩ := exists_end
    (start withAliceUtxo.data (spendTwice.map (·.prog Hex.base16.decode)))
  refine ⟨is, x, hr, spent_once _ hr (hall.returned is x hr hend)
    (getUtxo_addUtxo storable_aliceUtxo) rfl (fun utxo hu ↦ ?_) List.mem_cons_self⟩
  simp [spendTwice] at hu

end SilverPow.Ledger
