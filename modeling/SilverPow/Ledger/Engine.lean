import SilverPow.Base.Run
import SilverPow.Ledger.Utxo
import SilverPow.Ledger.Validation

/-!
# The transaction engine

`src/transaction_engine.rs:539–806`. A run of the engine is a sequence of calls, made one
after another, each with the clock reading that it took. `execute_transaction` holds the
mempool from its first lookup until it returns, so that executions never overlap;
`submit_transaction` and `get_or_create_account` let go of the accounts before the account
that they found is used, and what a call that overlaps with them does in between is not part
of a run. `step` is one call; the results returned to the caller are kept by the functions it
is built from.
-/

namespace SilverPow.Ledger

open SilverPow.Base

/-- `AccountState`, `src/transaction_engine.rs:541–550`. -/
structure AccountState where
  address : String
  balance : U128
  nonce : U64
  lastTxTime : U64
  deriving DecidableEq

namespace AccountState

/-- `AccountState::new`, `src/transaction_engine.rs:554–566`. -/
def new (address : String) (now : U64) : AccountState := ⟨address, 0, 0, now⟩

/-- `AccountState::add_balance`, `src/transaction_engine.rs:569–571`. -/
def addBalance (account : AccountState) (amount : U128) : AccountState :=
  { account with balance := Word.saturatingAdd account.balance amount }

/-- `AccountState::subtract_balance`, `src/transaction_engine.rs:574–583`. -/
def subtractBalance (account : AccountState) (amount : U128) : Except String AccountState :=
  if account.balance < amount then
    .error s!"Insufficient balance: {account.balance.toNat} < {amount.toNat}"
  else .ok { account with balance := Word.saturatingSub account.balance amount }

/-- `AccountState::increment_nonce`, `src/transaction_engine.rs:586–588`. -/
def incrementNonce (account : AccountState) : AccountState :=
  { account with nonce := Word.saturatingAdd account.nonce 1 }

end AccountState

/-- The account table of the engine. -/
abbrev Accounts := Table String AccountState

/-- `TransactionExecutionResult`, `src/transaction_engine.rs:593–604`. -/
structure TransactionExecutionResult where
  txHash : String
  status : TransactionStatus
  gasUsed : U64
  error : Option String
  timestamp : U64
  deriving DecidableEq

/-- `TransactionEngine`, `src/transaction_engine.rs:607–618`. -/
structure TransactionEngine where
  accounts : Accounts
  transactions : List Transaction
  mempool : List Transaction
  executed : List TransactionExecutionResult
  utxoSet : UTXOSet

/-- `get_or_create_account`, `src/transaction_engine.rs:633–639`. -/
def getOrCreateAccount (accounts : Accounts) (address : String) (now : U64) :
    AccountState × Accounts :=
  Table.entryOrInsert accounts address (AccountState.new address now)

/-- `accounts.insert(account.address.clone(), account)`. -/
def storeAccount (accounts : Accounts) (account : AccountState) : Accounts :=
  accounts.insert account.address account

/-- One round of the output loop, `src/transaction_engine.rs:742–748`. -/
def creditOutput (now : U64) (accounts : Accounts) (output : TransactionOutput) : Accounts :=
  let (recipient, accounts) := getOrCreateAccount accounts output.recipient now
  storeAccount accounts (recipient.addBalance output.amount)

/-- The gas metering at the end of `execute_tx_internal`,
`src/transaction_engine.rs:754–792`. -/
def gasUsed (crates : Crates) (tx : Transaction) : U64 :=
  let txBytes := (crates.jsonBytes tx).getD []
  let zeroBytes := BitVec.ofNat 64 (txBytes.countP (· == 0))
  let nonzeroBytes := BitVec.ofNat 64 (txBytes.countP (· != 0))
  let dataGas := zeroBytes * 4 + nonzeroBytes * 16
  let inputGas := BitVec.ofNat 64 tx.inputs.length * 375
  let outputGas := BitVec.ofNat 64 tx.outputs.length * 375
  21_000 + dataGas + inputGas + outputGas

/-- `execute_tx_internal`, `src/transaction_engine.rs:734–794`. The sender's account is
copied out before the output loop and written back after it. -/
def executeTxInternal (crates : Crates) (accounts : Accounts) (tx : Transaction) (now : U64) :
    Except String U64 × Accounts :=
  let (senderAccount, accounts) := getOrCreateAccount accounts tx.sender now
  match senderAccount.subtractBalance tx.totalNeeded with
  | .error e => (.error e, accounts)
  | .ok debited =>
    let accounts := tx.outputs.foldl (creditOutput now) accounts
    (.ok (gasUsed crates tx), storeAccount accounts debited.incrementNonce)

namespace TransactionEngine

/-- `TransactionEngine::new`, `src/transaction_engine.rs:622–630`. -/
def new : TransactionEngine := ⟨∅, [], [], [], .new⟩

/-- An engine with the given accounts and nothing else. -/
def startingWith (accounts : Accounts) : TransactionEngine := { new with accounts }

/-- `submit_transaction`, `src/transaction_engine.rs:642–665`. -/
def submitTransaction (crates : Crates) (s : TransactionEngine) (tx : Transaction) (now : U64) :
    Except String String × TransactionEngine :=
  match tx.validate crates with
  | .error e => (.error e, s)
  | .ok () =>
    let (senderAccount, accounts) := getOrCreateAccount s.accounts tx.sender now
    let s := { s with accounts }
    if senderAccount.balance < tx.totalNeeded then
      (.error s!"Insufficient balance: {senderAccount.balance.toNat} < {tx.totalNeeded.toNat}", s)
    else (.ok tx.hash, { s with mempool := s.mempool ++ [tx] })

/-- The first transaction of the mempool with the hash. -/
def findPending (s : TransactionEngine) (txHash : String) : Option Transaction :=
  s.mempool.find? (·.hash == txHash)

/-- Append an execution and its result to the two histories. -/
def record (s : TransactionEngine) (tx : Transaction) (result : TransactionExecutionResult) :
    TransactionEngine :=
  { s with transactions := s.transactions ++ [tx], executed := s.executed ++ [result] }

/-- `execute_transaction`, `src/transaction_engine.rs:668–731`. The first transaction with
the hash is taken out of the mempool, whatever the outcome. -/
def executeTransaction (crates : Crates) (s : TransactionEngine) (txHash : String) (now : U64) :
    Except String TransactionExecutionResult × TransactionEngine :=
  match s.findPending txHash with
  | none => (.error s!"Transaction not found in mempool: {txHash}", s)
  | some tx =>
    let mempool := s.mempool.eraseP (·.hash == txHash)
    match executeTxInternal crates s.accounts tx now with
    | (.ok gas, accounts) =>
      let result := ⟨tx.hash, .confirmed, gas, none, now⟩
      (.ok result, { s with accounts, mempool }.record { tx with status := .confirmed } result)
    | (.error e, accounts) =>
      let result := ⟨tx.hash, .failed, 0, some e, now⟩
      (.ok result, { s with accounts, mempool }.record { tx with status := .failed } result)

/-- `get_balance`, `src/transaction_engine.rs:797–800`; it creates a missing account. -/
def getBalance (s : TransactionEngine) (address : String) (now : U64) :
    U128 × TransactionEngine :=
  let (account, accounts) := getOrCreateAccount s.accounts address now
  (account.balance, { s with accounts })

/-- `get_nonce`, `src/transaction_engine.rs:803–806`; it creates a missing account. -/
def getNonce (s : TransactionEngine) (address : String) (now : U64) :
    U64 × TransactionEngine :=
  let (account, accounts) := getOrCreateAccount s.accounts address now
  (account.nonce, { s with accounts })

/-- The calls that change the engine. -/
inductive Call where
  | submitTransaction (tx : Transaction)
  | executeTransaction (txHash : String)
  | addUtxo (utxo : UTXOEntry)
  | spendUtxo (txHash : String) (outputIndex : U32)
  | getBalance (address : String)
  | getNonce (address : String)

/-- A call with the clock reading that it takes. -/
structure Event where
  call : Call
  now : U64

/-- The state after one call. -/
def step (crates : Crates) (s : TransactionEngine) (e : Event) : TransactionEngine :=
  match e.call with
  | .submitTransaction tx => (s.submitTransaction crates tx e.now).2
  | .executeTransaction txHash => (s.executeTransaction crates txHash e.now).2
  | .addUtxo utxo => { s with utxoSet := (s.utxoSet.addUtxo crates.hexDecode utxo).2 }
  | .spendUtxo txHash i => { s with utxoSet := (s.utxoSet.spendUtxo txHash i).2 }
  | .getBalance address => (s.getBalance address e.now).2
  | .getNonce address => (s.getNonce address e.now).2

/-- The pending transaction that a call takes out of the mempool. -/
def taken (s : TransactionEngine) (e : Event) : Option Transaction :=
  match e.call with
  | .executeTransaction txHash => s.findPending txHash
  | _ => none

/-- Runs of the engine: any calls in any order. -/
abbrev EngineRun (crates : Crates) : TransactionEngine → List Event → TransactionEngine → Prop :=
  Run fun s e s' ↦ s' = s.step crates e

end TransactionEngine
end SilverPow.Ledger
