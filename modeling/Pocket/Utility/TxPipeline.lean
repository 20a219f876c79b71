import Pocket.Utility.BlockLifecycle
import Pocket.Utility.Mempool

/-!
# The path of a transaction

From the bytes that gossip brings to a committed block.  `handleGossip` admits bytes to the
mempool; a leader reaps the mempool into a proposal, a replica applies the proposal it is sent,
and either way each transaction is executed by `handleTransaction` and indexed.  A unit of work
ends by being committed or released.

The index of transactions is written at once, not through the read-write context, so what a
released unit of work indexed stays.  A transaction is indexed under the hash of the bytes it
marshals to, and admitted by the hash of the bytes it came in.

What is outside of this component is in an event or a parameter: the codec and the hash, calls
that fail, the orders in which maps are visited, and the state hash that the trees give.
-/

set_option autoImplicit false

namespace Pocket.Utility

open Model (Bytes)
open StoreProgram
open Text (hexEncode hexDecode)

/-- The platform with the decoder of transactions, the hash and the limits of the mempool. -/
structure Host extends Platform where
  unmarshal : Bytes → Except String Transaction
  sha3 : Bytes → Bytes
  maxTxsBytesTotal : UInt64
  maxTxs : UInt32

variable (X : Host)

/-- SOURCE: shared/core/types/transaction.go:22-25, shared/crypto/sha3.go:20-23 -/
def Host.txHash (bz : Bytes) : String := hexEncode (X.sha3 bz)

/-- SOURCE: shared/core/types/transaction.go:100-106 -/
def Host.hash (tx : Transaction) : Except String String := (X.marshal tx).map X.txHash

def Host.mempoolOptions : FifoSetOptions String Bytes TxCounters :=
  txFifoOptions X.txHash X.maxTxsBytesTotal X.maxTxs

/-! ## The index of transactions -/

/-- The keys that lead to a transaction's hash.
SOURCE: persistence/indexer/indexer.go:165-197 -/
inductive IndexRef
  | height (height index : ℤ)
  | sender (address : String) (height index : ℤ)
  | recipient (address : String) (height index : ℤ)
deriving DecidableEq

structure TxIndex where
  byHash : String → Option IndexedTransaction
  refs : IndexRef → Option String

def TxIndex.empty : TxIndex := ⟨fun _ => none, fun _ => none⟩

/-- SOURCE: persistence/indexer/indexer.go:71-91, 140-161 -/
def TxIndex.index (index : TxIndex) (result : IndexedTransaction) : TxIndex :=
  let hash := hexEncode (X.sha3 result.tx)
  let refs := Function.update index.refs (.height result.height result.index) (some hash)
  let refs := if result.signerAddr = "" then refs
    else Function.update refs (.sender result.signerAddr result.height result.index) (some hash)
  let refs := if result.recipientAddr = "" then refs
    else Function.update refs (.recipient result.recipientAddr result.height result.index)
      (some hash)
  ⟨Function.update index.byHash hash (some result), refs⟩

/-- SOURCE: persistence/block.go:14-28 -/
def transactionExists (index : TxIndex) (transactionHash : String) : Except String Bool :=
  (hexDecode transactionHash).map fun hash => (index.byHash (hexEncode hash)).isSome

/-! ## Admission -/

/-- `lookup` is the error of the index, if it fails.
SOURCE: utility/transaction.go:13-41 -/
def handleGossip (mempool : TxMempool) (index : TxIndex) (lookup : Option String)
    (txProtoBytes : Bytes) : Except String TxMempool := do
  let txHash := X.txHash txProtoBytes
  if mempool.containsIndex txHash then throw errDuplicateTransaction.error
  let txExists ← match lookup with
    | some err => throw err
    | none => transactionExists index txHash
  if txExists then throw errTransactionAlreadyCommitted.error
  let tx ← (X.unmarshal txProtoBytes).mapError fun err => (errProtoUnmarshal err).error
  (tx.validateBasic X.toPlatform).mapError Error.error
  match mempool.push X.mempoolOptions txProtoBytes with
  | some mempool => return mempool
  | none => throw errDuplicateTransaction.error

/-! ## Blocks -/

/-- What the functions of a unit of work change: its read-write context, and the mempool and the
index, which are the node's.  `executed` are the transactions that `handleTransaction` has
returned for. -/
structure BlockState where
  db : Database
  executed : List Transaction
  mempool : TxMempool
  index : TxIndex

/-- The result of a function and the state after it; `none` is a process that ended. -/
abbrev Outcome (α : Type) := Option (Except String α × BlockState)

/-- `if err != nil { return err }`. -/
def Outcome.andThen {α β : Type} (o : Outcome α) (f : α → BlockState → Outcome β) : Outcome β :=
  o.bind fun (result, s) =>
    match result with
    | .ok a => f a s
    | .error err => some (.error err, s)

/-- What the calls of one block do: which of them fail, in which orders `endBlock` visits the
kinds of actors, and the state hash that is computed at the end, if it can be. -/
structure BlockCalls where
  orders : MapOrders
  beginFails : ℕ → Option String
  txFails : ℕ → ℕ → Option String
  indexFails : ℕ → Bool
  endFails : ℕ → Option String
  stateHash : Option String

section UnitOfWork

variable (height : ℤ) (committed : Database) (calls : BlockCalls)

/-- What the calls of a unit of work are made to. -/
abbrev UowStore := Store Query Answer Update String Database

/-- A function of the unit of work, which reads the committed state. -/
def runUow {α : Type} (p : Uow α) (fails : ℕ → Option String) (s : BlockState)
    (st : UowStore := store height) : Outcome α :=
  (p.run.exec st (fun _ => committed) fails s.db).map fun (result, db) =>
    (result.mapError Error.error, { s with db })

/-- The transaction at position `index` of the block, in the `i`-th round of the loop. -/
def executeTx (i index : ℕ) (tx : Transaction) (s : BlockState) (st : UowStore := store height) :
    Outcome IndexedTransaction :=
  (runUow height committed (handleTransaction X.toPlatform height tx index) (calls.txFails i) s
    st).andThen fun idxTx s => some (.ok idxTx, { s with executed := s.executed ++ [tx] })

/-- One transaction of a proposal.
SOURCE: utility/unit_of_work/module.go:144-176 -/
def processTx (i : ℕ) (txProtoBytes : Bytes) (s : BlockState) (st : UowStore := store height) :
    Outcome Unit :=
  match X.unmarshal txProtoBytes with
  | .error err => some (.error err, s)
  | .ok tx =>
    match tx.validateBasic X.toPlatform with
    | .error err => some (.error err.error, s)
    | .ok () => (executeTx X height committed calls i i tx s st).andThen fun idxTx s =>
      match X.hash tx with
      | .error err => some (.error err, s)
      | .ok txHash =>
        let mempool := if s.mempool.containsIndex txHash
          then s.mempool.remove X.mempoolOptions txProtoBytes else s.mempool
        if calls.indexFails i then none
        else some (.ok (), { s with mempool, index := s.index.index X idxTx })

/-- SOURCE: utility/unit_of_work/module.go:141-178 -/
def processProposalBlockTransactions (i : ℕ) (txs : List Bytes) (s : BlockState)
    (st : UowStore := store height) : Outcome Unit :=
  match txs with
  | [] => some (.ok (), s)
  | txProtoBytes :: txs =>
    (processTx X height committed calls i txProtoBytes s st).andThen fun _ s =>
      processProposalBlockTransactions (i + 1) txs s st

structure Proposal where
  stateHash : String
  proposer : Bytes
  txs : List Bytes

def ignoreProposalBlockCheckHash : String :=
  "0100000000000000000000000000000000000000000000000000000000000010"

/-- SOURCE: utility/unit_of_work/module.go:51-102 -/
def applyBlock (proposal : Proposal) (s : BlockState) : Outcome Unit :=
  if proposal.stateHash = "" ∨ proposal.proposer = [] then
    some (.error errProposalBlockNotSet.error, s)
  else
    (runUow height committed beginBlock calls.beginFails s).andThen fun _ s =>
    (processProposalBlockTransactions X height committed calls 0 proposal.txs s).andThen fun _ s =>
    (runUow height committed (endBlock height calls.orders proposal.proposer) calls.endFails
      s).andThen fun _ s =>
    match calls.stateHash with
    | none => none
    | some stateHash =>
      if proposal.stateHash ≠ ignoreProposalBlockCheckHash ∧ proposal.stateHash ≠ stateHash
      then none else some (.ok (), s)

/-- The loop over the mempool with the transactions reaped so far and their size.  Each round
pops one, so that the length of the queue is enough rounds.
SOURCE: utility/unit_of_work/uow_leader.go:69-119 -/
def reapMempool (maxTxBytes : UInt64) :
    ℕ → ℕ → List Bytes → UInt64 → BlockState → Outcome (List Bytes)
  | 0, _, txs, _, s => some (.ok txs, s)
  | rounds + 1, i, txs, txsTotalBz, s =>
    match s.mempool.pop X.mempoolOptions with
    | none => some (.ok txs, s)
    | some (txBz, mempool) =>
      match X.unmarshal txBz with
      | .error err => some (.error err, { s with mempool })
      | .ok tx =>
        let total := txsTotalBz + UInt64.ofNat txBz.length
        if maxTxBytes ≤ total then
          match mempool.push X.mempoolOptions txBz with
          | none => some (.error errDuplicateTransaction.error, { s with mempool })
          | some mempool => some (.ok txs, { s with mempool })
        else
          match executeTx X height committed calls i txs.length tx { s with mempool } with
          | none => none
          -- a transaction that fails is dropped; what it wrote is not taken back
          | some (.error _, s) => reapMempool maxTxBytes rounds (i + 1) txs txsTotalBz s
          | some (.ok idxTx, s) =>
            if calls.indexFails i then none
            else reapMempool maxTxBytes rounds (i + 1) (txs ++ [txBz]) total
              { s with index := s.index.index X idxTx }

/-- SOURCE: utility/unit_of_work/uow_leader.go:32-66 -/
def createProposalBlock (proposer : Bytes) (maxTxBytes : UInt64) (s : BlockState) :
    Outcome (String × List Bytes) :=
  (runUow height committed beginBlock calls.beginFails s).andThen fun _ s =>
  (reapMempool X height committed calls maxTxBytes s.mempool.queue.length 0 [] 0 s).andThen
    fun txs s =>
  (runUow height committed (endBlock height calls.orders proposer) calls.endFails s).andThen
    fun _ s =>
  calls.stateHash.map fun stateHash => (.ok (stateHash, txs), s)

end UnitOfWork

/-! ## A node -/

structure UnitOfWork where
  db : Database
  executed : List Transaction

/-- A node between blocks: the height of the next block, the committed state, the transactions
that were executed for each committed block, and the unit of work, if one is open. -/
structure PipelineNode where
  height : ℤ
  committed : Database
  blocks : List (List Transaction)
  mempool : TxMempool
  index : TxIndex
  uow : Option UnitOfWork

inductive PipelineEvent
  | gossip (lookup : Option String) (txProtoBytes : Bytes)
  | refresh
  | applyBlock (calls : BlockCalls) (proposal : Proposal)
  | createProposalBlock (calls : BlockCalls) (proposer : Bytes) (maxTxBytes : UInt64)
  | release
  | commit

namespace PipelineNode

/-- The open unit of work runs a function, whatever the function returns. -/
def onUow {α : Type} (n : PipelineNode) (f : BlockState → Outcome α) : Option PipelineNode :=
  match n.uow with
  | none => some n
  | some uow =>
    (f ⟨uow.db, uow.executed, n.mempool, n.index⟩).map fun (_, s) =>
      { n with mempool := s.mempool, index := s.index, uow := some ⟨s.db, s.executed⟩ }

/-- SOURCE: consensus/block.go:11-35, 77-102, utility/uow.go:8-27,
utility/unit_of_work/module.go:106-130 -/
def handle (n : PipelineNode) : PipelineEvent → Option PipelineNode
  | .gossip lookup txProtoBytes =>
    match handleGossip X n.mempool n.index lookup txProtoBytes with
    | .ok mempool => some { n with mempool }
    | .error _ => some n
  | .refresh => some { n with uow := some ⟨n.committed, []⟩ }
  | .applyBlock calls proposal =>
    n.onUow (Utility.applyBlock X n.height n.committed calls proposal)
  | .createProposalBlock calls proposer maxTxBytes =>
    n.onUow (Utility.createProposalBlock X n.height n.committed calls proposer maxTxBytes)
  | .release => some { n with uow := none }
  | .commit =>
    match n.uow with
    | none => some n
    | some uow => some { n with
        height := n.height + 1
        committed := uow.db
        blocks := n.blocks ++ [uow.executed]
        uow := none }

end PipelineNode

/-- `none` is a process that ended. -/
def stepPipeline (n : Option PipelineNode) (event : PipelineEvent) : Option PipelineNode :=
  n.bind fun n => n.handle X event

end Pocket.Utility
