import Pocket.Library.Interleaving
import Pocket.Utility.TxPipeline

/-!
# The users of the mempool

Gossip and the RPC server call `HandleTransaction`, a leader reaps the mempool, and a replica takes the
transactions of a proposal out of it.  They run at the same time, and only the operations of the mempool
and of the index are atomic: what a user found in the mempool may be gone when it writes.

Each user is a program on the mempool and the index.  What it has to itself, the unit of work and the
transactions it has reaped, is in the program.  The loop of the reaper is cut off after a number of
rounds, since others may add transactions for as long as it runs.
-/

set_option autoImplicit false

namespace Pocket.Utility

open Model (Bytes)
open Interleaving (Prog)

/-- What the users share. -/
structure SharedPool where
  mempool : TxMempool
  index : TxIndex

/-- What a user returns. -/
inductive UserResult
  | handled (result : Except String Unit)
  | reaped (result : Except String (List Bytes))
  | processed (result : Except String Unit)

abbrev UserProgram := Prog SharedPool UserResult

namespace UserProgram

/-- `return`. -/
def returns (result : UserResult) : UserProgram := .emit [result] .done

variable (X : Host)

/-- `AddTx`, in the last step of a user. -/
def addTx (tx : Bytes) (result : Except String Unit → UserResult) : UserProgram :=
  .atomic (fun s => match s.mempool.push X.mempoolOptions tx with
    | some mempool => (some { s with mempool }, [result (.ok ())])
    | none => (some s, [result (.error errDuplicateTransaction.error)])) fun _ => .done

/-- `PopTx`, which may find the mempool empty though it was not before. -/
def popTx (next : Except String Bytes → UserProgram) : UserProgram :=
  .atomic (fun s => match s.mempool.pop X.mempoolOptions with
    | some (_, mempool) => (some { s with mempool }, [])
    | none => (some s, [])) fun s => match s.mempool.pop X.mempoolOptions with
    | some (tx, _) => next (.ok tx)
    | none => next (.error "empty set")

/-- `IndexTransaction`, which ends the process when it fails. -/
def indexTransaction (fails : Bool) (idxTx : IndexedTransaction) (next : UserProgram) : UserProgram :=
  if fails then .crash else .write (fun s => { s with index := s.index.index X idxTx }) next

/-- `lookup` is the error of the index, if it fails.
SOURCE: utility/transaction.go:13-41 -/
def handleTransaction (lookup : Option String) (txProtoBytes : Bytes) : UserProgram :=
  let txHash := X.txHash txProtoBytes
  .read (fun s => s.mempool.containsIndex txHash) fun inMempool =>
  if inMempool then returns (.handled (.error errDuplicateTransaction.error))
  else
    .read (fun s => lookup.elim (transactionExists s.index txHash) .error) fun
      | .error err => returns (.handled (.error err))
      | .ok true => returns (.handled (.error errTransactionAlreadyCommitted.error))
      | .ok false =>
        match X.unmarshal txProtoBytes with
        | .error err => returns (.handled (.error (errProtoUnmarshal err).error))
        | .ok tx =>
          match tx.validateBasic X.toPlatform with
          | .error err => returns (.handled (.error err.error))
          | .ok () => addTx X txProtoBytes .handled

section UnitOfWork

variable (height : ℤ) (committed : Database) (calls : BlockCalls)

/-- A transaction in the unit of work, which needs nothing of what the users share. -/
def execute (i index : ℕ) (tx : Transaction) (uow : UnitOfWork) :
    Option (Except String IndexedTransaction × UnitOfWork) :=
  (executeTx X height committed calls i index tx ⟨uow.db, uow.executed, .empty, .empty⟩).map
    fun (result, s) => (result, ⟨s.db, s.executed⟩)

/-- SOURCE: utility/unit_of_work/uow_leader.go:69-119 -/
def reapMempool (maxTxBytes : UInt64) :
    ℕ → ℕ → List Bytes → UInt64 → UnitOfWork → UserProgram
  | 0, _, txs, _, _ => returns (.reaped (.ok txs))
  | rounds + 1, i, txs, txsTotalBz, uow =>
    .read (fun s => s.mempool.isEmpty) fun isEmpty =>
    if isEmpty then returns (.reaped (.ok txs))
    else
      popTx X fun
        | .error err => returns (.reaped (.error err))
        | .ok txBz =>
          match X.unmarshal txBz with
          | .error err => returns (.reaped (.error err))
          | .ok tx =>
            let total := txsTotalBz + UInt64.ofNat txBz.length
            if maxTxBytes ≤ total then addTx X txBz fun added => .reaped (added.map fun _ => txs)
            else
              match execute X height committed calls i txs.length tx uow with
              | none => .crash
              | some (.error _, uow) => reapMempool maxTxBytes rounds (i + 1) txs txsTotalBz uow
              | some (.ok idxTx, uow) =>
                indexTransaction X (calls.indexFails i) idxTx
                  (reapMempool maxTxBytes rounds (i + 1) (txs ++ [txBz]) total uow)

/-- SOURCE: utility/unit_of_work/module.go:141-178 -/
def processProposalBlockTransactions : ℕ → List Bytes → UnitOfWork → UserProgram
  | _, [], _ => returns (.processed (.ok ()))
  | i, txProtoBytes :: txs, uow =>
    match X.unmarshal txProtoBytes with
    | .error err => returns (.processed (.error err))
    | .ok tx =>
      match tx.validateBasic X.toPlatform with
      | .error err => returns (.processed (.error err.error))
      | .ok () =>
        match execute X height committed calls i i tx uow with
        | none => .crash
        | some (.error err, _) => returns (.processed (.error err))
        | some (.ok idxTx, uow) =>
          match X.hash tx with
          | .error err => returns (.processed (.error err))
          | .ok txHash =>
            let indexed := indexTransaction X (calls.indexFails i) idxTx
              (processProposalBlockTransactions (i + 1) txs uow)
            .read (fun s => s.mempool.containsIndex txHash) fun inMempool =>
            if inMempool then
              .write (fun s => { s with mempool := s.mempool.remove X.mempoolOptions txProtoBytes })
                indexed
            else indexed

end UnitOfWork

end UserProgram

/-- A call of one of the users, with what it is given. -/
inductive MempoolUser
  | handleTransaction (lookup : Option String) (txProtoBytes : Bytes)
  | reapMempool (height : ℤ) (committed : Database) (calls : BlockCalls) (uow : UnitOfWork)
      (maxTxBytes : UInt64) (rounds : ℕ)
  | processProposalBlockTransactions (height : ℤ) (committed : Database) (calls : BlockCalls)
      (uow : UnitOfWork) (txs : List Bytes)

def MempoolUser.program (X : Host) : MempoolUser → UserProgram
  | .handleTransaction lookup txProtoBytes => .handleTransaction X lookup txProtoBytes
  | .reapMempool height committed calls uow maxTxBytes rounds =>
    .reapMempool X height committed calls maxTxBytes rounds 0 [] 0 uow
  | .processProposalBlockTransactions height committed calls uow txs =>
    .processProposalBlockTransactions X height committed calls 0 txs uow

end Pocket.Utility
