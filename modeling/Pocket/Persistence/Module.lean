import Pocket.Persistence.StateTrees

/-!
# The persistence module

One write context is open at a time.  What is written through it goes to a SQL transaction, which
`Commit` commits and `Release` rolls back; `IndexTransaction` and `ComputeStateHash` write to the
index of transactions and to the state trees, which are the module's and know no rollback.

A committed block is stored twice, in the block store and in a table of the SQL database, and the
block that is stored is put together from the index.
-/

set_option autoImplicit false

namespace Pocket.Persistence

open Model (Bytes)
open Utility (TxIndex IndexedTransaction)

variable (B : Backend)

/-- SOURCE: persistence/context.go:20-37 -/
structure Context where
  height : ℤ
  sql : SqlState
  stateHash : String

/-- The committed rows and the block table are the SQL database; a write context is there while it
is open.
SOURCE: persistence/module.go:28-53 -/
structure PersistenceModule where
  sql : SqlState
  blocks : List (ℤ × String)
  blockStore : ℤ → Option Model.Block
  trees : TreeStore
  index : TxIndex
  writeContext : Option Context

namespace PersistenceModule

/-! ## The write context -/

/-- SOURCE: persistence/module.go:152-188 -/
def newRWContext (m : PersistenceModule) (height : ℤ) : Except String PersistenceModule :=
  match m.writeContext with
  | some _ => .error "cannot create a new write context if one already exists"
  | none => .ok { m with writeContext := some ⟨height, m.sql, ""⟩ }

/-- SOURCE: persistence/context.go:52-59 -/
def computeStateHash (m : PersistenceModule) (updateOrder hashOrder : TreeOrder) :
    Option (String × PersistenceModule) :=
  m.writeContext.bind fun ctx =>
    (m.trees.update B ctx.sql m.index ctx.height updateOrder hashOrder).map fun (stateHash, trees) =>
      (stateHash, { m with trees, writeContext := some { ctx with stateHash } })

/-- SOURCE: persistence/context.go:114-116 -/
def indexTransaction (m : PersistenceModule) (idxTx : IndexedTransaction) : PersistenceModule :=
  { m with index := m.index.index B.toHost idxTx }

/-- SOURCE: persistence/block.go:44-53 -/
def getBlockHash (m : PersistenceModule) (height : ℤ) : Except String String :=
  match m.blocks.find? fun block => block.1 = height with
  | some block => .ok block.2
  | none => .error Utility.noRows

/-- The hash of the block before, which the first block has not. -/
def prevBlockHash (m : PersistenceModule) (height : ℤ) : Except String String :=
  if height ≠ 0 then m.getBlockHash (height - 1) else .ok ""

/-- SOURCE: persistence/block.go:60-106 -/
def prepareBlock (m : PersistenceModule) (ctx : Context) (proposerAddr quorumCert : Bytes)
    (now : ℤ × ℤ) : Except String Model.Block := do
  let prevBlockHash ← m.prevBlockHash ctx.height
  let idxTxs ← getByHeight m.index ctx.height
  return {
    blockHeader := some {
      height := ctx.height.toNat
      networkId := B.networkId
      stateHash := ctx.stateHash
      prevStateHash := prevBlockHash
      proposerAddress := proposerAddr
      quorumCertificate := quorumCert
      timestamp := some now }
    transactions := idxTxs.map IndexedTransaction.tx }

def duplicateKey : String := "duplicate key value violates unique constraint \"block_pkey\""

/-- The block store is written before the SQL transaction can still fail.
SOURCE: persistence/context.go:62-93 -/
def commit (m : PersistenceModule) (proposerAddr quorumCert : Bytes) (now : ℤ × ℤ) :
    Except String Unit × PersistenceModule :=
  match m.writeContext with
  | none => (.error "tx is closed", m)
  | some ctx =>
    match m.prepareBlock B ctx proposerAddr quorumCert now with
    | .error err => (.error err, m)
    | .ok block =>
      let m := { m with blockStore := Function.update m.blockStore ctx.height (some block) }
      if m.blocks.any fun stored => stored.1 = ctx.height then (.error duplicateKey, m)
      else (.ok (), { m with
        sql := ctx.sql
        blocks := m.blocks ++ [(ctx.height, ctx.stateHash)]
        writeContext := none })

/-- The errors of the steps of a commit that fail. -/
structure CommitFailures where
  prepareBlock : Option String
  storeBlock : Option String
  insertBlock : Option String
  txCommit : Option String
deriving DecidableEq, Repr

/-- A commit whose steps may fail.  What a step that fails would have written is not written.
SOURCE: persistence/context.go:62-93 -/
def commitFailing (m : PersistenceModule) (failures : CommitFailures)
    (proposerAddr quorumCert : Bytes) (now : ℤ × ℤ) : Except String Unit × PersistenceModule :=
  match m.writeContext with
  | none => (.error "tx is closed", m)
  | some ctx =>
    match failures.prepareBlock, m.prepareBlock B ctx proposerAddr quorumCert now with
    | some err, _ => (.error err, m)
    | none, .error err => (.error err, m)
    | none, .ok block =>
      match failures.storeBlock with
      | some err => (.error err, m)
      | none =>
        let m := { m with blockStore := Function.update m.blockStore ctx.height (some block) }
        match failures.insertBlock with
        | some err => (.error err, m)
        | none =>
          if m.blocks.any fun stored => stored.1 = ctx.height then (.error duplicateKey, m)
          else match failures.txCommit with
            | some err => (.error err, m)
            | none => (.ok (), { m with
                sql := ctx.sql
                blocks := m.blocks ++ [(ctx.height, ctx.stateHash)]
                writeContext := none })

/-- SOURCE: persistence/context.go:95-111, module.go:214-225 -/
def release (m : PersistenceModule) : PersistenceModule := { m with writeContext := none }

/-! ## Contexts from their opening to their end -/

/-- What is done with a write context.  A write is the effect of a SQL statement on the rows. -/
inductive Call
  | write (statement : SqlState → SqlState)
  | indexTransaction (idxTx : IndexedTransaction)
  | computeStateHash (updateOrder hashOrder : TreeOrder)

/-- `none` is a state hash that cannot be computed, which ends the process. -/
def call (m : PersistenceModule) : Call → Option PersistenceModule
  | .write statement => some { m with
      writeContext := m.writeContext.map fun ctx => { ctx with sql := statement ctx.sql } }
  | .indexTransaction idxTx => some (m.indexTransaction B idxTx)
  | .computeStateHash updateOrder hashOrder =>
    (m.computeStateHash B updateOrder hashOrder).map Prod.snd

def calls (m : PersistenceModule) : List Call → Option PersistenceModule
  | [] => some m
  | c :: cs => (m.call B c).bind fun m => m.calls cs

inductive Ending
  | release
  | commit (proposerAddr quorumCert : Bytes) (now : ℤ × ℤ)

/-- A write context with all that is done with it. -/
structure Session where
  height : ℤ
  calls : List Call
  ending : Ending

/-- A session that ends in `commit` is one whose commit succeeds. -/
def finish (m : PersistenceModule) : Ending → Option PersistenceModule
  | .release => some m.release
  | .commit proposerAddr quorumCert now =>
    match m.commit B proposerAddr quorumCert now with
    | (.ok (), m) => some m
    | (.error _, _) => none

def session (m : PersistenceModule) (s : Session) : Option PersistenceModule :=
  match m.newRWContext s.height with
  | .error _ => none
  | .ok m => (m.calls B s.calls).bind fun m => m.finish B s.ending

def sessions (m : PersistenceModule) : List Session → Option PersistenceModule
  | [] => some m
  | s :: ss => (m.session B s).bind fun m => m.sessions ss

/-- The state hash of a block at the height, after the calls of its context. -/
def stateHashOf (m : PersistenceModule) (height : ℤ) (cs : List Call)
    (updateOrder hashOrder : TreeOrder) : Option String :=
  match m.newRWContext height with
  | .error _ => none
  | .ok m => (m.calls B cs).bind fun m => (m.computeStateHash B updateOrder hashOrder).map Prod.fst

def Session.committed (s : Session) : Bool :=
  match s.ending with
  | .release => false
  | .commit _ _ _ => true

/-! ## Creating the module -/

def getMaximumBlockHeight (m : PersistenceModule) : Option ℤ := (m.blocks.map Prod.fst).max?

/-- The index of transactions is not among what is cleared.
SOURCE: persistence/debug.go:53-93 -/
def clearAllState (m : PersistenceModule) : PersistenceModule :=
  { m with
    sql := ⟨⟨.empty, .empty, .empty, fun _ => .empty, fun _ => []⟩, .empty⟩
    blocks := []
    blockStore := fun _ => none
    trees := .setupTrees }

/-- The genesis state is what its statements write.
SOURCE: persistence/genesis.go:15-139 -/
def populateGenesisState (m : PersistenceModule) (genesis : SqlState → SqlState)
    (updateOrder hashOrder : TreeOrder) (now : ℤ × ℤ) : Option PersistenceModule :=
  m.session B ⟨0, [.write genesis, .computeStateHash updateOrder hashOrder], .commit [] [] now⟩

/-- The module that is created where `m` was stopped: the database, the block store and the index
are there, the trees are set up anew.
SOURCE: persistence/module.go:59-134, 262-283 -/
def create (m : PersistenceModule) (genesis : SqlState → SqlState)
    (updateOrder hashOrder : TreeOrder) (now : ℤ × ℤ) : Option PersistenceModule :=
  let m := { m with trees := .setupTrees, writeContext := none }
  match m.getMaximumBlockHeight with
  | none => m.populateGenesisState B genesis updateOrder hashOrder now
  | some blockHeight =>
    if 0 < blockHeight then some m
    else m.clearAllState.populateGenesisState B genesis updateOrder hashOrder now

end PersistenceModule

end Pocket.Persistence
