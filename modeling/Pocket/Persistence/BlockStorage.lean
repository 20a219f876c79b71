import Pocket.Persistence.Module

/-!
# Blocks that are stored

A node of `Pocket.Utility.TxPipeline` with the block table and the block store of its persistence
module.  A commit stores the block that `prepareBlock` puts together.
-/

set_option autoImplicit false

namespace Pocket.Persistence

open Model (Bytes)
open Utility

/-- What a commit puts in the header of the block. -/
structure Seal where
  stateHash : String
  proposerAddr : Bytes
  quorumCert : Bytes
  now : ℤ × ℤ

structure StoringNode where
  node : PipelineNode
  blocks : List (ℤ × String)
  blockStore : ℤ → Option Model.Block

namespace StoringNode

variable (B : Backend)

/-- The persistence module while a unit of work is open.  The flags and the trees have no part in
a commit. -/
def persistence (s : StoringNode) (uow : UnitOfWork) (stateHash : String) : PersistenceModule where
  sql := ⟨s.node.committed, .empty⟩
  blocks := s.blocks
  blockStore := s.blockStore
  trees := .setupTrees
  index := s.node.index
  writeContext := some ⟨s.node.height, ⟨uow.db, .empty⟩, stateHash⟩

/-- A commit that fails leaves the unit of work as it was.
SOURCE: utility/unit_of_work/module.go:106-113, persistence/context.go:62-93 -/
def commit (s : StoringNode) (sealing : Seal) : Option StoringNode :=
  match s.node.uow with
  | none => some s
  | some uow =>
    match (s.persistence uow sealing.stateHash).commit B sealing.proposerAddr sealing.quorumCert
        sealing.now with
    | (.error _, m) => some { s with blockStore := m.blockStore }
    | (.ok (), m) => (s.node.handle B.toHost .commit).map fun node =>
      ⟨node, m.blocks, m.blockStore⟩

/-- Only a commit reads the seal. -/
def handle (s : StoringNode) (event : PipelineEvent) (sealing : Seal) : Option StoringNode :=
  match event with
  | .commit => s.commit B sealing
  | event => (s.node.handle B.toHost event).map fun node => { s with node }

/-- A node that has committed the genesis block and indexed nothing. -/
def start (genesisHash : String) (genesis : Model.Block) (committed : Database)
    (mempool : TxMempool) : StoringNode where
  node := ⟨1, committed, [], mempool, .empty, none⟩
  blocks := [(0, genesisHash)]
  blockStore := Function.update (fun _ => none) 0 (some genesis)

end StoringNode

end Pocket.Persistence
