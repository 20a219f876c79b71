import Pocket.Library.LeafMap
import Pocket.Utility.TxPipeline

/-!
# The state trees

`ComputeStateHash` reads what was written at the height of its context, the rows of the SQL tables
as the open transaction sees them and the transactions in the index, and sets a leaf for each in
the tree it belongs to.  The roots of the nine trees are leaves of the root tree, whose root is the
state hash.

The trees live in memory, beside the SQL transaction: an update is not undone when the transaction
is rolled back.

A sparse Merkle tree is the map it commits to, and its root an injective function of that map.
-/

set_option autoImplicit false

namespace Pocket.Persistence

open Model (Bytes)
open Utility (ActorRow ActorType Database TxIndex IndexedTransaction)
open VersionedTable
open Text (hexEncode hexDecode)

/-! ## The rows -/

structure FlagRow where
  value : String
  enabled : Bool
deriving DecidableEq, Repr

/-- The tables that the trees are computed from. -/
structure SqlState where
  db : Database
  flags : Table String ℤ FlagRow

/-! ## Messages in the leaves -/

/-- SOURCE: shared/core/types/proto/actor.proto:24-36 -/
structure ActorMessage where
  actorType : ActorType
  address : String
  publicKey : String
  chains : List String
  serviceUrl : String
  stakedAmount : String
  pausedHeight : ℤ
  unstakingHeight : ℤ
  output : String
deriving DecidableEq, Repr

/-- SOURCE: shared/core/types/proto/account.proto -/
structure AccountMessage where
  address : String
  amount : String
deriving DecidableEq, Repr

/-- SOURCE: shared/core/types/proto/param.proto:7-11 -/
structure ParamMessage where
  name : String
  value : String
  height : ℤ
deriving DecidableEq, Repr

/-- SOURCE: shared/core/types/proto/param.proto:13-18 -/
structure FlagMessage where
  name : String
  value : String
  height : ℤ
  enabled : Bool
deriving DecidableEq, Repr

abbrev Tree := LeafMap Bytes Bytes

/-- The codec, the hash functions and the trees' commitment. -/
structure Backend extends Utility.Host where
  networkId : String
  marshalActor : ActorMessage → Bytes
  marshalAccount : AccountMessage → Bytes
  marshalParam : ParamMessage → Bytes
  marshalFlag : FlagMessage → Bytes
  root : Tree → Bytes
  root_injective : Function.Injective root

variable (B : Backend)

/-! ## Transactions at a height -/

/-- Positions in a block are of type `int32`, and never negative. -/
@[irreducible] def positionCount : ℕ := 2 ^ 31

def keyNotFound : String := "Key not found"

/-- The hashes under the keys of a height, in the order of the keys, which is that of the
positions. -/
def hashKeysAt (index : TxIndex) (height : ℤ) : List String :=
  (List.range positionCount).filterMap fun i : ℕ => index.refs (.height height i)

/-- SOURCE: persistence/indexer/indexer.go:97-99, 115-136, persistence/kvstore/kvstore.go:93-126 -/
def getByHeight (index : TxIndex) (height : ℤ) : Except String (List IndexedTransaction) :=
  (hashKeysAt index height).mapM fun hash =>
    match index.byHash hash with
    | some idxTx => .ok idxTx
    | none => .error keyNotFound

/-! ## The leaves of each tree -/

/-- SOURCE: persistence/trees/trees.go:30-41, 57-64 -/
inductive TreeName
  | app
  | val
  | fish
  | servicer
  | account
  | pool
  | transactions
  | params
  | flags
deriving DecidableEq, Repr

/-- A leaf: its path and its value. -/
abbrev Leaf := Bytes × Bytes

section Leaves

variable (sql : SqlState) (index : TxIndex) (height : ℤ)

/-- `SELECT … WHERE height=…`.
SOURCE: persistence/types/actor_shared_sql.go:77-80 -/
def updatedAt {ν : Type} (t : Table String ℤ ν) : List (Row String ℤ ν) :=
  t.rows.filter fun row => row.height = height

/-- SOURCE: persistence/actor_shared_sql.go:68-82 -/
def getActorFromRow (t : ActorType) (row : Row String ℤ ActorRow) : ActorMessage where
  actorType := t
  address := row.key
  publicKey := row.value.publicKey
  chains := []
  serviceUrl := row.value.serviceUrl
  stakedAmount := row.value.stakedTokens
  pausedHeight := row.value.pausedHeight
  unstakingHeight := row.value.unstakingHeight
  output := row.value.outputAddress

/-- The message of a row of an actor, with the chains of the row's height; a validator has none. -/
def actorMessage (t : ActorType) (row : Row String ℤ ActorRow) : ActorMessage :=
  { getActorFromRow t row with
    chains := if t = .val then [] else ((sql.db.chains t).filter fun chain =>
      chain.address = row.key ∧ chain.height = row.height).map Utility.ChainRow.chainId }

/-- An actor by its address, with its chains.
SOURCE: persistence/sql/sql.go:168-223 -/
def getActor (t : ActorType) (address : Bytes) : Option ActorMessage :=
  ((sql.db.actors t).latest (hexEncode address) height).map (actorMessage sql t)

/-- The path of an address that a row has as its text. -/
def addressPath (address : String) : Option Bytes := (hexDecode address).toOption

/-- SOURCE: persistence/sql/sql.go:23-65, persistence/trees/trees.go:237-259 -/
def actorLeaves (t : ActorType) : Option (List Leaf) :=
  (updatedAt height (sql.db.actors t)).mapM fun row => do
    let addr ← addressPath row.key
    let actor ← getActor sql height t addr
    let bzAddr ← addressPath actor.address
    return (bzAddr, B.marshalActor actor)

/-- SOURCE: persistence/sql/sql.go:68-92, persistence/trees/trees.go:265-303 -/
def accountLeaves (accounts : Table String ℤ ℤ) : Option (List Leaf) :=
  (updatedAt height accounts).mapM fun row => do
    let bzAddr ← addressPath row.key
    return (bzAddr, B.marshalAccount ⟨row.key, toString row.value⟩)

/-- SOURCE: persistence/trees/trees.go:309-318 -/
def transactionLeaves : Option (List Leaf) :=
  (getByHeight index height).toOption.map fun idxTxs =>
    idxTxs.map fun idxTx => (B.sha3 idxTx.tx, idxTx.tx)

/-- The path of a parameter or a flag. -/
def namePath (name : String) : Bytes := B.sha3 name.toUTF8.data.toList

/-- `SELECT … WHERE height=… ORDER BY name ASC`. -/
def updatedByName {ν : Type} (t : Table String ℤ ν) : List (Row String ℤ ν) :=
  (updatedAt height t).insertionSort fun row row' => row.key ≤ row'.key

/-- SOURCE: persistence/sql/sql.go:146-166, persistence/trees/trees.go:320-333 -/
def paramLeaves : List Leaf :=
  (updatedByName height sql.db.params).map fun row =>
    (namePath B row.key, B.marshalParam ⟨row.key, row.value, height⟩)

/-- SOURCE: persistence/sql/sql.go:123-143, persistence/trees/trees.go:335-348 -/
def flagLeaves : List Leaf :=
  (updatedByName height sql.flags).map fun row =>
    (namePath B row.key, B.marshalFlag ⟨row.key, row.value.value, height, row.value.enabled⟩)

/-- What the tree of each name is updated with; `none` is an error.
SOURCE: persistence/trees/trees.go:136-208 -/
def leaves : TreeName → Option (List Leaf)
  | .app => actorLeaves B sql height .app
  | .val => actorLeaves B sql height .val
  | .fish => actorLeaves B sql height .fish
  | .servicer => actorLeaves B sql height .servicer
  | .account => accountLeaves B height sql.db.accounts
  | .pool => accountLeaves B height sql.db.pools
  | .transactions => transactionLeaves B index height
  | .params => some (paramLeaves B sql height)
  | .flags => some (flagLeaves B sql height)

end Leaves

/-! ## The trees -/

namespace TreeName

def text : TreeName → String
  | app => "app"
  | val => "val"
  | fish => "fish"
  | servicer => "servicer"
  | account => "account"
  | pool => "pool"
  | transactions => "transactions"
  | params => "params"
  | flags => "flags"

/-- The path of the tree's root in the root tree. -/
def path (T : TreeName) : Bytes := T.text.toUTF8.data.toList

def all : List TreeName := [app, val, fish, servicer, account, pool, transactions, params, flags]

theorem mem_all (T : TreeName) : T ∈ all := by cases T <;> decide

theorem path_injective : Function.Injective path := by
  intro T T' h
  cases T <;> cases T' <;> first | rfl | exact absurd h (by decide +kernel)

end TreeName

/-- The order in which a loop visits the map of the trees. -/
def TreeOrder := { order : List TreeName // order.Perm TreeName.all }

theorem TreeOrder.nodup (order : TreeOrder) : order.1.Nodup := order.2.nodup_iff.2 (by decide)

theorem TreeOrder.mem (order : TreeOrder) (T : TreeName) : T ∈ order.1 :=
  order.2.mem_iff.2 T.mem_all

/-- SOURCE: persistence/trees/trees.go:81-88 -/
structure TreeStore where
  rootTree : Tree
  merkleTrees : TreeName → Tree

namespace TreeStore

/-- SOURCE: persistence/trees/module.go:50-79 -/
def setupTrees : TreeStore := ⟨∅, fun _ => ∅⟩

/-- SOURCE: persistence/trees/trees.go:219-230 -/
def getStateHash (ts : TreeStore) (order : TreeOrder) : String × TreeStore :=
  let rootTree := LeafMap.setAll ts.rootTree
    (order.1.map fun T => (T.path, B.root (ts.merkleTrees T)))
  (hexEncode (B.root rootTree), { ts with rootTree })

/-- The two orders are those of the two loops; `none` is an error.
SOURCE: persistence/trees/trees.go:105-109, 136-217 -/
def update (ts : TreeStore) (sql : SqlState) (index : TxIndex) (height : ℤ)
    (updateOrder hashOrder : TreeOrder) : Option (String × TreeStore) :=
  (LeafMap.updateEach (leaves B sql index height) updateOrder.1 ts.merkleTrees).map
    fun merkleTrees => getStateHash B { ts with merkleTrees } hashOrder

/-- The root tree has leaves for the trees only. -/
def RootsOnly (ts : TreeStore) : Prop := ∀ k, (∀ T, TreeName.path T ≠ k) → ts.rootTree.lookup k = none

theorem rootsOnly_setupTrees : setupTrees.RootsOnly := fun _ _ => Finmap.lookup_empty _

end TreeStore

end Pocket.Persistence
