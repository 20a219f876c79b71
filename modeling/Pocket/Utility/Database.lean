import Pocket.Library.StoreProgram
import Pocket.Library.VersionedTable
import Pocket.Utility.Messages

/-!
# The database behind a unit of work

What the persistence calls of the utility module read and write: one versioned table each for
accounts, pools, parameters and every kind of actor, and the rows of the chains tables.  A
query and an update stand for one SQL statement with its arguments as data, as its template
means it; the text of the statements is the subject of `Pocket.Utility.SqlText`.

The amount column of an account or a pool holds the decimal text of an integer, because every
statement that writes it prints one; it is that integer here.  Stakes and parameters are
written as they come in a message, so they stay texts.

Both contexts of a unit of work are opened at its height, which is a parameter of the store.
-/

set_option autoImplicit false

namespace Pocket.Utility

open Model (Bytes)
open StoreProgram VersionedTable

/-- SOURCE: persistence/types/actor_shared_sql.go:38-65 -/
structure ActorRow where
  publicKey : String
  stakedTokens : String
  serviceUrl : String
  outputAddress : String
  pausedHeight : ℤ
  unstakingHeight : ℤ
deriving DecidableEq, Repr

/-- SOURCE: persistence/types/actor_shared_sql.go:67-75 -/
structure ChainRow where
  address : String
  chainId : String
  height : ℤ
deriving DecidableEq, Repr

structure Database where
  accounts : Table String ℤ ℤ
  pools : Table String ℤ ℤ
  params : Table String ℤ String
  actors : ActorType → Table String ℤ ActorRow
  chains : ActorType → List ChainRow

/-- SOURCE: shared/modules/types/proto/unstaking_actor.proto -/
structure UnstakingActor where
  address : String
  stakeAmount : String
  outputAddress : String
deriving DecidableEq, Repr

/-! ## Queries -/

inductive Query
  | account (address : String)
  | pool (address : String)
  | param (name : String)
  | actorExists (t : ActorType) (address : String)
  | stakedTokens (t : ActorType) (address : String)
  | outputAddress (t : ActorType) (address : String)
  | pausedHeight (t : ActorType) (address : String)
  | unstakingHeight (t : ActorType) (address : String)
  | readyToUnstake (t : ActorType)
deriving DecidableEq, Repr

@[reducible] def Answer : Query → Type
  | .account _ => ℤ
  | .pool _ => ℤ
  | .param _ => String
  | .actorExists _ _ => Bool
  | .stakedTokens _ _ => String
  | .outputAddress _ _ => String
  | .pausedHeight _ _ => ℤ
  | .unstakingHeight _ _ => ℤ
  | .readyToUnstake _ => List UnstakingActor

def noRows : String := "no rows in result set"

/-- `SELECT … WHERE address='…' AND height<=… ORDER BY height DESC LIMIT 1`, scanned into a
variable.
SOURCE: persistence/types/actor_shared_sql.go:82-85 -/
def selectLatest {ν α : Type} (t : Table String ℤ ν) (column : ν → α) (address : String)
    (height : ℤ) : Except String α :=
  match t.lookup address height with
  | some row => .ok (column row)
  | none => .error noRows

/-- The row is the newest of its key, at whatever height. -/
def isNewest {ν : Type} (t : Table String ℤ ν) (row : Row String ℤ ν) : Bool :=
  t.rows.all fun other => other.key ≠ row.key ∨ other.height ≤ row.height

/-- SOURCE: persistence/types/actor_shared_sql.go:111-117 -/
def selectReadyToUnstake (t : Table String ℤ ActorRow) (unstakingHeight : ℤ) :
    List UnstakingActor :=
  (t.rows.filter fun row => row.value.unstakingHeight = unstakingHeight ∧ isNewest t row).map
    fun row => ⟨row.key, row.value.stakedTokens, row.value.outputAddress⟩

/-- An account or a pool without a row has nothing; anything else without a row is an error.
SOURCE: persistence/account_shared_sql.go:16-24, gov.go:129-142, actor_shared_sql.go:14-22 -/
def answer (height : ℤ) (db : Database) : (q : Query) → Except String (Answer q)
  | .account address => .ok (db.accounts.amount address height)
  | .pool address => .ok (db.pools.amount address height)
  | .param name => selectLatest db.params id name height
  | .actorExists t address => .ok ((db.actors t).lookup address height).isSome
  | .stakedTokens t address => selectLatest (db.actors t) ActorRow.stakedTokens address height
  | .outputAddress t address => selectLatest (db.actors t) ActorRow.outputAddress address height
  | .pausedHeight t address => selectLatest (db.actors t) ActorRow.pausedHeight address height
  | .unstakingHeight t address => selectLatest (db.actors t) ActorRow.unstakingHeight address height
  | .readyToUnstake t => .ok (selectReadyToUnstake (db.actors t) height)

/-! ## Updates -/

/-- The values that a parameter can be given; a small integer is an `int` or an `int32`.
SOURCE: persistence/types/gov.go:103-105 -/
inductive ParamValue
  | smallInt (v : ℤ)
  | bigInt (v : ℤ)
  | bytes (v : Bytes)
  | string (v : String)
deriving DecidableEq, Repr

/-- The text in the value column.
SOURCE: persistence/types/gov.go:119-130 -/
def ParamValue.text : ParamValue → String
  | smallInt v => toString v
  | bigInt v => toString v
  | bytes v => Text.hexEncode v
  | string v => v

inductive Update
  | setAccount (address : String) (amount : ℤ)
  | addAccount (address : String) (amount : ℤ)
  | setPool (address : String) (amount : ℤ)
  | addPool (address : String) (amount : ℤ)
  | subPool (address : String) (amount : ℤ)
  | setParam (name : String) (value : ParamValue)
  | insertActor (t : ActorType) (address : String) (row : ActorRow) (chains : List String)
  | updateActor (t : ActorType) (address stakedTokens serviceUrl : String)
  | nullifyChains (t : ActorType) (address : String)
  | insertChains (t : ActorType) (address : String) (chains : List String)
  | setStakeAmount (t : ActorType) (address stakedTokens : String)
  | setUnstakingHeight (t : ActorType) (address : String) (unstakingHeight : ℤ)
  | setPausedHeight (t : ActorType) (address : String) (pausedHeight : ℤ)
  | unstakePausedBefore (t : ActorType) (pausedBeforeHeight unstakingHeight : ℤ)
deriving DecidableEq, Repr

namespace Database

variable (height : ℤ)

def setAccount (db : Database) (address : String) (amount : ℤ) : Database :=
  { db with accounts := db.accounts.upsert address height amount }

def setPool (db : Database) (address : String) (amount : ℤ) : Database :=
  { db with pools := db.pools.upsert address height amount }

def setActors (db : Database) (t : ActorType) (table : Table String ℤ ActorRow) : Database :=
  { db with actors := Function.update db.actors t table }

/-- `ON CONFLICT … DO NOTHING`, also between the rows of one statement.
SOURCE: persistence/types/actor_shared_sql.go:146-162 -/
def insertChains (db : Database) (t : ActorType) (address : String) (chains : List String) :
    Database :=
  let rows := chains.foldl (fun rows chain =>
    if ⟨address, chain, height⟩ ∈ rows then rows else rows ++ [⟨address, chain, height⟩])
    (db.chains t)
  { db with chains := Function.update db.chains t rows }

/-- A row that is already there at this height keeps its public key and its output address.
SOURCE: persistence/types/actor_shared_sql.go:119-144 -/
def insertActor (db : Database) (t : ActorType) (address : String) (row : ActorRow)
    (chains : List String) : Database :=
  let table := db.actors t
  let inserted := match table.written address height with
    | some old => { row with publicKey := old.publicKey, outputAddress := old.outputAddress }
    | none => row
  let db := db.setActors t (table.upsert address height inserted)
  if chains = [] then db else db.insertChains height t address chains

/-- The latest row of the actor, with some columns changed, at the current height; nothing
when the actor has no row.
SOURCE: persistence/types/actor_shared_sql.go:164-222 -/
def updateRow (db : Database) (t : ActorType) (address : String) (change : ActorRow → ActorRow) :
    Database :=
  match (db.actors t).lookup address height with
  | some row => db.setActors t ((db.actors t).upsert address height (change row))
  | none => db

/-- SOURCE: persistence/types/actor_shared_sql.go:224-239 -/
def unstakePausedBefore (db : Database) (t : ActorType) (pausedBeforeHeight unstakingHeight : ℤ) :
    Database :=
  let table := db.actors t
  let selected := table.rows.filter fun row =>
    row.value.pausedHeight < pausedBeforeHeight ∧ 0 ≤ row.value.pausedHeight ∧ isNewest table row
  db.setActors t <| selected.foldl (fun table row =>
    let base := (table.written row.key height).getD row.value
    table.upsert row.key height { base with unstakingHeight }) table

end Database

def apply (height : ℤ) (db : Database) : Update → Database
  | .setAccount address amount => db.setAccount height address amount
  | .addAccount address amount =>
    db.setAccount height address (db.accounts.amount address height + amount)
  | .setPool address amount => db.setPool height address amount
  | .addPool address amount => db.setPool height address (db.pools.amount address height + amount)
  | .subPool address amount => db.setPool height address (db.pools.amount address height - amount)
  | .setParam name value => { db with params := db.params.upsert name height value.text }
  | .insertActor t address row chains => db.insertActor height t address row chains
  | .updateActor t address stakedTokens serviceUrl =>
    db.updateRow height t address fun row => { row with stakedTokens, serviceUrl }
  | .nullifyChains t address =>
    let kept := (db.chains t).filter fun row => ¬ (row.address = address ∧ row.height = height)
    { db with chains := Function.update db.chains t kept }
  | .insertChains t address chains => db.insertChains height t address chains
  | .setStakeAmount t address stakedTokens =>
    db.updateRow height t address fun row => { row with stakedTokens }
  | .setUnstakingHeight t address unstakingHeight =>
    db.updateRow height t address fun row => { row with unstakingHeight }
  | .setPausedHeight t address pausedHeight =>
    db.updateRow height t address fun row => { row with pausedHeight }
  | .unstakePausedBefore t pausedBeforeHeight unstakingHeight =>
    db.unstakePausedBefore height t pausedBeforeHeight unstakingHeight

/-- The calls of one unit of work, at its height. -/
def store (height : ℤ) : Store Query Answer Update String Database where
  answer := answer height
  apply := apply height

/-- A function of the unit of work that returns an error of the protocol. -/
abbrev Uow := Fallible Query Answer Update String Error

end Pocket.Utility
