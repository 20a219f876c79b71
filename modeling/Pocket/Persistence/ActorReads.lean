import Pocket.Library.DistinctRows
import Pocket.Persistence.StateTrees

/-!
# Reading actors, parameters and blocks at a height

A read context answers about any height, whatever the height it was opened at.  An actor is read with the
chains of the row it has at the height.  All actors of a kind are read in one statement, and the chains of
each in one more; these are asked for at the height of the row that came last, because scanning a row
writes its height over the height that was asked for.

Connections that break are not part of the model.
-/

set_option autoImplicit false

namespace Pocket.Persistence

open Model (Bytes)
open Utility (ActorRow ActorType ChainRow Database atoi noRows selectLatest)
open VersionedTable
open Text (hexEncode)

/-- What a read context sees: the tables of the state, and the hash of the block at each height.
SOURCE: persistence/context.go:20-37, persistence/types/block.go:6-14 -/
structure PostgresContext where
  db : Database
  blocks : ℤ → Option String

namespace PostgresContext

variable (ctx : PostgresContext)

/-- SOURCE: persistence/gov.go:52-55, 129-156 -/
def getIntParam (paramName : String) (height : ℤ) : Except String ℤ := do
  let stringVal ← selectLatest ctx.db.params id paramName height
  atoi stringVal

/-- SOURCE: persistence/block.go:44-53, persistence/types/block.go:24-26 -/
def getBlockHash (height : ℤ) : Except String String :=
  match ctx.blocks height with
  | some hash => .ok hash
  | none => .error noRows

/-- SOURCE: persistence/types/actor_shared_sql.go:96-99 -/
def selectChains (t : ActorType) (address : String) (height : ℤ) : List String :=
  match (ctx.db.actors t).latest address height with
  | none => []
  | some row => ((ctx.db.chains t).filter fun chain =>
      chain.address = address ∧ chain.height = row.height).map ChainRow.chainId

/-- Validators have no table of chains.
SOURCE: persistence/actor_shared_sql.go:84-114 -/
def getChainsForActor (actor : ActorMessage) (height : ℤ) : ActorMessage :=
  if actor.actorType = .val then actor
  else { actor with
    chains := actor.chains ++ ctx.selectChains actor.actorType actor.address height }

/-- SOURCE: persistence/actor.go:10-25, actor_shared_sql.go:59-66 -/
def getActor (t : ActorType) (address : Bytes) (height : ℤ) : Except String ActorMessage :=
  match (ctx.db.actors t).latest (hexEncode address) height with
  | none => .error noRows
  | some row => .ok (ctx.getChainsForActor (getActorFromRow t row) row.height)

/-- SOURCE: persistence/actor.go:83-133, persistence/types/actor_shared_sql.go:87-94 -/
def getAllActors (C : Collation String) (t : ActorType) (height : ℤ) : List ActorMessage :=
  let rows := (ctx.db.actors t).distinctOn C height
  -- the height is that of the last row from here on
  let height := (rows.getLast?.map Row.height).getD height
  rows.map fun row => ctx.getChainsForActor (getActorFromRow t row) height

def getAllServicers (C : Collation String) (height : ℤ) : List ActorMessage :=
  ctx.getAllActors C .servicer height

def getAllFishermen (C : Collation String) (height : ℤ) : List ActorMessage :=
  ctx.getAllActors C .fish height

end PostgresContext

end Pocket.Persistence
