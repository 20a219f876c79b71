import Pocket.Utility.Context

/-!
# The writers of a context

The calls of a write context that change rows, each as the statements it makes.  Amounts come as
texts and are parsed, and a call with an amount that does not parse changes nothing; everything else
that comes as a text is written as it is.

Every statement stamps the rows it writes with the height of the context.
-/

set_option autoImplicit false

namespace Pocket.Persistence

open Model (Bytes)
open Utility (ActorType ActorRow Database ParamValue Update stringToBigInt)
open Text (hexEncode)

/-- What is done with the amount that is there and the one that is given.
SOURCE: persistence/account.go:17-36, 52-71 -/
inductive AmountOperation
  | add
  | subtract
  | set
deriving DecidableEq, Repr

inductive Writer
  | accountAmount (op : AmountOperation) (address : Bytes) (amount : String)
  | poolAmount (op : AmountOperation) (address : Bytes) (amount : String)
  | setParam (paramName : String) (value : ParamValue)
  | insertActor (t : ActorType) (address publicKey output : Bytes)
      (stakedTokens serviceUrl : String) (chains : List String)
      (pausedHeight unstakingHeight : ℤ)
  | updateActor (t : ActorType) (address : Bytes) (stakedAmount serviceUrl : String)
      (chains : List String)
  | setActorPauseHeight (t : ActorType) (address : Bytes) (pauseHeight : ℤ)
  | setActorUnstakingHeightAndStatus (t : ActorType) (address : Bytes) (unstakingHeight : ℤ)
  | setActorStakeAmount (t : ActorType) (address : Bytes) (stakeAmount : String)
  | setActorStatusAndUnstakingHeightIfPausedBefore (t : ActorType)
      (pausedBeforeHeight unstakingHeight : ℤ)
deriving DecidableEq, Repr

/-- SOURCE: persistence/account.go:17-36 -/
def AmountOperation.accountUpdate (address : String) (amount : ℤ) : AmountOperation → Update
  | add => .addAccount address amount
  | subtract => .addAccount address (-amount)
  | set => .setAccount address amount

/-- SOURCE: persistence/account.go:52-71 -/
def AmountOperation.poolUpdate (address : String) (amount : ℤ) : AmountOperation → Update
  | add => .addPool address amount
  | subtract => .subPool address amount
  | set => .setPool address amount

/-- SOURCE: persistence/account_shared_sql.go:26-55 -/
def operationAmount (update : ℤ → Update) (amount : String) : List Update :=
  match stringToBigInt amount with
  | .ok n => [update n]
  | .error _ => []

/-- A validator has no chains, and chains that are not given are left alone.
SOURCE: persistence/actor_shared_sql.go:116-154, 193-247, persistence/types/validator.go:32-50,
persistence/gov.go:67-127 -/
def Writer.updates : Writer → List Update
  | .accountAmount op address amount =>
    operationAmount (fun n => op.accountUpdate (hexEncode address) n) amount
  | .poolAmount op address amount =>
    operationAmount (fun n => op.poolUpdate (hexEncode address) n) amount
  | .setParam paramName value => [.setParam paramName value]
  | .insertActor t address publicKey output stakedTokens serviceUrl chains pausedHeight
      unstakingHeight =>
    [.insertActor t (hexEncode address)
      ⟨hexEncode publicKey, stakedTokens, serviceUrl, hexEncode output, pausedHeight,
        unstakingHeight⟩ (if t = .val then [] else chains)]
  | .updateActor t address stakedAmount serviceUrl chains =>
    .updateActor t (hexEncode address) stakedAmount serviceUrl ::
      if t = .val ∨ chains = [] then []
      else [.nullifyChains t (hexEncode address), .insertChains t (hexEncode address) chains]
  | .setActorPauseHeight t address pauseHeight =>
    [.setPausedHeight t (hexEncode address) pauseHeight]
  | .setActorUnstakingHeightAndStatus t address unstakingHeight =>
    [.setUnstakingHeight t (hexEncode address) unstakingHeight]
  | .setActorStakeAmount t address stakeAmount =>
    [.setStakeAmount t (hexEncode address) stakeAmount]
  | .setActorStatusAndUnstakingHeightIfPausedBefore t pausedBeforeHeight unstakingHeight =>
    [.unstakePausedBefore t pausedBeforeHeight unstakingHeight]

/-- The call in a context at the height, with its texts as data. -/
def Writer.apply (height : ℤ) (w : Writer) (db : Database) : Database :=
  w.updates.foldl (Utility.apply height) db

end Pocket.Persistence
