import Pocket.Model.Validators
import Pocket.Utility.Database

/-!
# What a unit of work reads and writes

The accessors of the unit of work over its persistence contexts: accounts and pools,
governance parameters, and the columns of an actor.  Each names the call it makes and the
errors it puts around it.

The functions that switch on an actor type do the same for each of the four kinds with the
kind's own table or parameter; they are one definition with the kind as an argument, and keep
their own answer for a number that names no kind.
-/

set_option autoImplicit false

namespace Pocket.Utility

open Model (Bytes int64)
open StoreProgram
open Text (hexEncode hexDecode)

/-! ## Numbers in texts -/

/-- SOURCE: shared/utils/num_utils.go:13-20 -/
def stringToBigInt (s : String) : Except String ℤ :=
  match Text.integer s with
  | some n => .ok n
  | none => .error "unable to SetString() with base 10"

/-- `strconv.Atoi` on a 64-bit machine. -/
def atoi (s : String) : Except String ℤ :=
  match Text.integer s with
  | none => .error ("strconv.Atoi: parsing \"" ++ s ++ "\": invalid syntax")
  | some n =>
    if -2 ^ 63 ≤ n ∧ n < 2 ^ 63 then .ok n
    else .error ("strconv.Atoi: parsing \"" ++ s ++ "\": value out of range")

/-! ## Accounts and pools -/

/-- SOURCE: utility/unit_of_work/account.go:17-27 -/
def getAccountAmount (address : Bytes) : Uow ℤ :=
  wrap errGetAccountAmount (ask (Query.account (hexEncode address)))

/-- SOURCE: utility/unit_of_work/account.go:29-34 -/
def addAccountAmount (address : Bytes) (amount : ℤ) : Uow Unit :=
  wrap errAddAccountAmount (perform (.addAccount (hexEncode address) amount))

/-- SOURCE: utility/unit_of_work/account.go:43-48 -/
def setAccountAmount (address : Bytes) (amount : ℤ) : Uow Unit :=
  wrap errSetAccountAmount (perform (.setAccount (hexEncode address) amount))

/-- SOURCE: utility/unit_of_work/account.go:59-69 -/
def getPoolAmount (address : Bytes) : Uow ℤ :=
  wrap (errGetPoolAmount address) (ask (Query.pool (hexEncode address)))

/-- SOURCE: utility/unit_of_work/account.go:71-76 -/
def addPoolAmount (address : Bytes) (amount : ℤ) : Uow Unit :=
  wrap (errAddPoolAmount address) (perform (.addPool (hexEncode address) amount))

/-- SOURCE: utility/unit_of_work/account.go:78-83 -/
def subPoolAmount (address : Bytes) (amount : ℤ) : Uow Unit :=
  wrap (errSubPoolAmount address) (perform (.subPool (hexEncode address) amount))

/-- SOURCE: utility/unit_of_work/account.go:85-90 -/
def setPoolAmount (address : Bytes) (amount : ℤ) : Uow Unit :=
  wrap (errSetPoolAmount address) (perform (.setPool (hexEncode address) amount))

/-! ## Parameters -/

/-- SOURCE: utility/unit_of_work/gov.go:259-265 -/
def getStringParam (paramName : String) : Uow String :=
  wrap (errGetParam paramName) (ask (Query.param paramName))

/-- SOURCE: utility/unit_of_work/gov.go:223-233 -/
def getBigIntParam (paramName : String) : Uow ℤ := do
  let value ← getStringParam paramName
  returned ((stringToBigInt value).mapError errStringToBigInt)

/-- SOURCE: utility/unit_of_work/gov.go:235-249, persistence/gov.go:129-156 -/
def getIntParam (paramName : String) : Uow ℤ := do
  let value ← getStringParam paramName
  returned ((atoi value).mapError (errGetParam paramName))

/-- SOURCE: utility/unit_of_work/gov.go:251-257, persistence/gov.go:129-156 -/
def getByteArrayParam (paramName : String) : Uow Bytes := do
  let value ← getStringParam paramName
  returned ((hexDecode value).mapError (errGetParam paramName))

/-- SOURCE: utility/unit_of_work/gov.go:145-150 -/
def getParamOwner (paramName : String) : Uow Bytes :=
  match paramOwner paramName with
  | some owner => getByteArrayParam owner
  | none => throw (errUnknownParam paramName)

/-- The values a parameter can be set to; for any other the process ends.
SOURCE: utility/unit_of_work/gov.go:121-143 -/
def updateParam (paramName : String) (value : ProtoMessage) : Uow Unit :=
  match value with
  | .int32Value v => wrap errUpdateParam (perform (.setParam paramName (.smallInt v)))
  | .stringValue v => wrap errUpdateParam (perform (.setParam paramName (.string v)))
  | .bytesValue v => wrap errUpdateParam (perform (.setParam paramName (.bytes v)))
  | _ => crash

/-! ## Actors -/

def unknownActorType (actorType : ℤ) : Error := errUnknownActorType (actorTypeString actorType)

/-- A switch on the actor type whose default case returns its error as it is. -/
def forActor {α : Type} (actorType : ℤ) (body : ActorType → Uow α) : Uow α :=
  match ActorType.ofInt actorType with
  | some t => body t
  | none => throw (unknownActorType actorType)

/-- A switch on the actor type whose default case is wrapped like a failing call. -/
def callForActor {α : Type} (actorType : ℤ) (onError : String → Error)
    (body : ActorType → Fallible Query Answer Update String String α) : Uow α :=
  wrap onError <|
    match ActorType.ofInt actorType with
    | some t => body t
    | none => throw (unknownActorType actorType).error

/-- An integer parameter of the actor's kind, with the parameter's name around its error twice. -/
def getActorIntParam (paramName : ActorType → String) (actorType : ℤ) : Uow ℤ :=
  forActor actorType fun t =>
    wrap (fun err => errGetParam (paramName t) err.error) (getIntParam (paramName t))

/-- SOURCE: utility/unit_of_work/actor.go:114-135 -/
def getMaxAllowedPausedBlocks (actorType : ℤ) : Uow ℤ :=
  getActorIntParam maxPauseBlocksParamName actorType

/-- SOURCE: utility/unit_of_work/actor.go:137-157 -/
def getMinRequiredPausedBlocks (actorType : ℤ) : Uow ℤ :=
  getActorIntParam minimumPauseBlocksParamName actorType

/-- SOURCE: utility/unit_of_work/actor.go:239-261 -/
def getUnbondingHeight (height : ℤ) (actorType : ℤ) : Uow ℤ := do
  let unstakingBlocksPeriod ← getActorIntParam unstakingBlocksParamName actorType
  return int64 (height + unstakingBlocksPeriod)

/-- Validators have no chains, so their type is an unknown one here.
SOURCE: utility/unit_of_work/actor.go:263-282 -/
def getMaxAllowedChains (actorType : ℤ) : Uow ℤ :=
  if ActorType.ofInt actorType = some .val then throw (unknownActorType actorType)
  else getActorIntParam maxChainsParamName actorType

/-- SOURCE: utility/unit_of_work/actor.go:211-237 -/
def getMinRequiredStakeAmount (actorType : ℤ) : Uow ℤ :=
  forActor actorType fun t => do
    let minStake ← wrap (fun err => errGetParam (minimumStakeParamName t) err.error)
      (getStringParam (minimumStakeParamName t))
    returned ((stringToBigInt minStake).mapError errStringToBigInt)

/-- SOURCE: utility/unit_of_work/actor.go:85-112 -/
def getActorStakeAmount (actorType : ℤ) (address : Bytes) : Uow ℤ := do
  let stakeAmount ← callForActor actorType errGetStakeAmount fun t =>
    ask (Query.stakedTokens t (hexEncode address))
  returned ((stringToBigInt stakeAmount).mapError errStringToBigInt)

/-- SOURCE: utility/unit_of_work/actor.go:159-181 -/
def getPausedHeightIfExists (actorType : ℤ) (address : Bytes) : Uow ℤ :=
  callForActor actorType errGetPauseHeight fun t => ask (Query.pausedHeight t (hexEncode address))

def stakeStatusUnknown : ℤ := 0

def stakeStatusUnstaking : ℤ := 1

def stakeStatusStaked : ℤ := 2

def stakeStatusUnstaked : ℤ := 3

/-- SOURCE: utility/unit_of_work/actor.go:183-209, persistence/actor_shared_sql.go:175-191 -/
def getActorStatus (height : ℤ) (actorType : ℤ) (address : Bytes) : Uow ℤ := do
  let unstakingHeight ← callForActor actorType errGetStatus fun t =>
    ask (Query.unstakingHeight t (hexEncode address))
  return if unstakingHeight = -1 then stakeStatusStaked
    else if height < unstakingHeight then stakeStatusUnstaking
    else stakeStatusUnstaked

/-- SOURCE: utility/unit_of_work/actor.go:284-306 -/
def getActorExists (actorType : ℤ) (address : Bytes) : Uow Bool :=
  forActor actorType fun t => wrap errGetExists (ask (Query.actorExists t (hexEncode address)))

/-- SOURCE: utility/unit_of_work/actor.go:310-332, persistence/actor_shared_sql.go:249-258 -/
def getActorOutputAddress (actorType : ℤ) (operator : Bytes) : Uow Bytes :=
  callForActor actorType (errGetOutputAddress operator) fun t => do
    let outputAddr ← ask (Query.outputAddress t (hexEncode operator))
    returned (hexDecode outputAddr)

/-- SOURCE: utility/unit_of_work/actor.go:18-39, shared/utils/num_utils.go:31-33 -/
def setActorStakeAmount (actorType : ℤ) (address : Bytes) (amount : ℤ) : Uow Unit :=
  callForActor actorType (fun _ => errSetValidatorStakedAmount) fun t =>
    perform (.setStakeAmount t (hexEncode address) (toString amount))

/-- SOURCE: utility/unit_of_work/actor.go:41-60 -/
def setActorUnbondingHeight (actorType : ℤ) (address : Bytes) (unstakingHeight : ℤ) : Uow Unit :=
  callForActor actorType errSetUnstakingHeightAndStatus fun t =>
    perform (.setUnstakingHeight t (hexEncode address) unstakingHeight)

/-- SOURCE: utility/unit_of_work/actor.go:62-81 -/
def setActorPausedHeight (actorType : ℤ) (address : Bytes) (pausedHeight : ℤ) : Uow Unit :=
  callForActor actorType errSetPauseHeight fun t =>
    perform (.setPausedHeight t (hexEncode address) pausedHeight)

end Pocket.Utility
