import Pocket.Library.Runs
import Pocket.Utility.Transactions

/-!
# A block: its beginning, its transactions and its end

`beginBlock` and `endBlock` of the unit of work, and a block as the list of its steps.  The
share of the fees that goes to the proposer is computed with arbitrary-precision floats, so
their rounding is part of the model.

The two loops of `endBlock` range over a Go map, whose order differs from one execution to
the next; the orders are a parameter.

A step reads through `view`: with one context for reads and writes that is the state the
block has built, with a separate read context it is the state committed before the block.
-/

set_option autoImplicit false

namespace Pocket.Utility

open Model (Bytes int64)
open StoreProgram
open Text (hexEncode hexDecode)

variable (P : Platform) (height : ℤ)

/-! ## Floats of `math/big` -/

def bitLen (n : ℕ) : ℕ := if n = 0 then 0 else n.log2 + 1

/-- `n / d` to the nearest integer, and to the even one of two nearest. -/
def roundHalfEven (n d : ℕ) : ℕ :=
  let q := n / d
  let r := n % d
  if 2 * r < d ∨ 2 * r = d ∧ q % 2 = 0 then q else q + 1

/-- An integer as a `float64`, which has 53 bits. -/
def float64 (n : ℕ) : ℕ :=
  roundHalfEven n (2 ^ (bitLen n - 53)) * 2 ^ (bitLen n - 53)

/-- The fraction `n / d` rounded to a mantissa of `prec` bits, as a fraction again. -/
def roundToPrec (prec n d : ℕ) : ℕ × ℕ :=
  if n = 0 then (0, 1)
  else
    -- `2 ^ msb ≤ n / d < 2 ^ (msb + 1)`
    let msb : ℤ :=
      if d * 2 ^ n.log2 ≤ n * 2 ^ d.log2 then (n.log2 : ℤ) - d.log2 else (n.log2 : ℤ) - d.log2 - 1
    let shift : ℤ := prec - 1 - msb
    if 0 ≤ shift then (roundHalfEven (n * 2 ^ shift.toNat) d, 2 ^ shift.toNat)
    else (roundHalfEven n (d * 2 ^ (-shift).toNat) * 2 ^ (-shift).toNat, 1)

/-- `SetInt(x)`, `Mul` by the percentage as a `float64`, `Quo` by 100 and `Int`, which drops the
fraction.  `SetInt` fixes the precision of all of them at 64 bits, or the length of `x` if that is more.
SOURCE: utility/unit_of_work/block.go:88-91 -/
def percentageOf (x percentage : ℤ) : ℤ :=
  let prec := max 64 (bitLen x.natAbs)
  let product := roundToPrec prec (x.natAbs * float64 percentage.natAbs) 1
  let quotient := roundToPrec prec product.1 (product.2 * 100)
  x.sign * percentage.sign * (quotient.1 / quotient.2 : ℕ)

example : percentageOf 250 33 = 82 := by decide

/-! ## The end of a block -/

/-- SOURCE: utility/unit_of_work/block.go:66-100 -/
def handleProposerRewards (proposer : Bytes) : Uow Unit := do
  let feePoolAddress := Pool.feeCollector.address
  let feesAndRewardsCollected ← getPoolAmount feePoolAddress
  setPoolAmount feePoolAddress 0
  let proposerCutPercentage ← getIntParam proposerPercentageOfFeesParamName
  let daoCutPercentage := int64 (100 - proposerCutPercentage)
  throwIf (daoCutPercentage < 0 ∨ 100 < daoCutPercentage) errInvalidProposerCutPercentage
  let amountToProposer := percentageOf feesAndRewardsCollected proposerCutPercentage
  let amountToDAO := feesAndRewardsCollected - amountToProposer
  addAccountAmount proposer amountToProposer
  addPoolAmount Pool.dao.address amountToDAO

/-- The orders in which the two loops of `endBlock` visit the kinds of actors. -/
structure MapOrders where
  unbonding : List ActorType
  pausing : List ActorType

def ActorType.toInt : ActorType → ℤ
  | app => 1
  | servicer => 2
  | fish => 3
  | val => 4

def ActorType.stakePool : ActorType → Pool
  | app => .appStake
  | servicer => .servicerStake
  | fish => .fishermanStake
  | val => .validatorStake

/-- SOURCE: utility/unit_of_work/block.go:136-152 -/
def unbondActor (t : ActorType) (actor : UnstakingActor) : Uow Unit := do
  let stakeAmount ← returned ((stringToBigInt actor.stakeAmount).mapError errStringToBigInt)
  let outputAddrBz ← returned ((hexDecode actor.outputAddress).mapError errHexDecodeFromString)
  subPoolAmount t.stakePool.address stakeAmount
  addAccountAmount outputAddrBz stakeAmount

/-- SOURCE: utility/unit_of_work/block.go:102-156 -/
def unbondUnstakingActors (order : List ActorType) : Uow Unit :=
  order.forM fun t => do
    let readyToUnbond ← wrap errGetReadyToUnstake (ask (Query.readyToUnstake t))
    readyToUnbond.forM (unbondActor t)

/-- SOURCE: utility/unit_of_work/block.go:183-204 -/
def beginUnstakingActorsPausedBefore (pausedBeforeHeight : ℤ) (t : ActorType) : Uow Unit := do
  let unbondingHeight ← getUnbondingHeight height t.toInt
  wrap (fun err => errSetStatusPausedBefore err pausedBeforeHeight)
    (perform (.unstakePausedBefore t pausedBeforeHeight unbondingHeight))

/-- SOURCE: utility/unit_of_work/block.go:158-181 -/
def beginUnstakingMaxPausedActors (order : List ActorType) : Uow Unit :=
  order.forM fun t => do
    let maxPausedBlocks ← getMaxAllowedPausedBlocks t.toInt
    -- early heights count as 0
    let maxPauseHeight := max 0 (int64 (height - maxPausedBlocks))
    beginUnstakingActorsPausedBefore height maxPauseHeight t

/-- SOURCE: utility/unit_of_work/block.go:38-64 -/
def endBlock (orders : MapOrders) (proposer : Bytes) : Uow Unit := do
  handleProposerRewards proposer
  unbondUnstakingActors orders.unbonding
  beginUnstakingMaxPausedActors height orders.pausing

/-- No validator is ever found to be byzantine, so of `handleByzantineValidators` only the
read of its parameter happens.
SOURCE: utility/unit_of_work/block.go:19-36, 207-209, validator.go:16-22 -/
def beginBlock : Uow Unit := do
  let _maxMissedBlocks ← getIntParam validatorMaximumMissedBlocksParamName
  return ()

/-! ## Burning a validator -/

def missedBlocksBurnPercentageParamName : String := "missed_blocks_burn_percentage"

/-- What is left above the minimal stake, not what falls below it, makes the validator unstake.
SOURCE: utility/unit_of_work/validator.go:56-115 -/
def burnValidator (addr : Bytes) : Uow Unit := do
  let actorType := ActorType.val.toInt
  let stakeAmount ← getActorStakeAmount actorType addr
  let burnPercent ← getIntParam missedBlocksBurnPercentageParamName
  let burnAmountTruncated := max 0 (percentageOf stakeAmount burnPercent)
  subPoolAmount Pool.validatorStake.address burnAmountTruncated
  let newAmountAfterBurn := stakeAmount - burnAmountTruncated
  setActorStakeAmount actorType addr newAmountAfterBurn
  let minRequiredStake ← getBigIntParam (minimumStakeParamName .val)
  if minRequiredStake < newAmountAfterBurn then
    let unbondingHeight ← getUnbondingHeight height actorType
    setActorUnbondingHeight actorType addr unbondingHeight
  else return ()

/-! ## The steps of a block -/

inductive BlockStep
  | beginBlock
  | transaction (tx : Transaction) (index : ℤ)
  | endBlock (orders : MapOrders) (proposer : Bytes)

/-- What a step returns; only a transaction has something to return. -/
abbrev StepResult := Except Error (Option IndexedTransaction)

def BlockStep.program : BlockStep → Uow (Option IndexedTransaction)
  | .beginBlock => do
    Utility.beginBlock
    return none
  | .transaction tx index => do
    let idx ← handleTransaction P height tx index
    return some idx
  | .endBlock orders proposer => do
    Utility.endBlock height orders proposer
    return none

/-- A block on its way: the read-write context and what the steps so far returned. -/
structure BlockRun where
  db : Database
  results : List StepResult

/-- One step, with the calls that fail in it; `none` is a process that ended. -/
def stepBlock (view : Database → Database) (run : Option BlockRun)
    (step : BlockStep × (ℕ → Option String)) : Option BlockRun :=
  run.bind fun r =>
    ((step.1.program P height).run.exec (store height) view step.2 r.db).map fun (result, db) =>
      ⟨db, r.results ++ [result]⟩

/-- The steps of a block with its transactions in order. -/
def blockSteps (txs : List Transaction) (orders : MapOrders) (proposer : Bytes) : List BlockStep :=
  .beginBlock :: txs.mapIdx (fun i tx => .transaction tx i) ++ [.endBlock orders proposer]

/-! ## A state in which blocks run -/

def allActors : List ActorType := [.app, .servicer, .fish, .val]

/-- The accounts and the fee of `ownerDatabase`, with the parameters that every block reads. -/
def blockDatabase (fee : String) : Database :=
  let perActor := allActors.flatMap fun t =>
    [(maxPauseBlocksParamName t, "4"), (unstakingBlocksParamName t, "4")]
  let db := ownerDatabase fee
  { db with
    params := ((validatorMaximumMissedBlocksParamName, "4") ::
      (proposerPercentageOfFeesParamName, "10") :: perActor).foldl
        (fun params (name, value) => params.upsert name 1 value) db.params }

def sendSixty : Platform := ownerPlatform (.send ⟨[1], [2], "60"⟩)

end Pocket.Utility
