import Pocket.Utility.BlockLifecycle

/-!
# The types of the parameters, and what a session reads of them

The table of the types the unit of work expects its parameters to have, and the first step of
making a session, which divides by one of them.  Neither the handler that changes a parameter
nor the database looks at the table.
-/

set_option autoImplicit false

namespace Pocket.Utility

open Model (Bytes int64)
open StoreProgram

/-- The types that occur in the table.
SOURCE: utility/unit_of_work/gov.go:31-37 -/
inductive GovParamType
  | bigInt
  | int
  | int64
deriving DecidableEq, Repr

def blocksPerSessionParamName : String := "blocks_per_session"

/-- The parameters that every kind of actor has. -/
def actorParamTypes (t : ActorType) : List (String × GovParamType) :=
  [(minimumStakeParamName t, .bigInt), (unstakingBlocksParamName t, .int64),
   (minimumPauseBlocksParamName t, .int), (maxPauseBlocksParamName t, .int),
   (messageStakeFee t, .bigInt), (messageEditStakeFee t, .bigInt), (messageUnstakeFee t, .bigInt),
   ("message_pause_" ++ t.word ++ "_fee", .bigInt), (messageUnpauseFee t, .bigInt)]

/-- The owners of parameters have no entry.
SOURCE: utility/unit_of_work/gov.go:38-96 -/
def govParamTypes : List (String × GovParamType) :=
  actorParamTypes .app ++ actorParamTypes .servicer ++ actorParamTypes .fish ++
    actorParamTypes .val ++
  [(maxChainsParamName .app, .int), (maxChainsParamName .servicer, .int),
   (maxChainsParamName .fish, .int), ("app_session_tokens_multiplier", .int),
   (blocksPerSessionParamName, .int), ("servicers_per_session", .int),
   ("fisherman_per_session", .int), (proposerPercentageOfFeesParamName, .int),
   (validatorMaximumMissedBlocksParamName, .int), ("validator_max_evidence_age_in_blocks", .int),
   ("double_sign_burn_percentage", .int), (missedBlocksBurnPercentageParamName, .int),
   ("message_double_sign_fee", .bigInt), (messageSendFee, .bigInt),
   ("message_fisherman_pause_servicer_fee", .bigInt), ("message_test_score_fee", .bigInt),
   ("message_prove_test_score_fee", .bigInt), (messageChangeParameterFee, .bigInt)]

/-- Every parameter with a type has an owner, so it can be changed. -/
example : ∀ p ∈ govParamTypes, (paramOwner p.1).isSome := by decide +kernel

/-- The text parses with the function that reads parameters of the type. -/
def GovParamType.parses : GovParamType → String → Bool
  | .bigInt, value => (stringToBigInt value).isOk
  | .int, value => (atoi value).isOk
  | .int64, value => (atoi value).isOk

/-- SOURCE: shared/core/types/proto/session.proto -/
structure SessionMetadata where
  numSessionBlocks : ℤ
  sessionNumber : ℤ
  sessionHeight : ℤ
deriving DecidableEq, Repr

/-- Go's division truncates, and a division by zero is a panic.
SOURCE: utility/session.go:98-111 -/
def hydrateSessionMetadata (blockHeight : ℤ) :
    Fallible Query Answer Update String String SessionMetadata := do
  let value ← ask (Query.param blocksPerSessionParamName)
  let numBlocksPerSession ← returned (atoi value)
  if numBlocksPerSession = 0 then crash
  else
    let numBlocksAheadOfSession := blockHeight.tmod numBlocksPerSession
    return {
      numSessionBlocks := numBlocksPerSession
      sessionNumber := int64 (blockHeight.tdiv numBlocksPerSession)
      sessionHeight := blockHeight - numBlocksAheadOfSession }

/-! ## Changing parameters -/

/-- The text that a value of a change puts into the database. -/
def ProtoMessage.paramText : ProtoMessage → Option String
  | .int32Value v => some (ParamValue.smallInt v).text
  | .stringValue v => some (ParamValue.string v).text
  | .bytesValue v => some (ParamValue.bytes v).text
  | _ => none

end Pocket.Utility
