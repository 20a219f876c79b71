import Pocket.Library.Text
import Pocket.Model.Types

/-!
# The errors of the utility module

An error of the protocol is a code and a text.  Most wrap the text of another error, either
one of their own kind, printed with its code, or a plain error of the database, the codec or
the standard library, which is a text here.
-/

set_option autoImplicit false

namespace Pocket.Utility

open Model (Bytes)
open Text (hexEncode)

/-- SOURCE: shared/core/types/error.go:14-41 -/
structure Error where
  code : ℕ
  text : String
deriving DecidableEq, Repr

/-- SOURCE: shared/core/types/error.go:26-28 -/
def Error.error (e : Error) : String := "CODE: " ++ toString e.code ++ ", ERROR: " ++ e.text

/-! ## Errors without a cause
SOURCE: shared/core/types/error.go:325-871 for all of them. -/

def errAlreadyExists : Error := ⟨60, "the actor already exists in the state"⟩

def errNotExists : Error := ⟨71, "the actor does not exist in the state"⟩

def errMinimumStake : Error :=
  ⟨45, "an error occurred because the amount specified is less than the minimum stake"⟩

def errStakeLess : Error := ⟨128, "the stake amount cannot be less than current amount"⟩

def errNotPaused : Error := ⟨67, "the actor is not paused"⟩

def errNotReadyToUnpause : Error :=
  ⟨68, "the actor isn't ready to unpause as the minimum number of blocks hasn't passed since pausing"⟩

def errInvalidProposerCutPercentage : Error :=
  ⟨84, "the proposer cut percentage is larger than 100"⟩

def errDuplicateTransaction : Error := ⟨35, "the transaction is already found in the mempool"⟩

def errTransactionAlreadyCommitted : Error := ⟨95, "the transaction is already committed"⟩

def errProposalBlockNotSet : Error := ⟨133, "the proposal block is not set"⟩

def errEmptyNonce : Error := ⟨30, "the nonce in the transaction is empty"⟩

def errEmptyPublicKey : Error := ⟨31, "the public key field is empty"⟩

def errEmptySignature : Error := ⟨32, "the signature field is empty"⟩

def errEmptySignatureStructure : Error := ⟨136, "the signature structure is empty"⟩

def errSignatureVerificationFailed : Error :=
  ⟨10, "the public key / signature combination is not valid for the msg"⟩

def errUnknownParam (paramName : String) : Error :=
  ⟨85, "the param name is not found in the acl: " ++ paramName⟩

def errInvalidSigner (address : String) : Error :=
  ⟨3, "the signer of the message is not a proper candidate: " ++ address⟩

def errMaxChains (maxChains : ℤ) : Error :=
  ⟨52, "the amount chains exceeds the maximum value: " ++ toString maxChains⟩

def errInvalidStatus (got expected : ℤ) : Error :=
  ⟨54, "the staking status is not valid: " ++ toString got ++ " expected " ++ toString expected⟩

def errUnknownMessage (type : String) : Error :=
  ⟨6, "the message type is unrecognized: " ++ type⟩

def errInsufficientAmount (address : String) : Error :=
  ⟨41, "the account has insufficient funds to complete the operation: with address " ++ address⟩

def errUnknownActorType (actorType : String) : Error :=
  ⟨130, "the actor type is not recognized: " ++ actorType⟩

/-! ## Errors that wrap another one -/

def errDecodeMessage (err : String) : Error := ⟨4, "unable to decode the message: " ++ err⟩

def errNewPublicKeyFromBytes (err : String) : Error :=
  ⟨8, "unable to convert the raw bytes to a valid public key: " ++ err⟩

def errHexDecodeFromString (err : String) : Error :=
  ⟨11, "an error occurred decoding the string into hex bytes: " ++ err⟩

def errProtoMarshal (err : String) : Error :=
  ⟨25, "an error occurred marshalling the structure in protobuf: " ++ err⟩

def errProtoUnmarshal (err : String) : Error :=
  ⟨26, "an error occurred unmarshalling the structure in protobuf: " ++ err⟩

def errProtoFromAny (err : String) : Error :=
  ⟨28, "an error occurred getting the structure from the protobuf any: " ++ err⟩

def errGetAccountAmount (err : String) : Error :=
  ⟨39, "an error occurred getting the account amount: " ++ err⟩

def errStringToBigInt (err : String) : Error := ⟨40, "error converting string to big int: " ++ err⟩

def errAddAccountAmount (err : String) : Error :=
  ⟨42, "an error occurred adding the amount to the account balance: " ++ err⟩

def errSetAccountAmount (err : String) : Error :=
  ⟨43, "an error occurred setting the account, " ++ err⟩

def errGetParam (paramName err : String) : Error :=
  ⟨44, "an error occurred getting the parameter: " ++ paramName ++ ", " ++ err⟩

def errInsert (err : String) : Error :=
  ⟨53, "an error occurred inserting into persistence: " ++ err⟩

def errAddPoolAmount (address : Bytes) (err : String) : Error :=
  ⟨55, "an error occurred adding to the pool: pool: " ++ hexEncode address ++ ", " ++ err⟩

def errSubPoolAmount (address : Bytes) (err : String) : Error :=
  ⟨56, "an error occurred subtracting from the pool: pool: " ++ hexEncode address ++ ", " ++ err⟩

def errGetStatus (err : String) : Error :=
  ⟨57, "an error occurred getting the staking status: " ++ err⟩

def errSetUnstakingHeightAndStatus (err : String) : Error :=
  ⟨58, "an error occurred setting the unstaking height and status: " ++ err⟩

def errGetReadyToUnstake (err : String) : Error :=
  ⟨59, "an error occurred getting the 'ready to unstake' group: " ++ err⟩

def errGetExists (err : String) : Error :=
  ⟨61, "an error occurred when checking if already exists: " ++ err⟩

def errGetPauseHeight (err : String) : Error :=
  ⟨64, "an error occurred getting the pause height: " ++ err⟩

/-- The cause is not part of the text. -/
def errSetValidatorStakedAmount : Error :=
  ⟨81, "an error occurred setting the validator' amount staked"⟩

def errSetPauseHeight (err : String) : Error :=
  ⟨66, "an error occurred setting the pause height: " ++ err⟩

def errSetStatusPausedBefore (err : String) (beforeHeight : ℤ) : Error :=
  ⟨69, "an error occurred setting the actor status that were paused before: "
    ++ toString beforeHeight ++ " " ++ err⟩

def errSetPoolAmount (address : Bytes) (err : String) : Error :=
  ⟨82, "an error occurred setting the pool amount: pool: " ++ hexEncode address ++ ", " ++ err⟩

def errGetPoolAmount (address : Bytes) (err : String) : Error :=
  ⟨83, "an error occurred getting the pool amount: pool: " ++ hexEncode address ++ ", " ++ err⟩

def errUpdateParam (err : String) : Error :=
  ⟨88, "an error occurred updating the parameter: " ++ err⟩

def errGetOutputAddress (operator : Bytes) (err : String) : Error :=
  ⟨94, "an error occurred getting the output address using operator: " ++ hexEncode operator
    ++ "; " ++ err⟩

def errGetStakeAmount (err : String) : Error :=
  ⟨127, "an error occurred getting the stake amount: " ++ err⟩

/-- SOURCE: shared/crypto/error.go:44-46 -/
def errInvalidPublicKeyLen (length : ℕ) : String :=
  "the public key length is not valid, expected length 32, actual length: " ++ toString length

end Pocket.Utility
