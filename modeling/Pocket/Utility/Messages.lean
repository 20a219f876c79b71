import Pocket.Utility.Errors

/-!
# Transactions, messages and governance parameters

The protobuf messages of the utility module as they are once decoded, the checks a
transaction passes before any handler sees it, and the names of the parameters the handlers
read.  What protobuf, SHA-256 and Ed25519 compute is a parameter (`Platform`).

An absent sub-message is `none` where the code compares it with `nil`; `nil` and empty byte
slices are the same value, because that is how proto3 decodes them.
-/

set_option autoImplicit false

namespace Pocket.Utility

open Model (Bytes)
open Text (hexEncode)

/-! ## Actors -/

inductive ActorType
  | app
  | servicer
  | fish
  | val
deriving DecidableEq, Repr

/-- The enumeration of the wire format is open: only `1` to `4` name an actor.
SOURCE: shared/core/types/proto/actor.proto:7-13 -/
def ActorType.ofInt : ℤ → Option ActorType
  | 1 => some .app
  | 2 => some .servicer
  | 3 => some .fish
  | 4 => some .val
  | _ => none

/-- `String()` of an enumeration value: its name, or its number when it has none. -/
def actorTypeString (actorType : ℤ) : String :=
  match actorType with
  | 0 => "ACTOR_TYPE_UNSPECIFIED"
  | 1 => "ACTOR_TYPE_APP"
  | 2 => "ACTOR_TYPE_SERVICER"
  | 3 => "ACTOR_TYPE_FISH"
  | 4 => "ACTOR_TYPE_VAL"
  | n => toString n

/-! ## Messages
SOURCE: utility/types/proto/message.proto:11-53 -/

/-- `google.protobuf.Any`; an absent one has no type URL. -/
structure AnyMsg where
  typeUrl : String
  value : Bytes
deriving DecidableEq, Repr

structure MessageSend where
  fromAddress : Bytes
  toAddress : Bytes
  amount : String
deriving DecidableEq, Repr

structure MessageStake where
  actorType : ℤ
  publicKey : Bytes
  chains : List String
  amount : String
  serviceUrl : String
  outputAddress : Bytes
  signer : Bytes := []
deriving DecidableEq, Repr

structure MessageEditStake where
  actorType : ℤ
  address : Bytes
  chains : List String
  amount : String
  serviceUrl : String
  signer : Bytes := []
deriving DecidableEq, Repr

structure MessageUnstake where
  actorType : ℤ
  address : Bytes
  signer : Bytes := []
deriving DecidableEq, Repr

structure MessageUnpause where
  actorType : ℤ
  address : Bytes
  signer : Bytes := []
deriving DecidableEq, Repr

structure MessageChangeParameter where
  signer : Bytes := []
  owner : Bytes
  parameterKey : String
  parameterValue : AnyMsg
deriving DecidableEq, Repr

inductive Message
  | send (m : MessageSend)
  | stake (m : MessageStake)
  | editStake (m : MessageEditStake)
  | unstake (m : MessageUnstake)
  | unpause (m : MessageUnpause)
  | changeParameter (m : MessageChangeParameter)
deriving DecidableEq, Repr

namespace Message

/-- A send keeps its own `FromAddress` as the signer.
SOURCE: utility/types/message.go:88-93 -/
def setSigner (signer : Bytes) : Message → Message
  | send m => send m
  | stake m => stake { m with signer }
  | editStake m => editStake { m with signer }
  | unstake m => unstake { m with signer }
  | unpause m => unpause { m with signer }
  | changeParameter m => changeParameter { m with signer }

/-- SOURCE: utility/types/message.go:109 -/
def getSigner : Message → Bytes
  | send m => m.fromAddress
  | stake m => m.signer
  | editStake m => m.signer
  | unstake m => m.signer
  | unpause m => m.signer
  | changeParameter m => m.signer

/-- SOURCE: utility/types/message.go:95-100, 190-192 -/
def getMessageName : Message → String
  | send _ => "MessageSend"
  | stake _ => "MessageStake"
  | editStake _ => "MessageEditStake"
  | unstake _ => "MessageUnstake"
  | unpause _ => "MessageUnpause"
  | changeParameter _ => "MessageChangeParameter"

/-- SOURCE: utility/types/message.go:102-107 -/
def getMessageRecipient : Message → String
  | send m => hexEncode m.toAddress
  | _ => ""

/-- SOURCE: utility/types/message.go:111-116 -/
def getActorType : Message → ℤ
  | send _ => 0
  | stake m => m.actorType
  | editStake m => m.actorType
  | unstake m => m.actorType
  | unpause m => m.actorType
  | changeParameter _ => -1

end Message

/-- What an `Any` can hold when it decodes. -/
inductive ProtoMessage
  | utility (m : Message)
  | int32Value (v : ℤ)
  | stringValue (v : String)
  | bytesValue (v : Bytes)
  | other
deriving DecidableEq, Repr

/-! ## Transactions -/

structure Signature where
  publicKey : Bytes
  signature : Bytes
deriving DecidableEq, Repr

/-- SOURCE: shared/core/types/proto/transaction.proto:12-30 -/
structure Transaction where
  msg : AnyMsg
  nonce : String
  signature : Option Signature
deriving DecidableEq, Repr

/-- The code the module calls and this repository does not contain. -/
structure Platform where
  fromAny : AnyMsg → Except String ProtoMessage
  marshal : Transaction → Except String Bytes
  /-- The first 20 bytes of the SHA-256 of a public key. -/
  address : Bytes → Bytes
  /-- Ed25519, of a public key, a message and a signature. -/
  verify : Bytes → Bytes → Bytes → Bool

variable (P : Platform)

/-- SOURCE: shared/crypto/ed25519.go:148-154 -/
def newPublicKeyFromBytes (bz : Bytes) : Except String Bytes :=
  if bz.length = 32 then .ok bz else .error (errInvalidPublicKeyLen bz.length)

/-- SOURCE: shared/core/types/transaction.go:109-115 -/
def signableBytes (tx : Transaction) : Except String Bytes :=
  P.marshal { tx with signature := none }

/-- SOURCE: shared/core/types/signature.go:3-11 -/
def Signature.validateBasic (s : Signature) : Except Error Unit :=
  if s.signature = [] then .error errEmptySignature
  else if s.publicKey = [] then .error errEmptyPublicKey
  else .ok ()

/-- SOURCE: shared/core/types/transaction.go:39-74 -/
def Transaction.validateBasic (tx : Transaction) : Except Error Unit :=
  if tx.nonce = "" then .error errEmptyNonce
  else
    match tx.signature with
    | none => .error errEmptySignatureStructure
    | some signature => do
      signature.validateBasic
      let publicKey ← (newPublicKeyFromBytes signature.publicKey).mapError errNewPublicKeyFromBytes
      let _ ← (P.fromAny tx.msg).mapError errDecodeMessage
      let signBytes ← (signableBytes P tx).mapError fun err =>
        ⟨137, "error retrieving signable bytes: " ++ err⟩
      if P.verify publicKey signBytes signature.signature then .ok ()
      else .error errSignatureVerificationFailed

/-- SOURCE: shared/core/types/proto/idx_tx.proto:8-17 -/
structure IndexedTransaction where
  tx : Bytes
  height : ℤ
  index : ℤ
  resultCode : ℕ
  error : String
  signerAddr : String
  recipientAddr : String
  messageType : String
deriving DecidableEq, Repr

/-- A message that was handled, with or without an error, becomes an indexed transaction.
SOURCE: utility/types/idx_tx.go:15-43 -/
def txToIdxTx (tx : Transaction) (height index : ℤ) (msg : Message)
    (msgHandlingResult : Except Error Unit) : Except Error IndexedTransaction := do
  let txBz ← (P.marshal tx).mapError errProtoMarshal
  return {
    tx := txBz
    height
    index
    resultCode := match msgHandlingResult with
      | .ok () => 0
      | .error err => err.code
    error := match msgHandlingResult with
      | .ok () => ""
      | .error err => err.error
    signerAddr := hexEncode msg.getSigner
    recipientAddr := msg.getMessageRecipient
    messageType := msg.getMessageName }

/-! ## Pools -/

inductive Pool
  | dao
  | feeCollector
  | appStake
  | validatorStake
  | servicerStake
  | fishermanStake
deriving DecidableEq, Repr

/-- The address of a pool is a text, read as bytes.
SOURCE: shared/core/types/pools.go:19-27 -/
def Pool.address (p : Pool) : Bytes :=
  let text := match p with
    | dao => "44414f0000000000000000000000000000000000"
    | feeCollector => "466565436f6c6c6563746f720000000000000000"
    | appStake => "4170705374616b65506f6f6c0000000000000000"
    | validatorStake => "56616c696461746f725374616b65506f6f6c0000"
    | servicerStake => "53657276696365725374616b65506f6f6c000000"
    | fishermanStake => "4669736865726d616e5374616b65506f6f6c0000"
  text.toList.map fun c => UInt8.ofNat c.toNat

/-! ## Governance parameters
SOURCE: utility/types/gov.go:7-85 -/

/-- The word that names an actor in the parameters of its kind. -/
def ActorType.word : ActorType → String
  | app => "app"
  | servicer => "servicer"
  | fish => "fisherman"
  | val => "validator"

def minimumStakeParamName (t : ActorType) : String := t.word ++ "_minimum_stake"

def maxChainsParamName (t : ActorType) : String := t.word ++ "_max_chains"

def unstakingBlocksParamName (t : ActorType) : String := t.word ++ "_unstaking_blocks"

def minimumPauseBlocksParamName (t : ActorType) : String := t.word ++ "_minimum_pause_blocks"

def maxPauseBlocksParamName (t : ActorType) : String := t.word ++ "_max_pause_blocks"

def validatorMaximumMissedBlocksParamName : String := "validator_maximum_missed_blocks"

def proposerPercentageOfFeesParamName : String := "proposer_percentage_of_fees"

def messageSendFee : String := "message_send_fee"

def messageChangeParameterFee : String := "message_change_parameter_fee"

def messageStakeFee (t : ActorType) : String := "message_stake_" ++ t.word ++ "_fee"

def messageEditStakeFee (t : ActorType) : String := "message_edit_stake_" ++ t.word ++ "_fee"

def messageUnstakeFee (t : ActorType) : String := "message_unstake_" ++ t.word ++ "_fee"

def messageUnpauseFee (t : ActorType) : String := "message_unpause_" ++ t.word ++ "_fee"

/-- The parameters whose owner is named after them.
SOURCE: runtime/genesis/proto/genesis.proto:27-252 -/
def plainlyOwnedParams : List String :=
  ["blocks_per_session", "app_minimum_stake", "app_max_chains", "app_session_tokens_multiplier",
   "app_unstaking_blocks", "app_minimum_pause_blocks", "servicer_minimum_stake",
   "servicer_max_chains", "servicer_unstaking_blocks", "servicer_minimum_pause_blocks",
   "servicers_per_session", "fisherman_minimum_stake", "fisherman_max_chains",
   "fisherman_unstaking_blocks", "fisherman_minimum_pause_blocks", "fisherman_per_session",
   "validator_minimum_stake", "validator_unstaking_blocks", "validator_minimum_pause_blocks",
   "validator_maximum_missed_blocks", "validator_max_evidence_age_in_blocks",
   "proposer_percentage_of_fees", "missed_blocks_burn_percentage", "double_sign_burn_percentage",
   "message_double_sign_fee", "message_send_fee", "message_stake_fisherman_fee",
   "message_edit_stake_fisherman_fee", "message_unstake_fisherman_fee",
   "message_pause_fisherman_fee", "message_unpause_fisherman_fee",
   "message_fisherman_pause_servicer_fee", "message_test_score_fee",
   "message_prove_test_score_fee", "message_stake_app_fee", "message_edit_stake_app_fee",
   "message_unstake_app_fee", "message_pause_app_fee", "message_unpause_app_fee",
   "message_stake_validator_fee", "message_edit_stake_validator_fee",
   "message_unstake_validator_fee", "message_pause_validator_fee",
   "message_unpause_validator_fee", "message_stake_servicer_fee",
   "message_edit_stake_servicer_fee", "message_unstake_servicer_fee",
   "message_pause_servicer_fee", "message_unpause_servicer_fee", "message_change_parameter_fee"]

/-- Every parameter with its owner, which is a parameter too and belongs to `acl_owner`.
SOURCE: runtime/genesis/proto/genesis.proto:27-252, shared/utils/gov_utils.go:36-56 -/
def govParamMetadata : List (String × String) :=
  let owned := plainlyOwnedParams.map (fun name => (name, name ++ "_owner")) ++
    [ActorType.app, .servicer, .fish, .val].map fun t =>
      (maxPauseBlocksParamName t, t.word ++ "_max_paused_blocks_owner")
  owned ++ owned.map (fun p => (p.2, "acl_owner")) ++ [("acl_owner", "acl_owner")]

def paramOwner (paramName : String) : Option String :=
  (govParamMetadata.find? fun p => p.1 = paramName).map Prod.snd

example : paramOwner "validator_max_pause_blocks" = some "validator_max_paused_blocks_owner" := by
  decide

end Pocket.Utility
