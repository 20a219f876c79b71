import Pocket.Utility.Context

/-!
# Handling a transaction

`HandleTransaction` of the unit of work: the message is decoded, its signer must be one of
the candidates the message names, the signer pays the fee, and then the handler of the
message runs.  An error up to the fee is returned; an error of the handler only goes into the
indexed transaction, and what the handler wrote before it stays.

Two nil dereferences of the source end the process and are `crash` here: a public key that
does not parse, because its error is looked for in another variable, and a stake amount that
does not parse, because the error printed for it is nil.
-/

set_option autoImplicit false

namespace Pocket.Utility

open Model (Bytes int64)
open StoreProgram
open Text (hexEncode hexDecode)

variable (P : Platform) (height : ℤ)

/-! ## Signers and fees -/

/-- SOURCE: utility/unit_of_work/tx_message_signers.go:15-74, gov.go:215-221 -/
def getSignerCandidates : Message → Uow (List Bytes)
  | .send m => return [m.fromAddress]
  | .stake m => do
    let pk ← returned ((newPublicKeyFromBytes m.publicKey).mapError errNewPublicKeyFromBytes)
    return [m.outputAddress, P.address pk]
  | .unstake m => do
    let output ← getActorOutputAddress m.actorType m.address
    return [output, m.address]
  | .unpause m => do
    let output ← getActorOutputAddress m.actorType m.address
    return [output, m.address]
  | .changeParameter m => do
    let owner ← wrap (fun err => errGetParam m.parameterKey err.error) (getParamOwner m.parameterKey)
    return [owner]
  -- the candidates of an edited stake are written in the source, but no case asks for them
  | .editStake _ => throw (errUnknownMessage "*types.MessageEditStake")

/-- SOURCE: utility/unit_of_work/gov.go:152-213 -/
def getFee (msg : Message) : Uow ℤ :=
  match msg with
  | .send _ => getBigIntParam messageSendFee
  | .stake _ => forActor msg.getActorType fun t => getBigIntParam (messageStakeFee t)
  | .editStake _ => forActor msg.getActorType fun t => getBigIntParam (messageEditStakeFee t)
  | .unstake _ => forActor msg.getActorType fun t => getBigIntParam (messageUnstakeFee t)
  | .unpause _ => forActor msg.getActorType fun t => getBigIntParam (messageUnpauseFee t)
  | .changeParameter _ => getBigIntParam messageChangeParameterFee

/-- SOURCE: utility/unit_of_work/transaction.go:59-69 -/
def validateTxMessage (tx : Transaction) : Uow Message :=
  match P.fromAny tx.msg with
  | .error err => throw (errDecodeMessage err)
  | .ok (.utility msg) => return msg
  | .ok _ => throw (errDecodeMessage "not a supported message type")

/-- SOURCE: utility/unit_of_work/transaction.go:73-85 -/
def validateTxSignature (address : Bytes) (msg : Message) : Uow Bytes := do
  let signerCandidates ← getSignerCandidates P msg
  if address ∈ signerCandidates then return address
  else throw (errInvalidSigner (hexEncode address))

/-- SOURCE: utility/unit_of_work/transaction.go:89-115 -/
def validateAndDeductTxFees (address : Bytes) (msg : Message) : Uow Unit := do
  let fee ← getFee msg
  let accountAmount ← wrap (fun err => errGetAccountAmount err.error) (getAccountAmount address)
  throwIf (accountAmount - fee < 0) (errInsufficientAmount (hexEncode address))
  setAccountAmount address (accountAmount - fee)
  addPoolAmount Pool.feeCollector.address fee

/-- SOURCE: utility/unit_of_work/transaction.go:27-56 -/
def basicValidateTransaction (tx : Transaction) : Uow Message := do
  let msg ← validateTxMessage P tx
  match tx.signature with
  | none => crash
  | some signature =>
    match newPublicKeyFromBytes signature.publicKey with
    | .error _ => crash
    | .ok pubKey =>
      let address ← validateTxSignature P (P.address pubKey) msg
      let msg := msg.setSigner address
      validateAndDeductTxFees address msg
      return msg

/-! ## Message handlers -/

/-- SOURCE: utility/unit_of_work/tx_message_handler.go:34-61 -/
def handleMessageSend (message : MessageSend) : Uow Unit := do
  let amount ← returned ((stringToBigInt message.amount).mapError errStringToBigInt)
  let fromAccountAmount ← getAccountAmount message.fromAddress
  throwIf (fromAccountAmount - amount < 0) (errInsufficientAmount (hexEncode message.fromAddress))
  -- the recipient is credited first, and the sender's new amount was computed before that
  addAccountAmount message.toAddress amount
  setAccountAmount message.fromAddress (fromAccountAmount - amount)

/-- SOURCE: utility/unit_of_work/tx_message_handler.go:239-252 -/
def checkAboveMinStake (actorType : ℤ) (amountStr : String) : Uow ℤ := do
  let minStake ← getMinRequiredStakeAmount actorType
  match stringToBigInt amountStr with
  | .error _ => crash
  | .ok amount => if amount < minStake then throw errMinimumStake else return amount

/-- SOURCE: utility/unit_of_work/tx_message_handler.go:223-237 -/
def checkBelowMaxChains (actorType : ℤ) (chains : List String) : Uow Unit := do
  if ActorType.ofInt actorType = some .val then return ()
  else
    let maxChains ← getMaxAllowedChains actorType
    throwIf (maxChains < chains.length) (errMaxChains maxChains)

def heightNotUsed : ℤ := -1

/-- The insert of the actor's own kind: an application has no service URL, a validator no
chains, and a number that names no kind inserts nothing.
SOURCE: utility/unit_of_work/tx_message_handler.go:103-117, persistence/application.go:19-30,
fisherman.go:19-31, servicer.go:20-32, validator.go:19-30 -/
def insertActor (message : MessageStake) (publicKey : Bytes) : Uow Unit :=
  match ActorType.ofInt message.actorType with
  | none => return ()
  | some t => wrap errInsert <| perform <| .insertActor t (hexEncode (P.address publicKey))
      { publicKey := hexEncode publicKey
        stakedTokens := message.amount
        serviceUrl := if t = .app then "" else message.serviceUrl
        outputAddress := hexEncode message.outputAddress
        pausedHeight := heightNotUsed
        unstakingHeight := heightNotUsed }
      (if t = .val then [] else message.chains)

/-- SOURCE: utility/unit_of_work/tx_message_handler.go:63-118 -/
def handleStakeMessage (message : MessageStake) : Uow Unit := do
  let publicKey ← returned
    ((newPublicKeyFromBytes message.publicKey).mapError errNewPublicKeyFromBytes)
  let amount ← checkAboveMinStake message.actorType message.amount
  let signerAccountAmount ← getAccountAmount message.signer
  throwIf (signerAccountAmount - amount < 0) (errInsufficientAmount (hexEncode message.signer))
  checkBelowMaxChains message.actorType message.chains
  let found ← getActorExists message.actorType (P.address publicKey)
  throwIf found errAlreadyExists
  setAccountAmount message.signer (signerAccountAmount - amount)
  -- every kind of actor stakes into the pool of the applications
  addPoolAmount Pool.appStake.address amount
  insertActor P message publicKey

/-- SOURCE: utility/unit_of_work/tx_message_handler.go:158-171, persistence/actor_shared_sql.go:131-154 -/
def updateActor (message : MessageEditStake) : Uow Unit :=
  match ActorType.ofInt message.actorType with
  | none => return ()
  | some t => wrap errInsert do
    let address := hexEncode message.address
    perform (.updateActor t address message.amount (if t = .app then "" else message.serviceUrl))
    if t = .val ∨ message.chains = [] then return ()
    else
      perform (.nullifyChains t address)
      perform (.insertChains t address message.chains)

/-- SOURCE: utility/unit_of_work/tx_message_handler.go:120-175 -/
def handleEditStakeMessage (message : MessageEditStake) : Uow Unit := do
  -- any failure to look the actor up is reported as its absence
  let found ← wrap (fun _ => errNotExists) (getActorExists message.actorType message.address)
  throwIf (!found) errNotExists
  let currentStakeAmount ← getActorStakeAmount message.actorType message.address
  match stringToBigInt message.amount with
  | .error _ => crash
  | .ok newAmount =>
    let amount := newAmount - currentStakeAmount
    throwIf (amount < 0) errStakeLess
    let signerAccountAmount ← getAccountAmount message.signer
    throwIf (signerAccountAmount - amount < 0) (errInsufficientAmount (hexEncode message.signer))
    checkBelowMaxChains message.actorType message.chains
    setAccountAmount message.signer (signerAccountAmount - amount)
    addPoolAmount Pool.appStake.address amount
    updateActor message

/-- SOURCE: utility/unit_of_work/tx_message_handler.go:177-192 -/
def handleUnstakeMessage (message : MessageUnstake) : Uow Unit := do
  -- a failure to read the status comes with the unknown status, which is not `Staked`
  let status ← wrap (fun _ => errInvalidStatus stakeStatusUnknown stakeStatusStaked)
    (getActorStatus height message.actorType message.address)
  throwIf (status ≠ stakeStatusStaked) (errInvalidStatus status stakeStatusStaked)
  let unbondingHeight ← getUnbondingHeight height message.actorType
  setActorUnbondingHeight message.actorType message.address unbondingHeight

/-- SOURCE: utility/unit_of_work/tx_message_handler.go:194-213 -/
def handleUnpauseMessage (message : MessageUnpause) : Uow Unit := do
  let pausedHeight ← getPausedHeightIfExists message.actorType message.address
  throwIf (pausedHeight = heightNotUsed) errNotPaused
  let minPauseBlocks ← getMinRequiredPausedBlocks message.actorType
  throwIf (height < int64 (minPauseBlocks + pausedHeight)) errNotReadyToUnpause
  setActorPausedHeight message.actorType message.address heightNotUsed

/-- SOURCE: utility/unit_of_work/tx_message_handler.go:215-221 -/
def handleMessageChangeParameter (message : MessageChangeParameter) : Uow Unit := do
  let v ← returned ((P.fromAny message.parameterValue).mapError errProtoFromAny)
  updateParam message.parameterKey v

/-- SOURCE: utility/unit_of_work/tx_message_handler.go:15-32 -/
def handleMessage : Message → Uow Unit
  | .send m => handleMessageSend m
  | .stake m => handleStakeMessage P m
  | .editStake m => handleEditStakeMessage m
  | .unstake m => handleUnstakeMessage height m
  | .unpause m => handleUnpauseMessage height m
  | .changeParameter m => handleMessageChangeParameter P m

/-- SOURCE: utility/unit_of_work/transaction.go:16-23 -/
def handleTransaction (tx : Transaction) (index : ℤ) : Uow IndexedTransaction := do
  let msg ← basicValidateTransaction P tx
  let msgHandlingResult ← attempt (handleMessage P height msg)
  returned (txToIdxTx P tx height index msg msgHandlingResult)

/-! ## The owner of one account -/

/-- Every transaction carries `msg` and is signed by the owner of the address `01`. -/
def ownerPlatform (msg : Message) : Platform where
  fromAny := fun _ => .ok (.utility msg)
  marshal := fun _ => .ok [0]
  address := fun _ => [1]
  verify := fun _ _ _ => true

def ownerTx : Transaction where
  msg := ⟨"type.googleapis.com/utility.Message", []⟩
  nonce := "1"
  signature := some ⟨List.replicate 32 1, [1]⟩

/-- Two accounts, and a fee for sends. -/
def ownerDatabase (fee : String) : Database :=
  let params := VersionedTable.Table.empty.upsert messageSendFee 1 fee
  let db : Database := ⟨.empty, .empty, params, fun _ => .empty, fun _ => []⟩
  (db.setAccount 1 "01" 100).setAccount 1 "02" 50

end Pocket.Utility
