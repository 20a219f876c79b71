import Pocket.Analysis.NoTheft

/-!
# Which transactions end the process

A transaction that passes `ValidateBasic` is handled to an indexed transaction or an error,
whatever the state is and whichever calls fail, unless it is one of two kinds
(`returns_iff`):

* a stake that gets as far as its handler with an amount that is no integer: the error of the
  parser is looked for in a variable that is nil;
* a change of a parameter that gets as far as its handler with a value of a type the handler
  does not know: the handler logs it as fatal.

That a transaction of neither kind returns is shown against arbitrary answers of the database
(`StoreProgram.Prog.Returns`).  For a transaction of either kind there is a state in which
everything before the handler succeeds, and the process ends.
-/

set_option autoImplicit false

namespace Pocket.Utility

open Model (Bytes int64)
open StoreProgram StoreProgram.Prog VersionedTable ActorType
open Text (hexEncode hexDecode)

variable {P : Platform} {height : ℤ} {tx : Transaction} {m : MessageChangeParameter} {msg : Message}

/-! ## The two kinds -/

/-- A stake message for a kind of actor that there is, with a key that is one, signed by one of
its two candidates, with an amount that does not parse. -/
structure UnparsableStake (P : Platform) (tx : Transaction) (m : MessageStake) : Prop where
  decoded : P.fromAny tx.msg = .ok (.utility (.stake m))
  key : m.publicKey.length = 32
  candidate : signerOf P tx = m.outputAddress ∨ signerOf P tx = P.address m.publicKey
  actor : (ofInt m.actorType).isSome
  unparsable : Text.integer m.amount = none

/-- The values of a parameter for which `updateParam` has a case. -/
def ProtoMessage.isParamValue : ProtoMessage → Bool
  | .int32Value _ => true
  | .stringValue _ => true
  | .bytesValue _ => true
  | _ => false

/-- A change of a parameter that there is, to a value of another type. -/
structure UnknownValueType (P : Platform) (tx : Transaction) (m : MessageChangeParameter) : Prop where
  decoded : P.fromAny tx.msg = .ok (.utility (.changeParameter m))
  parameter : (paramOwner m.parameterKey).isSome
  unknown : ∃ value, P.fromAny m.parameterValue = .ok value ∧ value.isParamValue = false

/-! ## What returns whatever the database answers -/

/-- What a list of candidates tells about the message it was made for. -/
def HasCandidates (P : Platform) (signer : Bytes) : Message → Prop
  | .stake m => m.publicKey.length = 32 ∧ (signer = m.outputAddress ∨ signer = P.address m.publicKey)
  | .changeParameter m => (paramOwner m.parameterKey).isSome
  | .editStake _ => False
  | _ => True

theorem returns_validateTxSignature (address : Bytes) (msg : Message) :
    (validateTxSignature P address msg).run.Returns fun r =>
      ∀ signer, r = .ok signer → signer = address ∧ HasCandidates P address msg := by
  have hcandidates : (getSignerCandidates P msg).run.Returns fun r =>
      ∀ candidates, r = .ok candidates → address ∈ candidates → HasCandidates P address msg := by
    cases msg with
    | send m => exact fun _ _ _ => trivial
    | stake m =>
      by_cases hkey : m.publicKey.length = 32
      · have hpub : newPublicKeyFromBytes m.publicKey = .ok m.publicKey := if_pos hkey
        simp [getSignerCandidates, hpub, HasCandidates, hkey]
      · have hpub : newPublicKeyFromBytes m.publicKey
            = .error (errInvalidPublicKeyLen m.publicKey.length) := if_neg hkey
        simp [getSignerCandidates, hpub]
    | editStake m => exact fun candidates hcandidates => by cases hcandidates
    | unstake m | unpause m =>
      simp [getSignerCandidates, getActorOutputAddress, HasCandidates]
    | changeParameter m =>
      cases howner : paramOwner m.parameterKey <;>
        simp [getSignerCandidates, getParamOwner, howner, HasCandidates, getByteArrayParam,
          getStringParam]
  refine meets_bind_fallible.2 (meets_mono hcandidates fun r hr => ⟨by simp, ?_⟩)
  rintro candidates rfl
  split
  · next hmem =>
    intro signer hsigner
    cases hsigner
    exact ⟨rfl, hr candidates rfl hmem⟩
  · exact fun signer hsigner => by cases hsigner

/-- The fee of a stake depends on the kind of actor, so a fee tells that there is such a kind. -/
theorem returns_validateAndDeductTxFees (address : Bytes) (msg : Message) :
    (validateAndDeductTxFees address msg).run.Returns fun r => ∀ m, r = .ok () → msg = .stake m →
      (ofInt m.actorType).isSome := by
  cases msg <;>
    simp +contextual [validateAndDeductTxFees, getFee, getBigIntParam, getStringParam,
      Message.getActorType, getAccountAmount, setAccountAmount, addPoolAmount]

/-! ## The whole transaction -/

/-- A basic check that passes leaves a signature with a key that parses. -/
theorem signature_of_validateBasic (h : tx.validateBasic P = .ok ()) :
    ∃ signature, tx.signature = some signature ∧ signature.publicKey.length = 32 := by
  rw [Transaction.validateBasic] at h
  split at h
  · cases h
  · cases hsignature : tx.signature with
    | none =>
      rw [hsignature] at h
      cases h
    | some signature =>
      refine ⟨signature, rfl, ?_⟩
      by_contra hlength
      have hkey : newPublicKeyFromBytes signature.publicKey
          = .error (errInvalidPublicKeyLen signature.publicKey.length) := if_neg hlength
      simp only [hsignature, hkey] at h
      cases hbasic : signature.validateBasic with
      | error e | ok u =>
        rw [hbasic] at h
        cases h

/-- The message a transaction carries to its handler. -/
structure Handled (P : Platform) (tx : Transaction) (msg : Message) : Prop where
  decoded : P.fromAny tx.msg = .ok (.utility msg)
  candidate : HasCandidates P (signerOf P tx) msg
  actor : ∀ m, msg = .stake m → (ofInt m.actorType).isSome

theorem returns_basicValidateTransaction (h : tx.validateBasic P = .ok ()) :
    (basicValidateTransaction P tx).run.Returns fun r => ∀ handled, r = .ok handled →
      ∃ msg, handled = msg.setSigner (signerOf P tx) ∧ Handled P tx msg := by
  obtain ⟨signature, hsignature, hlength⟩ := signature_of_validateBasic h
  have hkey : newPublicKeyFromBytes signature.publicKey = .ok signature.publicKey := if_pos hlength
  have hsigner : signerOf P tx = P.address signature.publicKey := by rw [signerOf, hsignature]
  have hdecode : (validateTxMessage P tx).run.Returns fun r =>
      ∀ msg, r = .ok msg → P.fromAny tx.msg = .ok (.utility msg) := by
    rw [validateTxMessage]
    split
    · exact fun msg hmsg => by cases hmsg
    · next msg' hany =>
      intro msg hmsg
      cases hmsg
      exact hany
    · exact fun msg hmsg => by cases hmsg
  rw [basicValidateTransaction, hsignature]
  simp only [hkey, ← hsigner]
  refine meets_bind_fallible.2 (meets_mono hdecode fun r hr => ⟨by simp, ?_⟩)
  rintro msg rfl
  refine meets_bind_fallible.2
    (meets_mono (returns_validateTxSignature _ _) fun r hsigned => ⟨by simp, ?_⟩)
  rintro address rfl
  obtain ⟨rfl, hcandidate⟩ := hsigned address rfl
  refine meets_bind_fallible.2
    (meets_mono (returns_validateAndDeductTxFees _ _) fun r hfees => ⟨by simp, ?_⟩)
  rintro u rfl handled hhandled
  cases hhandled
  refine ⟨msg, rfl, hr msg rfl, hcandidate, fun m hm => ?_⟩
  exact hfees { m with signer := signerOf P tx } rfl (hm ▸ rfl)

theorem returns_handleMessage (h : Handled P tx msg) (hstake : ¬ ∃ m, UnparsableStake P tx m)
    (hchange : ¬ ∃ m, UnknownValueType P tx m) :
    (handleMessage P height (msg.setSigner (signerOf P tx))).run.Returns fun _ => True := by
  cases msg with
  | send m => exact meets_handleMessageSend _ (fun _ _ => trivial) fun _ _ => trivial
  | stake m =>
    refine meets_handleStakeMessage (fun _ _ => trivial) (fun _ _ => trivial)
      (fun publicKey _ _ => ?_) fun e he => hstake ⟨m, h.decoded, h.candidate.1, h.candidate.2,
        h.actor m rfl, ?_⟩
    · unfold insertActor
      split <;> simp
    · change stringToBigInt m.amount = .error e at he
      unfold stringToBigInt at he
      split at he
      · cases he
      · assumption
  | editStake m => exact h.candidate.elim
  | unstake m => exact meets_handleUnstakeMessage _ fun _ _ => trivial
  | unpause m => exact meets_handleUnpauseMessage _ fun _ => trivial
  | changeParameter m =>
    refine meets_handleMessageChangeParameter fun value hvalue => ?_
    cases value with
    | int32Value v | stringValue v | bytesValue v => simp [updateParam]
    | utility _ | other => exact hchange ⟨m, h.decoded, h.candidate, _, hvalue, rfl⟩

theorem returns_handleTransaction (h : tx.validateBasic P = .ok ())
    (hstake : ¬ ∃ m, UnparsableStake P tx m) (hchange : ¬ ∃ m, UnknownValueType P tx m)
    (height index : ℤ) : (handleTransaction P height tx index).run.Returns fun _ => True := by
  refine meets_bind_fallible.2
    (meets_mono (returns_basicValidateTransaction h) fun r hr => ⟨by simp, ?_⟩)
  rintro handled rfl
  obtain ⟨msg, rfl, hhandled⟩ := hr handled rfl
  refine meets_bind_fallible.2 (meets_bind.2 ?_)
  exact meets_mono (returns_handleMessage hhandled hstake hchange)
    fun _ _ => ⟨by simp, fun _ _ => trivial⟩

/-! ## States in which the handler is reached -/

/-- A state that holds two parameters and nothing else. -/
def Database.ofParams (height : ℤ) (name value name' value' : String) : Database :=
  let params := (Table.empty.upsert name height value).upsert name' height value'
  ⟨.empty, .empty, params, fun _ => .empty, fun _ => []⟩

section OfParams

variable {name value name' value' : String}

theorem lookup_ofParams_snd :
    (Database.ofParams height name value name' value').params.lookup name' height = some value' :=
  Table.lookup_upsert_self _ _ _ _

theorem lookup_ofParams_fst (hne : name ≠ name') :
    (Database.ofParams height name value name' value').params.lookup name height = some value := by
  have hother := Table.lookup_upsert_ne (Table.empty.upsert name height value) height height value'
    hne
  exact hother.trans (Table.lookup_upsert_self _ _ _ _)

theorem amount_ofParams (address : String) :
    (Database.ofParams height name value name' value').accounts.amount address height = 0 := rfl

end OfParams

/-- When the fee is paid and the handler does not return, the transaction does not, either. -/
theorem exec_handleTransaction_eq_none {db : Database} {signer : Bytes} {fee : ℤ}
    (h : Charged P height db tx msg signer fee) (index : ℤ)
    (hhandler : (handleMessage P height (msg.setSigner signer)).run.exec (store height) id
      (fun _ => none) (db.charge height signer fee) = none) :
    (handleTransaction P height tx index).run.exec (store height) id (fun _ => none) db = none := by
  rw [handleTransaction, exec_bind_of_ok (exec_basicValidateTransaction h)]
  exact exec_bind_of_none (exec_attempt_of_none hhandler)

theorem stringToBigInt_zero : stringToBigInt "0" = .ok 0 := by decide

/-- A stake with an unparsable amount, where the fee and the minimal stake are nothing. -/
theorem exec_of_unparsableStake {m : MessageStake} (hbasic : tx.validateBasic P = .ok ())
    (h : UnparsableStake P tx m) (height index : ℤ) :
    ∃ db, (handleTransaction P height tx index).run.exec (store height) id (fun _ => none) db
      = none := by
  obtain ⟨signature, hsignature, hlength⟩ := signature_of_validateBasic hbasic
  obtain ⟨t, ht⟩ := Option.isSome_iff_exists.1 h.actor
  have hkey : newPublicKeyFromBytes m.publicKey = .ok m.publicKey := if_pos h.key
  have hne : messageStakeFee t ≠ minimumStakeParamName t := by
    cases t <;> decide
  let db := Database.ofParams height (messageStakeFee t) "0" (minimumStakeParamName t) "0"
  have hcharged : Charged P height db tx (.stake m) (signerOf P tx) 0 := by
    refine ⟨h.decoded, ⟨signature, hsignature, hlength, by rw [signerOf, hsignature]⟩, ?_, ?_, ?_⟩
    · refine ⟨[m.outputAddress, P.address m.publicKey], ?_, by simpa using h.candidate⟩
      rw [getSignerCandidates, hkey]
      rfl
    · rw [getFee, Message.getActorType, forActor, ht]
      exact peek_getBigIntParam (lookup_ofParams_fst hne) stringToBigInt_zero
    · rw [amount_ofParams]
  refine ⟨db, exec_handleTransaction_eq_none hcharged index ?_⟩
  have hmin : (getMinRequiredStakeAmount m.actorType).run.peek (store height)
      (db.charge height (signerOf P tx) 0) = some (.ok 0) := by
    rw [getMinRequiredStakeAmount, forActor, ht]
    have hparam : (db.charge height (signerOf P tx) 0).params.lookup (minimumStakeParamName t)
        height = some "0" := lookup_ofParams_snd
    refine peek_bind_eq_ok.2 ⟨"0", ?_, rfl⟩
    rw [peek_wrap, peek_getStringParam hparam]
    rfl
  have hcheck : (checkAboveMinStake m.actorType m.amount).run.exec (store height) id
      (fun _ => none) (db.charge height (signerOf P tx) 0) = none := by
    have hunparsable : stringToBigInt m.amount = .error "unable to SetString() with base 10" := by
      rw [stringToBigInt, h.unparsable]
    rw [checkAboveMinStake, exec_bind_check (checks_getMinRequiredStakeAmount _) hmin]
    simp only [hunparsable]
    rfl
  have hpublicKey : (returned ((newPublicKeyFromBytes m.publicKey).mapError
      errNewPublicKeyFromBytes) : Uow Bytes).run.peek (store height)
        (db.charge height (signerOf P tx) 0) = some (.ok m.publicKey) := by
    rw [hkey]
    rfl
  rw [Message.setSigner, handleMessage, handleStakeMessage,
    exec_bind_check (checks_returned _) hpublicKey]
  exact exec_bind_of_none hcheck

theorem paramOwner_ne_fee {paramName owner : String} (h : paramOwner paramName = some owner) :
    owner ≠ messageChangeParameterFee := by
  have hall : ∀ p ∈ govParamMetadata, p.2 ≠ messageChangeParameterFee := by decide +kernel
  obtain ⟨p, hfind, rfl⟩ := Option.map_eq_some_iff.1 h
  exact hall p (List.mem_of_find?_eq_some hfind)

/-- A change to a value of an unknown type, where the signer owns the parameter and the fee is
nothing. -/
theorem exec_of_unknownValueType (hbasic : tx.validateBasic P = .ok ())
    (h : UnknownValueType P tx m) (height index : ℤ) :
    ∃ db, (handleTransaction P height tx index).run.exec (store height) id (fun _ => none) db
      = none := by
  obtain ⟨signature, hsignature, hlength⟩ := signature_of_validateBasic hbasic
  obtain ⟨owner, howner⟩ := Option.isSome_iff_exists.1 h.parameter
  obtain ⟨value, hvalue, hunknown⟩ := h.unknown
  let db := Database.ofParams height owner (hexEncode (signerOf P tx)) messageChangeParameterFee "0"
  have hcharged : Charged P height db tx (.changeParameter m) (signerOf P tx) 0 := by
    refine ⟨h.decoded, ⟨signature, hsignature, hlength, by rw [signerOf, hsignature]⟩, ?_, ?_, ?_⟩
    · refine ⟨[signerOf P tx], ?_, List.mem_singleton_self _⟩
      rw [getSignerCandidates, getParamOwner, howner]
      refine peek_bind_eq_ok.2 ⟨signerOf P tx, ?_, rfl⟩
      have howned : (getByteArrayParam owner).run.peek (store height) db
          = some (.ok (signerOf P tx)) := by
        refine peek_bind_eq_ok.2 ⟨_, peek_getStringParam
          (lookup_ofParams_fst (paramOwner_ne_fee howner)), ?_⟩
        rw [Text.hexDecode_hexEncode]
        rfl
      rw [peek_wrap, howned]
      rfl
    · exact peek_getBigIntParam lookup_ofParams_snd stringToBigInt_zero
    · rw [amount_ofParams]
  refine ⟨db, exec_handleTransaction_eq_none hcharged index ?_⟩
  rw [Message.setSigner, handleMessage, handleMessageChangeParameter, hvalue]
  cases value with
  | int32Value v | stringValue v | bytesValue v => cases hunknown
  | utility m | other => rfl

/-! ## Transactions that cannot end the process -/

/-- A transaction that passes the basic checks is handled to a result in every state, at every
height and whichever calls fail, exactly when it is neither a stake of an unparsable amount nor
a change of a parameter to a value of an unknown type, where these reach their handler. -/
theorem handleTransaction_returns_iff {tx : Transaction} (hbasic : tx.validateBasic P = .ok ()) :
    (∀ (height index : ℤ) (db : Database) (view : Database → Database) (fails : ℕ → Option String),
      (handleTransaction P height tx index).run.exec (store height) view fails db ≠ none) ↔
      (¬ ∃ m, UnparsableStake P tx m) ∧ ¬ ∃ m, UnknownValueType P tx m := by
  constructor
  · intro hreturns
    constructor
    · rintro ⟨m, hm⟩
      obtain ⟨db, hdb⟩ := exec_of_unparsableStake hbasic hm 0 0
      exact hreturns 0 0 db id _ hdb
    · rintro ⟨m, hm⟩
      obtain ⟨db, hdb⟩ := exec_of_unknownValueType hbasic hm 0 0
      exact hreturns 0 0 db id _ hdb
  · rintro ⟨hstake, hchange⟩ height index db view fails
    exact exec_ne_none_of_returns (returns_handleTransaction hbasic hstake hchange height index)
      _ _ _ _

/-- A send of nothing passes the basic checks and can be handled everywhere. -/
theorem handleTransaction_send_returns :
    ownerTx.validateBasic (ownerPlatform (.send ⟨[1], [2], "0"⟩)) = .ok () ∧
      ∀ (height index : ℤ) (db : Database) (view : Database → Database)
        (fails : ℕ → Option String),
        (handleTransaction (ownerPlatform (.send ⟨[1], [2], "0"⟩)) height ownerTx index).run.exec
          (store height) view fails db ≠ none := by
  have hbasic : ownerTx.validateBasic (ownerPlatform (.send ⟨[1], [2], "0"⟩)) = .ok () := by
    decide
  refine ⟨hbasic, (handleTransaction_returns_iff hbasic).2 ⟨?_, ?_⟩⟩
  · rintro ⟨m, hm⟩
    cases hm.decoded
  · rintro ⟨m, hm⟩
    cases hm.decoded

/-- The owner of the address `01` stakes an application with the amount `ten`. -/
def stakeOfTen : Message :=
  .stake { actorType := 1, publicKey := List.replicate 32 1, chains := [], amount := "ten"
           serviceUrl := "", outputAddress := [1] }

/-- It passes the basic checks, and where the fee and the minimal stake are `0` the process
ends. -/
theorem stakeOfTen_crashes :
    ownerTx.validateBasic (ownerPlatform stakeOfTen) = .ok () ∧
      (handleTransaction (ownerPlatform stakeOfTen) 1 ownerTx 0).run.exec (store 1) id
        (fun _ => none)
        (Database.ofParams 1 "message_stake_app_fee" "0" "app_minimum_stake" "0") = none := by
  constructor
  · decide
  · rfl

end Pocket.Utility
