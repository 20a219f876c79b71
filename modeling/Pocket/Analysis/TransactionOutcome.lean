import Pocket.Library.StoreTriples
import Pocket.Utility.Transactions

/-!
# What handling a transaction can do to the database

One statement for each function of `Pocket.Utility.Transactions`, against any set `F` of
errors that calls may fail with.  A transaction first passes checks, which read and change
nothing (`StoreProgram.Prog.Checks`); if they pass, the writes follow one after the other, and
each of them can be the last.

* `Charged` is what the checks up to the fee require, and `wp_basicValidateTransaction` says
  that they are all of it: without it the transaction is refused and nothing changes.
* `wp_handleMessageSend` and `wp_handleStakeMessage` are equivalences of the same kind for the
  two handlers that move money.
* the other three reachable handlers write one row of another table.
-/

set_option autoImplicit false

namespace Pocket.Utility

open Model (Bytes int64)
open StoreProgram StoreProgram.Prog VersionedTable Database
open Text (hexEncode hexDecode)

variable {P : Platform} {height : ℤ} {F : String → Prop} {db : Database}

/-! ## The checks -/

/-- A balance is only read. -/
theorem checks_getAccountAmount (address : Bytes) : (getAccountAmount address).run.Checks :=
  checks_wrap _ (checks_ask _)

/-- The answer is the amount of the row. -/
theorem peek_getAccountAmount (address : Bytes) :
    (getAccountAmount address).run.peek (store height) db
      = some (.ok (db.accounts.amount (hexEncode address) height)) := rfl

/-- A parameter is only read. -/
theorem checks_getStringParam (paramName : String) : (getStringParam paramName).run.Checks :=
  checks_wrap _ (checks_ask _)

/-- A big integer is only read. -/
theorem checks_getBigIntParam (paramName : String) : (getBigIntParam paramName).run.Checks :=
  checks_bind (checks_getStringParam _) fun _ => checks_returned _

/-- An `int` is only read. -/
theorem checks_getIntParam (paramName : String) : (getIntParam paramName).run.Checks :=
  checks_bind (checks_getStringParam _) fun _ => checks_returned _

/-- Bytes are only read. -/
theorem checks_getByteArrayParam (paramName : String) : (getByteArrayParam paramName).run.Checks :=
  checks_bind (checks_getStringParam _) fun _ => checks_returned _

variable {paramName value : String} {α : Type} {actorType n : ℤ} {a : α} {onError : String → Error}
  {address : Bytes} {msg : Message} {post : Except Error Unit → Database → Prop} {signer : Bytes}
  {tx : Transaction} {fee : ℤ} {body : ActorType → Fallible Query Answer Update String String α}
  {m : MessageStake}

section

variable (h : db.params.lookup paramName height = some value)
include h

/-- A parameter is read from its row. -/
theorem answer_param : (store height).answer db (.param paramName) = .ok value := by
  change answer height db (.param paramName) = .ok value
  rw [answer, selectLatest, h]
  rfl

/-- A parameter as it is stored. -/
theorem peek_getStringParam :
    (getStringParam paramName).run.peek (store height) db = some (.ok value) := by
  rw [getStringParam, peek_wrap, peek_ask, answer_param h]
  rfl

/-- A parameter as a big integer. -/
theorem peek_getBigIntParam (hn : stringToBigInt value = .ok n) :
    (getBigIntParam paramName).run.peek (store height) db = some (.ok n) := by
  refine peek_bind_eq_ok.2 ⟨value, peek_getStringParam h, ?_⟩
  rw [hn]
  rfl

/-- A parameter as an `int`. -/
theorem peek_getIntParam (hn : atoi value = .ok n) :
    (getIntParam paramName).run.peek (store height) db = some (.ok n) := by
  refine peek_bind_eq_ok.2 ⟨value, peek_getStringParam h, ?_⟩
  rw [hn]
  rfl

end

/-- A getter for a kind of actor asks if all of its kinds do. -/
theorem checks_forActor {body : ActorType → Uow α} (actorType : ℤ)
    (h : ∀ t, (body t).run.Checks) : (forActor actorType body).run.Checks := by
  unfold forActor
  split
  · exact h _
  · exact checks_throw _

/-- It has a result for a known kind only. -/
theorem actorType_of_forActor {body : ActorType → Uow α}
    (h : (forActor actorType body).run.peek (store height) db = some (.ok a)) :
    ∃ t, ActorType.ofInt actorType = some t := by
  cases ht : ActorType.ofInt actorType with
  | some t => exact ⟨t, rfl⟩
  | none =>
    rw [forActor, ht] at h
    cases h

/-- The same for a call of the persistence layer. -/
theorem checks_callForActor (actorType : ℤ) (h : ∀ t, (body t).run.Checks) :
    (callForActor actorType onError body).run.Checks := by
  refine checks_wrap _ ?_
  split
  · exact h _
  · exact checks_throw _

/-- Its result is that of a known kind. -/
theorem peek_callForActor {db : Database}
    (h : (callForActor actorType onError body).run.peek (store height) db = some (.ok a)) :
    ∃ t, ActorType.ofInt actorType = some t ∧
      (body t).run.peek (store height) db = some (.ok a) := by
  have hbody := peek_wrap_eq_ok.1 h
  cases ht : ActorType.ofInt actorType with
  | none =>
    rw [ht] at hbody
    cases hbody
  | some t =>
    rw [ht] at hbody
    exact ⟨t, rfl, hbody⟩

/-- A column is read from the latest row. -/
theorem lookup_of_selectLatest {ν : Type} {t : Table String ℤ ν} {column : ν → α}
    {address : String} (h : selectLatest t column address height = .ok a) :
    ∃ row, t.lookup address height = some row ∧ column row = a := by
  rw [selectLatest] at h
  split at h
  · next row hrow => exact ⟨row, hrow, Except.ok.inj h⟩
  · cases h

/-- An `int` of a kind of actor is only read. -/
theorem checks_getActorIntParam (paramName : ActorType → String) (actorType : ℤ) :
    (getActorIntParam paramName actorType).run.Checks :=
  checks_forActor _ fun _ => checks_wrap _ (checks_getIntParam _)

section

variable (actorType : ℤ)

/-- The end of the unbonding is only read. -/
theorem checks_getUnbondingHeight : (getUnbondingHeight height actorType).run.Checks :=
  checks_bind (checks_getActorIntParam _ _) fun _ => checks_pure _

/-- An output address is only read. -/
theorem checks_getActorOutputAddress (operator : Bytes) :
    (getActorOutputAddress actorType operator).run.Checks :=
  checks_callForActor _ fun _ => checks_bind (checks_ask _) fun _ => checks_returned _

/-- A status is only read. -/
theorem checks_getActorStatus (address : Bytes) :
    (getActorStatus height actorType address).run.Checks :=
  checks_bind (checks_callForActor _ fun _ => checks_ask _) fun _ => checks_pure _

/-- A paused height is only read. -/
theorem checks_getPausedHeightIfExists (address : Bytes) :
    (getPausedHeightIfExists actorType address).run.Checks :=
  checks_callForActor _ fun _ => checks_ask _

/-- An actor is only looked up. -/
theorem checks_getActorExists (address : Bytes) : (getActorExists actorType address).run.Checks :=
  checks_forActor _ fun _ => checks_wrap _ (checks_ask _)

/-- The owner of a parameter is only read. -/
theorem checks_getParamOwner (paramName : String) : (getParamOwner paramName).run.Checks := by
  unfold getParamOwner
  split
  · exact checks_getByteArrayParam _
  · exact checks_throw _

/-- The candidates are read, not written. -/
theorem checks_getSignerCandidates (msg : Message) : (getSignerCandidates P msg).run.Checks := by
  cases msg with
  | send m => exact checks_pure _
  | stake m => exact checks_bind (checks_returned _) fun _ => checks_pure _
  | editStake m => exact checks_throw _
  | unstake m | unpause m =>
    exact checks_bind (checks_getActorOutputAddress _ _) fun _ => checks_pure _
  | changeParameter m =>
    exact checks_bind (checks_wrap _ (checks_getParamOwner _)) fun _ => checks_pure _

/-- The fee is only read. -/
theorem checks_getFee (msg : Message) : (getFee msg).run.Checks := by
  cases msg with
  | send m => exact checks_getBigIntParam _
  | stake m | editStake m | unstake m | unpause m =>
    exact checks_forActor _ fun _ => checks_getBigIntParam _
  | changeParameter m => exact checks_getBigIntParam _

/-- The least stake is only read. -/
theorem checks_getMinRequiredStakeAmount : (getMinRequiredStakeAmount actorType).run.Checks :=
  checks_forActor _ fun _ =>
    checks_bind (checks_wrap _ (checks_getStringParam _)) fun _ => checks_returned _

/-- A stake is only read. -/
theorem checks_getActorStakeAmount (address : Bytes) :
    (getActorStakeAmount actorType address).run.Checks :=
  checks_bind (checks_callForActor _ fun _ => checks_ask _) fun _ => checks_returned _

/-- The amount is compared without a write. -/
theorem checks_checkAboveMinStake (amountStr : String) :
    (checkAboveMinStake actorType amountStr).run.Checks := by
  refine checks_bind (checks_getMinRequiredStakeAmount _) fun minStake => ?_
  split
  · exact checks_crash
  · exact checks_ite (checks_throw _) (checks_pure _)

/-- The limit on chains is only read. -/
theorem checks_checkBelowMaxChains (chains : List String) :
    (checkBelowMaxChains actorType chains).run.Checks := by
  unfold checkBelowMaxChains
  refine checks_ite (checks_pure _) (checks_bind ?_ fun _ => checks_throwIf _ _)
  exact checks_ite (checks_throw _) (checks_getActorIntParam _ _)

end

/-! ## Up to the fee -/

/-- The fee moves from the signer to the fee collector. -/
def Database.charge (height : ℤ) (db : Database) (signer : Bytes) (fee : ℤ) : Database :=
  let db := db.setAccount height (hexEncode signer)
    (db.accounts.amount (hexEncode signer) height - fee)
  db.setPool height (hexEncode Pool.feeCollector.address)
    (db.pools.amount (hexEncode Pool.feeCollector.address) height + fee)

/-- The fee is taken if it can be read and is covered. -/
theorem wp_validateAndDeductTxFees (herr : ∀ e, post (.error e) db) :
    (validateAndDeductTxFees address msg).run.wp (store height) F post db ↔
      ∀ fee, (getFee msg).run.peek (store height) db = some (.ok fee) →
        fee ≤ db.accounts.amount (hexEncode address) height →
        (∀ e, F e → post (.error (errAddPoolAmount Pool.feeCollector.address e))
          (db.setAccount height (hexEncode address)
            (db.accounts.amount (hexEncode address) height - fee))) ∧
        post (.ok ()) (db.charge height address fee) := by
  rw [validateAndDeductTxFees, wp_bind_check (checks_getFee _) herr]
  refine forall₂_congr fun fee _ => ?_
  rw [wp_bind_check_eq (checks_wrap _ (checks_getAccountAmount _)) herr rfl, wp_bind_throwIf herr,
    setAccountAmount, wp_bind_perform, addPoolAmount, wp_perform, Int.not_lt, Int.sub_nonneg,
    and_iff_right fun e _ => herr _]
  exact Iff.rfl

/-- The transaction decodes to `msg`, its key belongs to one of the candidates of the message,
and that account can pay the fee of the message. -/
structure Charged (P : Platform) (height : ℤ) (db : Database) (tx : Transaction) (msg : Message)
    (signer : Bytes) (fee : ℤ) : Prop where
  decoded : P.fromAny tx.msg = .ok (.utility msg)
  signed : ∃ signature, tx.signature = some signature ∧ signature.publicKey.length = 32 ∧
    signer = P.address signature.publicKey
  candidate : ∃ candidates, (getSignerCandidates P msg).run.peek (store height) db
    = some (.ok candidates) ∧ signer ∈ candidates
  fee_eq : (getFee msg).run.peek (store height) db = some (.ok fee)
  affordable : fee ≤ db.accounts.amount (hexEncode signer) height

/-- The fee does not depend on the signer. -/
theorem getFee_setSigner (msg : Message) (signer : Bytes) :
    getFee (msg.setSigner signer) = getFee msg := by
  cases msg <;> rfl

/-- The signer is checked without a write. -/
theorem checks_validateTxSignature (address : Bytes) (msg : Message) :
    (validateTxSignature P address msg).run.Checks :=
  checks_bind (checks_getSignerCandidates _) fun _ => checks_ite (checks_pure _) (checks_throw _)

/-- The signer is one of the candidates. -/
theorem peek_validateTxSignature :
    (validateTxSignature P address msg).run.peek (store height) db = some (.ok signer) ↔
      signer = address ∧ ∃ candidates, (getSignerCandidates P msg).run.peek (store height) db
        = some (.ok candidates) ∧ address ∈ candidates := by
  rw [validateTxSignature, peek_bind_eq_ok, ← exists_and_left]
  refine exists_congr fun candidates => ?_
  by_cases hmem : address ∈ candidates
  · rw [if_pos hmem, peek_pure]
    simp [hmem, and_comm, eq_comm]
  · rw [if_neg hmem, peek_throw]
    simp [hmem]

/-- The message is decoded without a write. -/
theorem checks_validateTxMessage (tx : Transaction) : (validateTxMessage P tx).run.Checks := by
  unfold validateTxMessage
  split
  · exact checks_throw _
  · exact checks_pure _
  · exact checks_throw _

/-- The message is the one that the bytes decode to. -/
theorem peek_validateTxMessage :
    (validateTxMessage P tx).run.peek (store height) db = some (.ok msg) ↔
      P.fromAny tx.msg = .ok (.utility msg) := by
  unfold validateTxMessage
  split
  · next h => simp [h]
  · next h => simp [h]
  · next hother h => simpa [h] using hother msg

section Updates

variable {Λ : Update → Prop} {ends : Prop}

section

variable {post : Except Error α → Prop}

/-- A getter for a kind of actor, kind by kind. -/
@[simp]
theorem meets_forActor {body : ActorType → Uow α} : (forActor actorType body).run.Meets Λ ends post ↔
    (∀ t, ActorType.ofInt actorType = some t → (body t).run.Meets Λ ends post) ∧
      (ActorType.ofInt actorType = none → post (.error (unknownActorType actorType))) := by
  unfold forActor
  cases ActorType.ofInt actorType <;> simp

/-- A call for a kind of actor, kind by kind. -/
@[simp]
theorem meets_callForActor : (callForActor actorType onError body).run.Meets Λ ends post ↔
    (∀ t, ActorType.ofInt actorType = some t →
      (body t).run.Meets Λ ends fun r => post (r.mapError onError)) ∧
      (ActorType.ofInt actorType = none →
        post (.error (onError (unknownActorType actorType).error))) := by
  unfold callForActor
  cases ActorType.ofInt actorType <;> simp [Except.mapError]

end

/-- No message that edits a stake has a candidate. -/
theorem every_validateTxSignature (address : Bytes) (msg : Message) :
    (validateTxSignature P address msg).run.Every Λ fun r =>
      ∀ signer, r = .ok signer → ∀ m, msg ≠ .editStake m := by
  have hchecked : (validateTxSignature P address msg).run.Every Λ fun _ => True :=
    every_of_checks (checks_validateTxSignature address msg)
  cases msg with
  | editStake m => exact fun signer hsigner => by cases hsigner
  | send m | stake m | unstake m | unpause m | changeParameter m =>
    exact meets_mono hchecked fun _ _ _ _ _ hm => by cases hm

/-- The message that is returned was decoded. -/
theorem every_validateTxMessage (tx : Transaction) :
    (validateTxMessage P tx).run.Every Λ fun r =>
      ∀ msg, r = .ok msg → P.fromAny tx.msg = .ok (.utility msg) := by
  unfold validateTxMessage
  split
  · exact fun _ h => by cases h
  · next msg hmsg =>
    intro msg' h
    cases h
    exact hmsg
  · exact fun _ h => by cases h

/-- Up to the fee a transaction writes the signer's account and the pool of the fees. -/
theorem every_basicValidateTransaction (tx : Transaction)
    (hset : ∀ address amount, Λ (.setAccount address amount))
    (hadd : ∀ address amount, Λ (.addPool address amount)) :
    (basicValidateTransaction P tx).run.Every Λ fun r => ∀ handled, r = .ok handled →
      ∃ msg signer, P.fromAny tx.msg = .ok (.utility msg) ∧ handled = msg.setSigner signer ∧
        ∀ m, msg ≠ .editStake m := by
  refine meets_bind_fallible.2
    (meets_mono (every_validateTxMessage tx) fun r hdecoded => ⟨by simp, ?_⟩)
  rintro msg rfl
  split
  · trivial
  · split
    · trivial
    · refine meets_bind_fallible.2
        (meets_mono (every_validateTxSignature _ msg) fun r hmsg => ⟨by simp, ?_⟩)
      rintro signer rfl
      have hfees : (validateAndDeductTxFees signer (msg.setSigner signer)).run.Every Λ
          fun _ => True := by
        refine meets_then (every_of_checks (checks_getFee _)) fun fee => ?_
        simp [getAccountAmount, setAccountAmount, addPoolAmount, hset, hadd]
      refine meets_bind_fallible.2 (meets_mono hfees fun r _ => ⟨by simp, ?_⟩)
      rintro - rfl handled hhandled
      cases hhandled
      exact ⟨msg, signer, hdecoded msg rfl, rfl, hmsg signer rfl⟩

/-! What the handlers write, and when they end the process. -/

/-- A send writes two accounts. -/
theorem meets_handleMessageSend (m : MessageSend)
    (hadd : ∀ address amount, Λ (.addAccount address amount))
    (hset : ∀ address amount, Λ (.setAccount address amount)) :
    (handleMessageSend m).run.Meets Λ ends fun _ => True := by
  simp [handleMessageSend, getAccountAmount, addAccountAmount, setAccountAmount, hadd, hset]

/-- A stake writes an account, a pool and the actor, and ends the process on an amount that is none. -/
theorem meets_handleStakeMessage (hset : ∀ address amount, Λ (.setAccount address amount))
    (hadd : ∀ address amount, Λ (.addPool address amount))
    (hinsert : ∀ publicKey amount, stringToBigInt m.amount = .ok amount →
      (insertActor P m publicKey).run.Meets Λ ends fun _ => True)
    (hends : ∀ e, stringToBigInt m.amount = .error e → ends) :
    (handleStakeMessage P m).run.Meets Λ ends fun _ => True := by
  cases hamount : stringToBigInt m.amount with
  | error e =>
    simp [handleStakeMessage, checkAboveMinStake, getMinRequiredStakeAmount, getStringParam,
      hamount, hends e hamount]
  | ok amount =>
    simp [handleStakeMessage, checkAboveMinStake, getMinRequiredStakeAmount, hamount,
      getAccountAmount, checkBelowMaxChains, getMaxAllowedChains, getActorIntParam, getIntParam,
      getStringParam, getActorExists, setAccountAmount, addPoolAmount, hset, hadd,
      fun publicKey => hinsert publicKey amount hamount]

/-- An unstaking writes one column. -/
theorem meets_handleUnstakeMessage (m : MessageUnstake)
    (hset : ∀ t unstakingHeight, Λ (.setUnstakingHeight t (hexEncode m.address) unstakingHeight)) :
    (handleUnstakeMessage height m).run.Meets Λ ends fun _ => True := by
  simp [handleUnstakeMessage, getActorStatus, getUnbondingHeight, getActorIntParam, getIntParam,
    getStringParam, setActorUnbondingHeight, hset]

/-- An unpausing writes one column. -/
theorem meets_handleUnpauseMessage (m : MessageUnpause)
    (hset : ∀ t, Λ (.setPausedHeight t (hexEncode m.address) heightNotUsed)) :
    (handleUnpauseMessage height m).run.Meets Λ ends fun _ => True := by
  simp [handleUnpauseMessage, getPausedHeightIfExists, getMinRequiredPausedBlocks,
    getActorIntParam, getIntParam, getStringParam, setActorPausedHeight, hset]

/-- A change of a parameter does what its value lets it do. -/
theorem meets_handleMessageChangeParameter {m : MessageChangeParameter}
    (hvalue : ∀ value, P.fromAny m.parameterValue = .ok value →
      (updateParam m.parameterKey value).run.Meets Λ ends fun _ => True) :
    (handleMessageChangeParameter P m).run.Meets Λ ends fun _ => True := by
  rw [handleMessageChangeParameter]
  cases hany : P.fromAny m.parameterValue with
  | error e => trivial
  | ok value => exact hvalue value hany

end Updates

section View

variable {view : Database → Database} {s : Database}

/-- Where it succeeds, the fee was read, covered and paid. -/
theorem succeeds_validateAndDeductTxFees {address : Bytes} {msg : Message} :
    Succeeds (store height) view (validateAndDeductTxFees address msg)
      (fun _ _ => ∃ fee, (getFee msg).run.peek (store height) (view s) = some (.ok fee) ∧
        fee ≤ (view s).accounts.amount (hexEncode address) height) s := by
  refine succeeds_check (checks_getFee _) fun fee hfee => ?_
  refine succeeds_check (checks_wrap _ (checks_getAccountAmount _)) ?_
  intro amount hamount
  have hread : (view s).accounts.amount (hexEncode address) height = amount :=
    Except.ok.inj (Option.some.inj (peek_wrap_eq_ok.1 hamount))
  refine succeeds_bind (succeeds_throwIf fun haffordable => ?_)
  refine succeeds_bind (succeeds_write ?_)
  refine succeeds_write ⟨fee, hfee, ?_⟩
  omega

/-- A transaction that gets past the fee is `Charged` in the state that its reads see. -/
theorem succeeds_basicValidateTransaction {tx : Transaction} :
    Succeeds (store height) view (basicValidateTransaction P tx)
      (fun handled _ => ∃ msg signer fee, handled = msg.setSigner signer ∧
        Charged P height (view s) tx msg signer fee) s := by
  refine succeeds_check (checks_validateTxMessage tx) fun msg hmsg => ?_
  split
  · exact succeeds_crash
  · next signature hsignature =>
    by_cases hkey : signature.publicKey.length = 32
    · have hpub : newPublicKeyFromBytes signature.publicKey = .ok signature.publicKey := if_pos hkey
      simp only [hpub]
      refine succeeds_check (checks_validateTxSignature _ _) ?_
      intro signer hsigner
      obtain ⟨rfl, candidates, hcandidates, hmem⟩ := peek_validateTxSignature.1 hsigner
      refine succeeds_bind (succeeds_mono succeeds_validateAndDeductTxFees ?_)
      rintro _ s' ⟨fee, hfee, haffordable⟩
      rw [getFee_setSigner] at hfee
      exact succeeds_pure ⟨msg, _, fee, rfl, peek_validateTxMessage.1 hmsg,
        ⟨signature, hsignature, hkey, rfl⟩, ⟨candidates, hcandidates, hmem⟩, hfee, haffordable⟩
    · have hpub : newPublicKeyFromBytes signature.publicKey
          = .error (errInvalidPublicKeyLen signature.publicKey.length) := if_neg hkey
      simp only [hpub]
      exact succeeds_crash

end View

/-- Up to the fee there are only these ends: refused with nothing changed, unless the
transaction is `Charged`; then stopped between the two writes, or done. -/
theorem wp_basicValidateTransaction
    {post : Except Error Message → Database → Prop} (herr : ∀ e, post (.error e) db) :
    (basicValidateTransaction P tx).run.wp (store height) F post db ↔
      ∀ msg signer fee, Charged P height db tx msg signer fee →
        (∀ e, F e → post (.error (errAddPoolAmount Pool.feeCollector.address e))
          (db.setAccount height (hexEncode signer)
            (db.accounts.amount (hexEncode signer) height - fee))) ∧
        post (.ok (msg.setSigner signer)) (db.charge height signer fee) := by
  rw [basicValidateTransaction, wp_bind_check (checks_validateTxMessage tx) herr]
  refine forall_congr' fun msg => ?_
  rw [peek_validateTxMessage]
  -- without a signature, or with a key that is none, the process ends
  cases hsignature : tx.signature with
  | none =>
    refine iff_of_true (fun _ => trivial) fun signer fee hcharged => ?_
    obtain ⟨signature, hsome, -⟩ := hcharged.signed
    rw [hsignature] at hsome
    cases hsome
  | some signature =>
    by_cases hkey : signature.publicKey.length = 32
    · have hpub : newPublicKeyFromBytes signature.publicKey = .ok signature.publicKey :=
        if_pos hkey
      simp only [hpub, wp_bind_check (checks_validateTxSignature _ _) herr,
        peek_validateTxSignature, wp_bind_fallible]
      constructor
      · intro h signer fee hcharged
        obtain ⟨signature', hsome, -, hsigner⟩ := hcharged.signed
        obtain rfl : signature = signature' := Option.some.inj (hsignature.symm.trans hsome)
        obtain ⟨candidates, hcandidates, hmem⟩ := hcharged.candidate
        have hfees := h hcharged.decoded signer ⟨hsigner, candidates, hcandidates, hsigner ▸ hmem⟩
        rw [wp_validateAndDeductTxFees (fun e => herr e), getFee_setSigner] at hfees
        exact hfees fee hcharged.fee_eq hcharged.affordable
      · intro h hdecoded signer hsigner
        rw [wp_validateAndDeductTxFees (fun e => herr e), getFee_setSigner]
        intro fee hfee haffordable
        obtain ⟨hsigner, candidates, hcandidates, hmem⟩ := hsigner
        exact h signer fee ⟨hdecoded, ⟨signature, hsignature, hkey, hsigner⟩,
          ⟨candidates, hcandidates, hsigner ▸ hmem⟩, hfee, haffordable⟩
    · have hpub : newPublicKeyFromBytes signature.publicKey
          = .error (errInvalidPublicKeyLen signature.publicKey.length) := if_neg hkey
      simp only [hpub]
      refine iff_of_true (fun _ => trivial) fun signer fee hcharged => ?_
      obtain ⟨signature', hsome, hlength, -⟩ := hcharged.signed
      rw [hsignature, Option.some.injEq] at hsome
      exact absurd (hsome ▸ hlength) hkey

/-- Without failures a covered fee is paid. -/
theorem exec_validateAndDeductTxFees
    (hfee : (getFee msg).run.peek (store height) db = some (.ok fee))
    (haffordable : fee ≤ db.accounts.amount (hexEncode address) height) :
    (validateAndDeductTxFees address msg).run.exec (store height) id (fun _ => none) db
      = some (.ok (), db.charge height address fee) := by
  have hcovered : ¬ db.accounts.amount (hexEncode address) height - fee < 0 := by omega
  have hread : (wrap (fun err => errGetAccountAmount err.error) (getAccountAmount address)
      : Uow ℤ).run.peek (store height) (id db)
        = some (.ok (db.accounts.amount (hexEncode address) height)) := rfl
  rw [validateAndDeductTxFees, exec_bind_check (checks_getFee _) hfee,
    exec_bind_check (checks_wrap _ (checks_getAccountAmount _)) hread,
    exec_bind_check (checks_throwIf _ _) (peek_throwIf_eq_ok (u := ()).2 hcovered)]
  rfl

/-- Without failing calls a `Charged` transaction reaches its handler. -/
theorem exec_basicValidateTransaction (h : Charged P height db tx msg signer fee) :
    (basicValidateTransaction P tx).run.exec (store height) id (fun _ => none) db
      = some (.ok (msg.setSigner signer), db.charge height signer fee) := by
  obtain ⟨signature, hsignature, hlength, hsigner⟩ := h.signed
  have hkey : newPublicKeyFromBytes signature.publicKey = .ok signature.publicKey := if_pos hlength
  have hvalid := peek_validateTxSignature.2 ⟨rfl, h.candidate⟩
  have hfee : (getFee (msg.setSigner signer)).run.peek (store height) db = some (.ok fee) := by
    rw [getFee_setSigner]
    exact h.fee_eq
  rw [basicValidateTransaction, exec_bind_check (checks_validateTxMessage tx)
    (peek_validateTxMessage.2 h.decoded), hsignature]
  simp only [hkey, ← hsigner]
  rw [exec_bind_check (checks_validateTxSignature _ _) hvalid]
  rw [exec_bind_of_ok (exec_validateAndDeductTxFees hfee h.affordable)]
  rfl

/-! ## The handlers -/

/-- A send that goes through credits the recipient and then writes the sender's amount, which
was read before that. -/
theorem wp_handleMessageSend {m : MessageSend} (herr : ∀ e, post (.error e) db) :
    (handleMessageSend m).run.wp (store height) F post db ↔
      ∀ amount, stringToBigInt m.amount = .ok amount →
        amount ≤ db.accounts.amount (hexEncode m.fromAddress) height →
        let credited := db.setAccount height (hexEncode m.toAddress)
          (db.accounts.amount (hexEncode m.toAddress) height + amount)
        (∀ e, F e → post (.error (errSetAccountAmount e)) credited) ∧
        post (.ok ()) (credited.setAccount height (hexEncode m.fromAddress)
          (db.accounts.amount (hexEncode m.fromAddress) height - amount)) := by
  rw [handleMessageSend, wp_bind_check (checks_returned _) herr]
  refine forall_congr' fun amount => ?_
  rw [wp_bind_check_eq (checks_getAccountAmount _) herr (peek_getAccountAmount _),
    wp_bind_throwIf herr, addAccountAmount, wp_bind_perform, setAccountAmount, wp_perform,
    Int.not_lt, Int.sub_nonneg, and_iff_right fun e _ => herr _]
  cases stringToBigInt m.amount with
  | error e => exact iff_of_true (fun h => by cases h) fun h => by cases h
  | ok parsed =>
    rw [peek_returned]
    simp
    rfl

/-- The checks of a stake, up to its first write. -/
structure StakeAccepted (P : Platform) (height : ℤ) (db : Database) (m : MessageStake)
    (amount : ℤ) : Prop where
  key : m.publicKey.length = 32
  aboveMinStake : (checkAboveMinStake m.actorType m.amount).run.peek (store height) db
    = some (.ok amount)
  affordable : amount ≤ db.accounts.amount (hexEncode m.signer) height
  belowMaxChains : (checkBelowMaxChains m.actorType m.chains).run.peek (store height) db
    = some (.ok ())
  new : (getActorExists m.actorType (P.address m.publicKey)).run.peek (store height) db
    = some (.ok false)

/-- The amount is the one of the message. -/
theorem StakeAccepted.amount_eq {amount : ℤ} (h : StakeAccepted P height db m amount) :
    stringToBigInt m.amount = .ok amount := by
  have hchecked := h.aboveMinStake
  rw [checkAboveMinStake, peek_bind_eq_ok] at hchecked
  obtain ⟨minStake, -, hamount⟩ := hchecked
  cases hparsed : stringToBigInt m.amount with
  | error e =>
    rw [hparsed] at hamount
    cases hamount
  | ok n =>
    simp only [hparsed] at hamount
    split at hamount
    · cases hamount
    · cases hamount
      rfl

/-- The stake moves from the signer to the pool of the applications. -/
def Database.stake (height : ℤ) (db : Database) (signer : Bytes) (amount : ℤ) : Database :=
  let db := db.setAccount height (hexEncode signer)
    (db.accounts.amount (hexEncode signer) height - amount)
  db.setPool height (hexEncode Pool.appStake.address)
    (db.pools.amount (hexEncode Pool.appStake.address) height + amount)

/-- **What a stake needs and does.** -/
theorem wp_handleStakeMessage (herr : ∀ e, post (.error e) db) :
    (handleStakeMessage P m).run.wp (store height) F post db ↔
      ∀ amount, StakeAccepted P height db m amount →
        (∀ e, F e → post (.error (errAddPoolAmount Pool.appStake.address e))
          (db.setAccount height (hexEncode m.signer)
            (db.accounts.amount (hexEncode m.signer) height - amount))) ∧
        (insertActor P m m.publicKey).run.wp (store height) F post
          (db.stake height m.signer amount) := by
  by_cases hkey : m.publicKey.length = 32
  · have hpub : (newPublicKeyFromBytes m.publicKey).mapError errNewPublicKeyFromBytes
        = .ok m.publicKey := by
      rw [newPublicKeyFromBytes, if_pos hkey]
      rfl
    rw [handleStakeMessage, hpub, wp_bind_check_eq (checks_returned _) herr rfl,
      wp_bind_check (checks_checkAboveMinStake _ _) herr]
    refine forall_congr' fun amount => ?_
    rw [wp_bind_check_eq (checks_getAccountAmount _) herr (peek_getAccountAmount _),
      wp_bind_throwIf herr, wp_bind_check (checks_checkBelowMaxChains _ _) herr,
      Int.not_lt, Int.sub_nonneg]
    simp only [wp_bind_check (checks_getActorExists _ _) herr, wp_bind_throwIf herr,
      setAccountAmount, addPoolAmount, wp_bind_perform]
    constructor
    · intro h haccepted
      exact (h haccepted.aboveMinStake haccepted.affordable () haccepted.belowMaxChains false
        haccepted.new Bool.false_ne_true).2
    · intro h habove haffordable _ hchains found hfound hnew
      rw [Bool.not_eq_true] at hnew
      exact ⟨fun e _ => herr _, h ⟨hkey, habove, haffordable, hchains, hnew ▸ hfound⟩⟩
  · have hpub : newPublicKeyFromBytes m.publicKey
        = .error (errInvalidPublicKeyLen m.publicKey.length) := if_neg hkey
    rw [handleStakeMessage, hpub, wp_bind_check (checks_returned _) herr]
    exact iff_of_true (fun _ h => by cases h) fun amount haccepted => absurd haccepted.key hkey

/-! The other messages write to a table that holds no money, or a column that is no stake. -/

/-- The stakes as a reader at `height` sees them. -/
def Database.stakedTokens (height : ℤ) (db : Database) (t : ActorType) (address : String) :
    Option String :=
  ((db.actors t).lookup address height).map ActorRow.stakedTokens

/-- No balance and no stake is another. -/
structure KeepsMoney (height : ℤ) (db db' : Database) : Prop where
  accounts : db'.accounts = db.accounts
  pools : db'.pools = db.pools
  stakes : db'.stakedTokens height = db.stakedTokens height

/-- Nothing has changed. -/
theorem KeepsMoney.refl : KeepsMoney height db db := ⟨rfl, rfl, rfl⟩

/-- Only the row that is written has another stake. -/
theorem stakedTokens_setActors (db : Database) (t t' : ActorType) (address address' : String)
    (row : ActorRow) :
    (db.setActors t ((db.actors t).upsert address height row)).stakedTokens height t' address'
      = if t' = t ∧ address' = address then some row.stakedTokens
        else db.stakedTokens height t' address' := by
  by_cases ht : t' = t
  · subst ht
    simp only [stakedTokens, setActors, Function.update_self,
      VersionedTable.Table.lookup_upsert, true_and]
    split <;> rfl
  · simp only [stakedTokens, setActors, Function.update_of_ne ht, ht, false_and,
      if_false]

/-- The new actor has its stake, the others keep theirs. -/
theorem stakedTokens_insertActor (db : Database) (t t' : ActorType) (address address' : String)
    (row : ActorRow) (chains : List String) :
    (db.insertActor height t address row chains).stakedTokens height t' address'
      = if t' = t ∧ address' = address then some row.stakedTokens
        else db.stakedTokens height t' address' := by
  have hchains : (db.insertActor height t address row chains).stakedTokens height t' address'
      = (db.insertActor height t address row []).stakedTokens height t' address' := by
    simp only [Database.insertActor, if_true]
    split <;> rfl
  rw [hchains, Database.insertActor, if_pos rfl, stakedTokens_setActors]
  -- a conflicting row keeps its key and output address, not its stake
  cases (db.actors t).written address height <;> rfl

/-- A write that leaves the stake alone. -/
theorem keepsMoney_updateRow (db : Database) (t : ActorType) (address : String)
    {change : ActorRow → ActorRow} (hchange : ∀ row, (change row).stakedTokens = row.stakedTokens) :
    KeepsMoney height db (db.updateRow height t address change) := by
  cases hrow : (db.actors t).lookup address height with
  | none =>
    simp only [updateRow, hrow]
    exact .refl
  | some row =>
    simp only [updateRow, hrow]
    refine ⟨rfl, rfl, funext fun t' => funext fun address' => ?_⟩
    rw [stakedTokens_setActors]
    split
    · next heq => rw [hchange, heq.1, heq.2, stakedTokens, hrow, Option.map_some]
    · rfl

/-- A write for a kind of actor. -/
theorem wp_callForActor_perform {update : ActorType → Update} (herr : ∀ e, post (.error e) db)
    (hwrite : ∀ t, post (.ok ()) (apply height db (update t))) :
    (callForActor actorType onError fun t => perform (update t)).run.wp (store height) F post db := by
  rw [callForActor]
  split
  · exact wp_perform.2 ⟨fun e _ => herr _, hwrite _⟩
  · exact herr _

section

variable (hpost : ∀ r db', KeepsMoney height db db' → post r db')
include hpost

/-- An unstaking moves no money. -/
theorem wp_handleUnstakeMessage {m : MessageUnstake} :
    (handleUnstakeMessage height m).run.wp (store height) F post db := by
  have herr : ∀ e, post (.error e) db := fun e => hpost _ _ .refl
  rw [handleUnstakeMessage, wp_bind_check (checks_wrap _ (checks_getActorStatus _ _)) herr]
  intro status _
  rw [wp_bind_throwIf herr]
  intro _
  rw [wp_bind_check (checks_getUnbondingHeight _) herr]
  intro unbondingHeight _
  exact wp_callForActor_perform herr fun t => hpost _ _ (keepsMoney_updateRow _ _ _ fun _ => rfl)

/-- An unpausing moves no money. -/
theorem wp_handleUnpauseMessage {m : MessageUnpause} :
    (handleUnpauseMessage height m).run.wp (store height) F post db := by
  have herr : ∀ e, post (.error e) db := fun e => hpost _ _ .refl
  rw [handleUnpauseMessage, wp_bind_check (checks_getPausedHeightIfExists _ _) herr]
  intro pausedHeight _
  rw [wp_bind_throwIf herr]
  intro _
  rw [getMinRequiredPausedBlocks, wp_bind_check (checks_getActorIntParam _ _) herr]
  intro minPauseBlocks _
  rw [wp_bind_throwIf herr]
  intro _
  exact wp_callForActor_perform herr fun t => hpost _ _ (keepsMoney_updateRow _ _ _ fun _ => rfl)

/-- A change of a parameter moves no money. -/
theorem wp_handleMessageChangeParameter {m : MessageChangeParameter} :
    (handleMessageChangeParameter P m).run.wp (store height) F post db := by
  have herr : ∀ e, post (.error e) db := fun e => hpost _ _ .refl
  have hset : ∀ value, (wrap errUpdateParam (perform (.setParam m.parameterKey value)) :
      Uow Unit).run.wp (store height) F post db := fun value =>
    wp_perform.2 ⟨fun e _ => herr _, hpost _ _ ⟨rfl, rfl, rfl⟩⟩
  rw [handleMessageChangeParameter, wp_bind_check (checks_returned _) herr]
  intro value _
  cases value with
  | int32Value v | stringValue v | bytesValue v => exact hset _
  | utility msg | other => exact wp_crash.2 trivial

end

/-! ## The whole transaction -/

/-- **A transaction is its validation and then its message.** -/
theorem wp_handleTransaction {index : ℤ}
    {post : Except Error IndexedTransaction → Database → Prop} (herr : ∀ e, post (.error e) db) :
    (handleTransaction P height tx index).run.wp (store height) F post db ↔
      ∀ msg signer fee, Charged P height db tx msg signer fee →
        (∀ e, F e → post (.error (errAddPoolAmount Pool.feeCollector.address e))
          (db.setAccount height (hexEncode signer)
            (db.accounts.amount (hexEncode signer) height - fee))) ∧
        (handleMessage P height (msg.setSigner signer)).run.wp (store height) F
          (fun r db' => post (txToIdxTx P tx height index (msg.setSigner signer) r) db')
          (db.charge height signer fee) := by
  rw [handleTransaction, wp_bind_fallible, wp_basicValidateTransaction fun e => herr e]
  refine forall₃_congr fun msg signer fee => imp_congr_right fun _ => and_congr_right fun _ => ?_
  exact wp_bind_attempt

/-- A send is signed by the account that pays. -/
theorem Charged.signer_eq {m : MessageSend}
    (h : Charged P height db tx (.send m) signer fee) : signer = m.fromAddress := by
  obtain ⟨candidates, hcandidates, hmem⟩ := h.candidate
  cases hcandidates
  exact List.mem_singleton.1 hmem

/-- No transaction that edits a stake is charged, because its signer has no candidates. -/
theorem not_charged_editStake {m : MessageEditStake} :
    ¬ Charged P height db tx (.editStake m) signer fee := by
  intro hcharged
  obtain ⟨candidates, hcandidates, -⟩ := hcharged.candidate
  cases hcandidates

end Pocket.Utility
