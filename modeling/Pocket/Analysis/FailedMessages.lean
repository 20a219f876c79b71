import Pocket.Analysis.TransactionOutcome
import Pocket.Library.StoreFailures

/-!
# Messages that fail

The fee and each message handler look everything up before they write anything, so an error of
their own checks leaves the state alone, and so does a failing first write.  A later write that fails
is another matter: the writes before it stay, since reverting to a save point does nothing, and the
transaction is then indexed with an error, or dropped by the leader.  Which calls these are depends on
the kind of the message: three of the six kinds write once.
-/

set_option autoImplicit false

namespace Pocket.Utility

open Model (Bytes)
open StoreProgram StoreProgram.Prog
open Text (hexEncode)

variable {P : Platform} {height : ℤ} {onError : String → Error} {n : ℕ} {α : Type}

/-! ## The calls of a message -/

/-- Only the chains of an actor that is no validator are checked. -/
def chainCalls (actorType : ℤ) : ℕ := if ActorType.ofInt actorType = some .val then 0 else 1

/-- The calls that look up who may sign a message. -/
def signerCalls : Message → ℕ
  | .send _ | .stake _ | .editStake _ => 0
  | .unstake _ | .unpause _ | .changeParameter _ => 1

/-- The position of the first write of a handler among its calls. -/
def firstWrite : Message → ℕ
  | .send _ => 1
  | .stake m => 1 + chainCalls m.actorType + 2
  | .editStake m => chainCalls m.actorType + 3
  | .unstake _ | .unpause _ => 2
  | .changeParameter _ => 0

/-- The writes of a handler after the first one: the sender's account for a send; the stake pool and
the actor for a stake, with at most two writes of the chains for an edited one. -/
def laterWrites : Message → ℕ
  | .send _ => 1
  | .stake _ => 2
  | .editStake _ => 4
  | .unstake _ | .unpause _ | .changeParameter _ => 0

/-- The position of the second write of the fee, that of the fee collector. -/
def secondFeeWrite (msg : Message) : ℕ := signerCalls msg + 3

/-! ## The checks -/

theorem asks_getAccountAmount (address : Bytes) : (getAccountAmount address).run.Asks 1 :=
  asks_wrap _ (asks_ask _)

theorem asks_getStringParam (paramName : String) : (getStringParam paramName).run.Asks 1 :=
  asks_wrap _ (asks_ask _)

theorem asks_getBigIntParam (paramName : String) : (getBigIntParam paramName).run.Asks 1 :=
  asks_bind (asks_getStringParam _) fun _ => asks_returned _

theorem asks_forActor {body : ActorType → Uow α} (actorType : ℤ) (h : ∀ t, (body t).run.Asks n) :
    (forActor actorType body).run.Asks n := by
  unfold forActor
  split
  · exact h _
  · exact asks_throw _

theorem asks_callForActor {body : ActorType → Fallible Query Answer Update String String α}
    (actorType : ℤ) (h : ∀ t, (body t).run.Asks n) :
    (callForActor actorType onError body).run.Asks n := by
  refine asks_wrap _ ?_
  split
  · exact h _
  · exact asks_throw _

theorem asks_getActorIntParam (paramName : ActorType → String) (actorType : ℤ) :
    (getActorIntParam paramName actorType).run.Asks 1 :=
  asks_forActor _ fun _ =>
    asks_wrap _ (asks_bind (asks_getStringParam _) fun _ => asks_returned _)

theorem asks_getActorExists (actorType : ℤ) (address : Bytes) :
    (getActorExists actorType address).run.Asks 1 :=
  asks_forActor _ fun _ => asks_wrap _ (asks_ask _)

theorem asks_getActorStakeAmount (actorType : ℤ) (address : Bytes) :
    (getActorStakeAmount actorType address).run.Asks 1 :=
  asks_bind (asks_callForActor _ fun _ => asks_ask _) fun _ => asks_returned _

theorem asks_getActorStatus (actorType : ℤ) (address : Bytes) :
    (getActorStatus height actorType address).run.Asks 1 :=
  asks_bind (asks_callForActor _ fun _ => asks_ask _) fun _ => asks_pure _

theorem asks_getUnbondingHeight (actorType : ℤ) : (getUnbondingHeight height actorType).run.Asks 1 :=
  asks_bind (asks_getActorIntParam _ _) fun _ => asks_pure _

theorem asks_getPausedHeightIfExists (actorType : ℤ) (address : Bytes) :
    (getPausedHeightIfExists actorType address).run.Asks 1 :=
  asks_callForActor _ fun _ => asks_ask _

theorem asks_getSignerCandidates (msg : Message) :
    (getSignerCandidates P msg).run.Asks (signerCalls msg) := by
  cases msg with
  | send m => exact asks_pure _
  | stake m => exact asks_bind (asks_returned _) fun _ => asks_pure _
  | editStake m => exact asks_throw _
  | unstake m | unpause m =>
    refine asks_bind (asks_callForActor _ fun _ => ?_) fun _ => asks_pure _
    exact asks_bind (asks_ask _) fun _ => asks_returned _
  | changeParameter m =>
    refine asks_bind (asks_wrap _ ?_) fun _ => asks_pure _
    unfold getParamOwner
    split
    · exact asks_bind (asks_getStringParam _) fun _ => asks_returned _
    · exact asks_throw _

theorem asks_getFee (msg : Message) : (getFee msg).run.Asks 1 := by
  cases msg with
  | send m => exact asks_getBigIntParam _
  | stake m | editStake m | unstake m | unpause m =>
    exact asks_forActor _ fun _ => asks_getBigIntParam _
  | changeParameter m => exact asks_getBigIntParam _

theorem asks_checkBelowMaxChains (actorType : ℤ) (chains : List String) :
    (checkBelowMaxChains actorType chains).run.Asks (chainCalls actorType) := by
  unfold checkBelowMaxChains chainCalls
  split
  · exact asks_pure _
  · refine asks_bind ?_ fun _ => asks_throwIf _ _
    rw [getMaxAllowedChains, if_neg ‹_›]
    exact asks_getActorIntParam _ _

theorem asks_checkAboveMinStake (actorType : ℤ) (amountStr : String) :
    (checkAboveMinStake actorType amountStr).run.Asks 1 := by
  refine asks_bind (asks_forActor _ fun _ => ?_) fun minStake => ?_
  · exact asks_bind (asks_wrap _ (asks_getStringParam _)) fun _ => asks_returned _
  · split
    · trivial
    · split
      · exact asks_throw _
      · exact asks_pure _

/-! ## Checks first -/

/-- A write with its error in the words of the unit of work. -/
theorem writes_write {w : Update} : (wrap onError (perform w) : Uow Unit).run.Writes (n + 1) :=
  writes_wrap _ (writes_perform w)

theorem checksFirst_callForActor {w : ActorType → Update} (actorType : ℤ) :
    (callForActor actorType onError fun t => perform (w t)).run.ChecksFirst 0 0 := by
  unfold callForActor
  split
  · exact checksFirst_of_writes writes_write
  · trivial

theorem checksFirst_validateAndDeductTxFees (address : Bytes) (msg : Message) :
    (validateAndDeductTxFees address msg).run.ChecksFirst 2 1 := by
  refine checksFirst_bind (asks_getFee msg) fun fee => ?_
  refine checksFirst_bind (asks_wrap _ (asks_getAccountAmount _)) fun accountAmount => ?_
  refine checksFirst_bind (asks_throwIf _ _) fun _ => ?_
  exact checksFirst_of_writes (writes_bind writes_write fun _ => writes_write (n := 0))

theorem checksFirst_basicValidateTransaction {tx : Transaction} {msg : Message}
    (hmsg : P.fromAny tx.msg = .ok (.utility msg)) :
    (basicValidateTransaction P tx).run.ChecksFirst (2 + signerCalls msg) 1 := by
  unfold basicValidateTransaction validateTxMessage
  rw [hmsg]
  refine checksFirst_pure_bind ?_
  split
  · trivial
  split
  · trivial
  refine checksFirst_bind ?_ fun address => ?_
  · refine asks_bind (asks_getSignerCandidates msg) fun _ => ?_
    split
    · exact asks_pure _
    · exact asks_throw _
  · exact checksFirst_bind_pure (checksFirst_validateAndDeductTxFees _ _)

theorem checksFirst_handleMessageSend (m : MessageSend) :
    (handleMessageSend m).run.ChecksFirst 1 1 := by
  refine checksFirst_bind (asks_returned _) fun amount => ?_
  refine checksFirst_bind (asks_getAccountAmount _) fun fromAccountAmount => ?_
  refine checksFirst_bind (asks_throwIf _ _) fun _ => ?_
  exact checksFirst_of_writes (writes_bind writes_write fun _ => writes_write (n := 0))

theorem checksFirst_handleStakeMessage (m : MessageStake) :
    (handleStakeMessage P m).run.ChecksFirst (1 + chainCalls m.actorType + 2) 2 := by
  refine checksFirst_bind (n := 0) (asks_returned _) fun publicKey => ?_
  refine checksFirst_bind (n := 1) (asks_checkAboveMinStake _ _) fun amount => ?_
  refine checksFirst_bind (n := 1) (asks_getAccountAmount _) fun signerAccountAmount => ?_
  refine checksFirst_bind (n := 0) (asks_throwIf _ _) fun _ => ?_
  refine checksFirst_bind (asks_checkBelowMaxChains _ _) fun _ => ?_
  refine checksFirst_bind (n := 1) (asks_getActorExists _ _) fun found => ?_
  refine checksFirst_bind (n := 0) (asks_throwIf _ _) fun _ => ?_
  apply checksFirst_of_writes
  refine writes_bind (n := 2) (writes_write (n := 0)) fun _ => ?_
  refine writes_bind (n := 1) (writes_write (n := 0)) fun _ => ?_
  unfold insertActor
  split
  · exact writes_pure _
  · exact writes_write

theorem writes_updateActor (m : MessageEditStake) : (updateActor m).run.Writes 3 := by
  unfold updateActor
  split
  · exact writes_pure _
  · apply writes_wrap
    refine writes_bind (n := 2) (writes_perform (w := 0) _) fun _ => ?_
    split
    · exact writes_pure _
    · exact writes_bind (writes_perform (w := 0) _) fun _ => writes_perform (w := 0) _

theorem checksFirst_handleEditStakeMessage (m : MessageEditStake) :
    (handleEditStakeMessage m).run.ChecksFirst (chainCalls m.actorType + 3) 4 := by
  rw [← Nat.zero_add (chainCalls m.actorType)]
  refine checksFirst_bind (n := 1) (asks_wrap _ (asks_getActorExists _ _)) fun found => ?_
  refine checksFirst_bind (n := 0) (asks_throwIf _ _) fun _ => ?_
  refine checksFirst_bind (n := 1) (asks_getActorStakeAmount _ _) fun currentStakeAmount => ?_
  split
  · trivial
  refine checksFirst_bind (n := 0) (asks_throwIf _ _) fun _ => ?_
  refine checksFirst_bind (n := 1) (asks_getAccountAmount _) fun signerAccountAmount => ?_
  refine checksFirst_bind (n := 0) (asks_throwIf _ _) fun _ => ?_
  refine checksFirst_bind (asks_checkBelowMaxChains _ _) fun _ => ?_
  apply checksFirst_of_writes
  refine writes_bind (n := 4) (writes_write (n := 0)) fun _ => ?_
  exact writes_bind (writes_write (n := 0)) fun _ => writes_updateActor m

theorem checksFirst_handleUnstakeMessage (m : MessageUnstake) :
    (handleUnstakeMessage height m).run.ChecksFirst 2 0 := by
  refine checksFirst_bind (asks_wrap _ (asks_getActorStatus _ _)) fun status => ?_
  refine checksFirst_bind (asks_throwIf _ _) fun _ => ?_
  refine checksFirst_bind (asks_getUnbondingHeight _) fun unbondingHeight => ?_
  exact checksFirst_callForActor _

theorem checksFirst_handleUnpauseMessage (m : MessageUnpause) :
    (handleUnpauseMessage height m).run.ChecksFirst 2 0 := by
  refine checksFirst_bind (asks_getPausedHeightIfExists _ _) fun pausedHeight => ?_
  refine checksFirst_bind (asks_throwIf _ _) fun _ => ?_
  refine checksFirst_bind (asks_getActorIntParam _ _) fun minPauseBlocks => ?_
  refine checksFirst_bind (asks_throwIf _ _) fun _ => ?_
  exact checksFirst_callForActor _

theorem checksFirst_handleMessage (msg : Message) :
    (handleMessage P height msg).run.ChecksFirst (firstWrite msg) (laterWrites msg) := by
  cases msg with
  | send m => exact checksFirst_handleMessageSend m
  | stake m => exact checksFirst_handleStakeMessage m
  | editStake m => exact checksFirst_handleEditStakeMessage m
  | unstake m => exact checksFirst_handleUnstakeMessage m
  | unpause m => exact checksFirst_handleUnpauseMessage m
  | changeParameter m =>
    refine checksFirst_bind (asks_returned _) fun v => ?_
    unfold updateParam
    split
    · exact checksFirst_of_writes writes_write
    · exact checksFirst_of_writes writes_write
    · exact checksFirst_of_writes writes_write
    · trivial

/-- The call at one position fails. -/
def onlyFails (position i : ℕ) : Option String :=
  if i = position then some "connection lost" else none

end Pocket.Utility
