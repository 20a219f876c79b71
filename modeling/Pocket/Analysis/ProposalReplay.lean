import Pocket.Analysis.NoReplay
import Pocket.Analysis.TransactionOutcome
import Pocket.Library.StorePlans

/-!
# Replaying a proposal

A leader tries the transactions of its mempool and drops those that fail; a replica executes the
ones that were left.  Both read the committed state, so each transaction does what was settled
before the block began (`StoreProgram.Prog.plan`), and one that fails has written nothing: the only
writes before the end of `handleTransaction` are the two of the fee, and after them nothing
returns an error.  So the replica's loop over the proposal does what the leader's loop over the
mempool did (`process_of_reapMempool`).

At the end of the block the two loops over the kinds of actors may visit them in different orders.
They then perform the same updates in different orders (`endBlock_of_orders`): payments, which
leave the rows of accounts and pools the same but for their order, and updates of tables that have
nothing to do with each other.
-/

set_option autoImplicit false

namespace Pocket.Utility

open Model (Bytes)
open StoreProgram StoreProgram.Prog VersionedTable
open Text (hexEncode hexDecode)

/-- The calls of a block in which no persistence call fails. -/
def unfailingCalls (orders : MapOrders) (stateHash : Option String) : BlockCalls where
  orders := orders
  beginFails := fun _ => none
  txFails := fun _ _ => none
  indexFails := fun _ => false
  endFails := fun _ => none
  stateHash := stateHash

variable {X : Host} {height : ℤ} {committed : Database} {orders orders' : MapOrders}
  {stateHash stateHash' : Option String} {bz proposer : Bytes} {α : Type} {calls : BlockCalls}
  {P : Platform} {key : String} {ws : List Update}

/-! ## A transaction that fails -/

theorem atomic_validateAndDeductTxFees (address : Bytes) (msg : Message) :
    Atomic (store height) committed (validateAndDeductTxFees address msg) := by
  refine atomic_bind_check (checks_getFee _) fun fee => ?_
  refine atomic_bind_check (checks_wrap _ (checks_getAccountAmount _)) fun amount => ?_
  refine atomic_bind_check (checks_throwIf _ _) fun _ => ?_
  exact ((infallible_perform _ _).bind fun _ => infallible_perform _ _).atomic

theorem atomic_basicValidateTransaction (tx : Transaction) :
    Atomic (store height) committed (basicValidateTransaction P tx) := by
  refine atomic_bind_check (checks_validateTxMessage tx) fun msg => ?_
  split
  · exact atomic_of_checks checks_crash
  · split
    · exact atomic_of_checks checks_crash
    · refine atomic_bind_check (checks_validateTxSignature _ _) fun address => ?_
      exact (atomic_validateAndDeductTxFees _ _).bind fun _ => infallible_pure _

/-- A transaction that can be marshalled fails before its first write, or not at all. -/
theorem atomic_handleTransaction {tx : Transaction} (hmarshal : P.marshal tx = .ok bz) (index : ℤ) :
    Atomic (store height) committed (handleTransaction P height tx index) := by
  refine (atomic_basicValidateTransaction tx).bind fun msg => ?_
  refine (infallible_attempt _).bind fun result => infallible_returned fun e h => ?_
  unfold txToIdxTx at h
  rw [hmarshal] at h
  cases h

/-! ## The loop over the transactions -/

/-- Where no call fails, the program applies the updates of its plan. -/
theorem runUow_unfailing (p : Uow α) (s : BlockState) :
    runUow height committed p (fun _ => none) s
      = (p.run.plan (store height) committed).map fun r =>
        (r.1.mapError Error.error, { s with db := r.2.foldl (apply height) s.db }) := by
  rw [runUow, exec_eq_plan, Option.map_map]
  rfl

/-- Where no call fails, a transaction applies the updates of its plan. -/
theorem executeTx_unfailing (tx : Transaction) (i index : ℕ) (s : BlockState) :
    executeTx X height committed (unfailingCalls orders stateHash) i index tx s
      = Outcome.andThen (((handleTransaction X.toPlatform height tx index).run.plan (store height)
          committed).map fun r =>
            (r.1.mapError Error.error, { s with db := r.2.foldl (apply height) s.db }))
        fun idxTx s => some (.ok idxTx, { s with executed := s.executed ++ [tx] }) := by
  rw [executeTx, unfailingCalls, runUow_unfailing]

/-- All but the mempool is the same. -/
structure SameWork (s s' : BlockState) : Prop where
  db : s'.db = s.db
  executed : s'.executed = s.executed
  index : s'.index = s.index

theorem SameWork.with_mempool {s s' : BlockState} (h : SameWork s s') (mempool : TxMempool) :
    SameWork { s with mempool } s' :=
  ⟨h.db, h.executed, h.index⟩

/-- Every transaction of the mempool passes the basic checks. -/
def ValidMempool (X : Host) (mempool : TxMempool) : Prop :=
  ∀ bz ∈ mempool.queue, ∀ tx, X.unmarshal bz = .ok tx → tx.validateBasic X.toPlatform = .ok ()

/-- What a mempool of valid transactions gives out is valid. -/
theorem ValidMempool.pop {mempool mempool' : TxMempool} (h : ValidMempool X mempool)
    (hpop : mempool.pop X.mempoolOptions = some (bz, mempool')) :
    (∀ tx, X.unmarshal bz = .ok tx → tx.validateBasic X.toPlatform = .ok ()) ∧
      ValidMempool X mempool' := by
  rw [ValidMempool, pop_eq_some hpop, List.forall_mem_cons] at h
  exact h

/-- A transaction that the leader keeps, as the replica executes it. -/
theorem processTx_of_plan {tx : Transaction} {i : ℕ} {idxTx : IndexedTransaction} {bz' : Bytes}
    (htx : X.unmarshal bz = .ok tx) (hvalid : tx.validateBasic X.toPlatform = .ok ())
    (hmarshal : X.marshal tx = .ok bz')
    (hplan : (handleTransaction X.toPlatform height tx i).run.plan (store height) committed
      = some (.ok idxTx, ws)) (s : BlockState) :
    ∃ mempool, processTx X height committed (unfailingCalls orders stateHash) i bz s
      = some (.ok (), {
          db := ws.foldl (apply height) s.db
          executed := s.executed ++ [tx]
          mempool := mempool
          index := s.index.index X idxTx }) := by
  rw [processTx, htx]
  simp only [hvalid, executeTx_unfailing, hplan, Option.map_some, mapError_ok, Outcome.andThen,
    Option.bind_some, hash_of_marshal hmarshal]
  exact ⟨_, rfl⟩

/-- The transactions by which `txs'` goes on after `txs` take the replica from `r` to the work of
`s'`. -/
def Replays (X : Host) (height : ℤ) (committed : Database) (calls : BlockCalls)
    (txs txs' : List Bytes) (r s' : BlockState) : Prop :=
  ∃ more r', txs' = txs ++ more ∧ SameWork s' r' ∧
    processProposalBlockTransactions X height committed calls txs.length more r = some (.ok (), r')

theorem Replays.done {s' r : BlockState} (h : SameWork s' r) (txs : List Bytes) :
    Replays X height committed calls txs txs r s' :=
  ⟨[], r, (List.append_nil txs).symm, h, rfl⟩

/-- A replay goes on with the rest once its next transaction is through. -/
theorem Replays.cons {txs txs' : List Bytes} {r r₁ s' : BlockState}
    (hfirst : processTx X height committed calls txs.length bz r = some (.ok (), r₁))
    (h : Replays X height committed calls (txs ++ [bz]) txs' r₁ s') :
    Replays X height committed calls txs txs' r s' := by
  obtain ⟨more, r', rfl, hsame, hrest⟩ := h
  rw [List.length_append] at hrest
  refine ⟨bz :: more, r', by rw [List.append_assoc]; rfl, hsame, ?_⟩
  rw [processProposalBlockTransactions, hfirst]
  exact hrest

/-- **The proposal does what the mempool did**: the transactions that the leader keeps take the
replica from any state with the same work to one with the same work. -/
theorem replays_of_reapMempool
    (hmarshal : ∀ bz tx, X.unmarshal bz = .ok tx → ∃ bz', X.marshal tx = .ok bz')
    {maxTxBytes total : UInt64} {rounds i : ℕ} {txs txs' : List Bytes} {s s' r : BlockState}
    (hvalid : ValidMempool X s.mempool) (hsame : SameWork s r)
    (h : reapMempool X height committed (unfailingCalls orders stateHash) maxTxBytes rounds i txs total s
      = some (.ok txs', s')) :
    Replays X height committed (unfailingCalls orders' stateHash') txs txs' r s' := by
  induction rounds generalizing i txs total s r with
  | zero =>
    cases h
    exact .done hsame _
  | succ rounds ih =>
    rw [reapMempool] at h
    cases hpop : s.mempool.pop X.mempoolOptions with
    | none =>
      rw [hpop] at h
      cases h
      exact .done hsame _
    | some popped =>
      obtain ⟨bz, mempool⟩ := popped
      obtain ⟨hvalidTx, hvalidRest⟩ := hvalid.pop hpop
      simp only [hpop] at h
      cases htx : X.unmarshal bz with
      | error err =>
        rw [htx] at h
        cases h
      | ok tx =>
        obtain ⟨bz', hbz'⟩ := hmarshal bz tx htx
        simp only [htx] at h
        split at h
        · -- the block is full
          split at h
          · cases h
          · cases h
            exact .done (hsame.with_mempool _) _
        · cases hplan : (handleTransaction X.toPlatform height tx txs.length).run.plan
            (store height) committed with
          | none =>
            rw [executeTx_unfailing, hplan] at h
            cases h
          | some planned =>
            obtain ⟨result, ws⟩ := planned
            cases result with
            | error e =>
              -- a transaction that is dropped has written nothing
              rw [atomic_handleTransaction hbz' _ e ws hplan] at hplan
              rw [executeTx_unfailing, hplan] at h
              exact ih hvalidRest (hsame.with_mempool mempool) h
            | ok idxTx =>
              rw [executeTx_unfailing, hplan] at h
              obtain ⟨mempool', hfirst⟩ := @processTx_of_plan X height committed orders' stateHash'
                _ _ _ _ _ _ htx (hvalidTx tx htx) hbz' hplan r
              refine .cons hfirst (ih hvalidRest ⟨?_, ?_, ?_⟩ h)
              · rw [hsame.db]
              · rw [hsame.executed]
              · rw [hsame.index]

/-! ## The end of the block -/

/-- What the unbonding of an actor performs: a stake leaves a pool, or reaches an account. -/
inductive Payout : Update → Prop
  | fromPool (address : Bytes) (amount : ℤ) : Payout (.subPool (hexEncode address) amount)
  | toAccount (address : Bytes) (amount : ℤ) : Payout (.addAccount (hexEncode address) amount)

/-- The payments to accounts among the updates. -/
def accountsPaid (ws : List Update) : List (String × ℤ) :=
  ws.filterMap fun
    | .addAccount address amount => some (address, amount)
    | _ => none

/-- The payments to pools among the updates. -/
def poolsPaid (ws : List Update) : List (String × ℤ) :=
  ws.filterMap fun
    | .subPool address amount => some (address, -amount)
    | _ => none

/-- Payouts change balances and nothing else. -/
theorem foldl_payouts (hws : ∀ w ∈ ws, Payout w) (db : Database) :
    ws.foldl (apply height) db = { db with
      accounts := db.accounts.addAll height (accountsPaid ws)
      pools := db.pools.addAll height (poolsPaid ws) } := by
  induction ws generalizing db with
  | nil => rfl
  | cons w ws ih =>
    rw [List.forall_mem_cons] at hws
    rw [List.foldl_cons, ih hws.2]
    cases hws.1 with
    | fromPool address amount =>
      simp only [apply, sub_eq_add_neg]
      rfl
    | toAccount address amount => rfl

/-- The kinds of actors one after the other, each with the actors that are ready. -/
theorem every_unbond (t : ActorType) :
    ((do
      let readyToUnbond ← wrap errGetReadyToUnstake (ask (Query.readyToUnstake t))
      readyToUnbond.forM (unbondActor t)) : Uow PUnit).run.Every Payout fun _ => True := by
  refine meets_then (by simp) fun ready => meets_forM fun actor _ => ?_
  simp [unbondActor, subPoolAmount, addAccountAmount, Payout.fromPool, Payout.toAccount]

/-- What the pausing of a kind of actors performs: an update of the table of that kind. -/
def PausesOnly (t : ActorType) (w : Update) : Prop :=
  ∃ pausedBeforeHeight unstakingHeight, w = .unstakePausedBefore t pausedBeforeHeight unstakingHeight

/-- One round of the loop over the actor types writes to actors of its own type only. -/
theorem every_pause (t : ActorType) :
    ((do
      let maxPausedBlocks ← getMaxAllowedPausedBlocks t.toInt
      let maxPauseHeight := max 0 (Model.int64 (height - maxPausedBlocks))
      beginUnstakingActorsPausedBefore height maxPauseHeight t) : Uow PUnit).run.Every (PausesOnly t)
        fun _ => True := by
  simp [getMaxAllowedPausedBlocks, beginUnstakingActorsPausedBefore, getUnbondingHeight,
    getActorIntParam, getIntParam, getStringParam, PausesOnly]

/-- The pausing leaves accounts and pools alone, and does not look at them. -/
theorem foldl_pauses_frame (hws : ∀ w ∈ ws, ∃ t, PausesOnly t w) (db : Database)
    (accounts pools : Table String ℤ ℤ) :
    ws.foldl (apply height) { db with accounts, pools }
      = { ws.foldl (apply height) db with accounts, pools } := by
  induction ws generalizing db with
  | nil => rfl
  | cons w ws ih =>
    rw [List.forall_mem_cons] at hws
    obtain ⟨t, pausedBeforeHeight, unstakingHeight, rfl⟩ := hws.1
    exact ih hws.2 (apply height db (.unstakePausedBefore t pausedBeforeHeight unstakingHeight))

/-- Rounds for different actor types commute. -/
theorem apply_pauses_comm {t t' : ActorType} (hne : t ≠ t') {w w' : Update} (hw : PausesOnly t w)
    (hw' : PausesOnly t' w') (db : Database) :
    apply height (apply height db w) w' = apply height (apply height db w') w := by
  obtain ⟨pausedBeforeHeight, unstakingHeight, rfl⟩ := hw
  obtain ⟨pausedBeforeHeight', unstakingHeight', rfl⟩ := hw'
  simp only [apply, Database.unstakePausedBefore, Database.setActors, Function.update_of_ne hne,
    Function.update_of_ne hne.symm, Function.update_comm hne]

/-- The same rows in every table, those of accounts and pools perhaps in another order. -/
structure SameRows (db db' : Database) : Prop where
  accounts : db.accounts.rows.Perm db'.accounts.rows
  pools : db.pools.rows.Perm db'.pools.rows
  params : db'.params = db.params
  actors : db'.actors = db.actors
  chains : db'.chains = db.chains

/-- Rows of accounts and pools that are in another order were written last, under the text of an
address. -/
structure Reordered (db db' : Database) : Prop where
  accounts : db.accounts.Reordered (∃ address, · = hexEncode address) db'.accounts
  pools : db.pools.Reordered (∃ address, · = hexEncode address) db'.pools
  params : db'.params = db.params
  actors : db'.actors = db.actors
  chains : db'.chains = db.chains

theorem Reordered.sameRows {db db' : Database} (h : Reordered db db') : SameRows db db' :=
  ⟨h.accounts.rows_perm, h.pools.rows_perm, h.params, h.actors, h.chains⟩

theorem hex_of_accountsPaid (hws : ∀ w ∈ ws, Payout w) (h : key ∈ (accountsPaid ws).map Prod.fst) :
    ∃ address, key = hexEncode address := by
  obtain ⟨⟨_, amount⟩, hpaid, rfl⟩ := List.mem_map.1 h
  obtain ⟨w, hw, hsome⟩ := List.mem_filterMap.1 hpaid
  cases hws w hw with
  | fromPool address _ => cases hsome
  | toAccount address _ =>
    cases hsome
    exact ⟨address, rfl⟩

theorem hex_of_poolsPaid (hws : ∀ w ∈ ws, Payout w) (h : key ∈ (poolsPaid ws).map Prod.fst) :
    ∃ address, key = hexEncode address := by
  obtain ⟨⟨_, amount⟩, hpaid, rfl⟩ := List.mem_map.1 h
  obtain ⟨w, hw, hsome⟩ := List.mem_filterMap.1 hpaid
  cases hws w hw with
  | fromPool address _ =>
    cases hsome
    exact ⟨address, rfl⟩
  | toAccount address _ => cases hsome

/-- Unbonding the actors whose time is over makes payouts only. -/
theorem payout_of_plan {order : List ActorType}
    (h : (unbondUnstakingActors order).run.plan (store height) committed = some (.ok (), ws)) :
    ∀ w ∈ ws, Payout w :=
  mem_plan_of_every (meets_forM fun t _ => every_unbond t) h

section

variable (hunbonding : orders.unbonding.Perm orders'.unbonding)
  (hpausing : orders.pausing.Perm orders'.pausing)
  (h : (endBlock height orders proposer).run.plan (store height) committed = some (.ok (), ws))
include hunbonding hpausing h

/-- The two loops over the kinds in two orders: the payouts are a permutation, and the pausing has
the same effect. -/
theorem endBlock_of_orders :
    ∃ rewards payouts payouts' pauses pauses', ws = rewards ++ (payouts ++ pauses) ∧
      (endBlock height orders' proposer).run.plan (store height) committed
        = some (.ok (), rewards ++ (payouts' ++ pauses')) ∧
      (∀ w ∈ payouts, Payout w) ∧ payouts.Perm payouts' ∧
      (∀ w ∈ pauses, ∃ t, PausesOnly t w) ∧ (∀ w ∈ pauses', ∃ t, PausesOnly t w) ∧
      ∀ db, pauses.foldl (apply height) db = pauses'.foldl (apply height) db := by
  obtain ⟨_, rewards, rest, hrewards, hrest, rfl⟩ := plan_bind_eq_ok.1 h
  obtain ⟨_, payouts, pauses, hpayouts, hpauses, rfl⟩ := plan_bind_eq_ok.1 hrest
  have hpayouts' := plan_forM_perm hunbonding hpayouts
  have hpauses' := plan_forM_perm hpausing hpauses
  have hpaused : ∀ {order : List ActorType} {ws : List Update},
      (beginUnstakingMaxPausedActors height order).run.plan (store height) committed
        = some (.ok (), ws) → ∀ w ∈ ws, ∃ t, PausesOnly t w :=
    fun hplan => mem_plan_of_every (meets_forM fun t _ => every_mono_updates (every_pause t)
      fun w hw => ⟨t, hw⟩) hplan
  refine ⟨rewards, payouts, _, pauses, _, rfl, plan_bind_eq_ok.2 ⟨(), rewards, _, hrewards,
    plan_bind_eq_ok.2 ⟨(), _, _, hpayouts', hpauses', rfl⟩, rfl⟩, payout_of_plan hpayouts, ?_,
    hpaused hpauses, hpaused hpauses', fun db => ?_⟩
  · rw [(plan_forM_eq_ok.1 hpayouts).2]
    exact hunbonding.flatMap_right _
  · obtain ⟨hall, hws⟩ := plan_forM_eq_ok.1 hpauses
    rw [hws]
    refine foldl_flatMap_perm hpausing (fun t ht t' ht' hne u hu v hv db => ?_) db
    obtain ⟨us, hus⟩ := hall t ht
    obtain ⟨vs, hvs⟩ := hall t' ht'
    rw [planned_eq hus] at hu
    rw [planned_eq hvs] at hv
    exact apply_pauses_comm hne (mem_plan_of_every (every_pause t) hus u hu)
      (mem_plan_of_every (every_pause t') hvs v hv) db

/-- **Another order of the kinds of actors** at the end of a block leaves the same rows. -/
theorem reordered_endBlock :
    ∃ ws', (endBlock height orders' proposer).run.plan (store height) committed = some (.ok (), ws') ∧
      ∀ db, Reordered (ws.foldl (apply height) db) (ws'.foldl (apply height) db) := by
  obtain ⟨rewards, payouts, payouts', pauses, pauses', rfl, hplan', hpaid, hperm, hpauses, hpauses',
    hsame⟩ := endBlock_of_orders hunbonding hpausing h
  refine ⟨_, hplan', fun db => ?_⟩
  have hpaid' : ∀ w ∈ payouts', Payout w := fun w hw => hpaid w (hperm.mem_iff.2 hw)
  rw [List.foldl_append, List.foldl_append, List.foldl_append, List.foldl_append,
    foldl_payouts hpaid, foldl_payouts hpaid', foldl_pauses_frame hpauses,
    foldl_pauses_frame hpauses', hsame]
  have haccounts := Table.reordered_addAll (rewards.foldl (apply height) db).accounts height
    (hperm.filterMap _ : (accountsPaid payouts).Perm (accountsPaid payouts'))
  have hpools := Table.reordered_addAll (rewards.foldl (apply height) db).pools height
    (hperm.filterMap _ : (poolsPaid payouts).Perm (poolsPaid payouts'))
  exact ⟨haccounts.mono fun _ => hex_of_accountsPaid hpaid, hpools.mono fun _ => hex_of_poolsPaid hpaid,
    rfl, rfl, rfl⟩

end

/-! ## The whole block -/

/-- Each loop visits every kind of actors once. -/
structure MapOrders.Complete (orders : MapOrders) : Prop where
  unbonding : orders.unbonding.Perm allActors
  pausing : orders.pausing.Perm allActors

theorem andThen_eq_ok {β : Type} {o : Outcome α} {f : α → BlockState → Outcome β} {b : β}
    {s' : BlockState} :
    o.andThen f = some (.ok b, s') ↔
      ∃ a s₁, o = some (.ok a, s₁) ∧ f a s₁ = some (.ok b, s') := by
  rw [Outcome.andThen, Option.bind_eq_some_iff]
  constructor
  · rintro ⟨⟨result, s₁⟩, ho, hf⟩
    cases result with
    | error err => cases hf
    | ok a => exact ⟨a, s₁, ho, hf⟩
  · rintro ⟨a, s₁, ho, hf⟩
    exact ⟨(.ok a, s₁), ho, hf⟩

/-- A function that reads the committed state does the same in any two states with the same work. -/
theorem runUow_of_sameWork {p : Uow α} {a : α} {s s' r : BlockState} (h : SameWork s r)
    (hrun : runUow height committed p (fun _ => none) s = some (.ok a, s')) :
    ∃ r', runUow height committed p (fun _ => none) r = some (.ok a, r') ∧ SameWork s' r' := by
  rw [runUow_unfailing] at hrun
  obtain ⟨⟨result, ws⟩, hplan, heq⟩ := Option.map_eq_some_iff.1 hrun
  rw [runUow_unfailing, hplan]
  cases result with
  | error e => cases congrArg Prod.fst heq
  | ok b =>
    cases heq
    refine ⟨_, rfl, ⟨?_, h.executed, h.index⟩⟩
    rw [h.db]

/-- **A replica that applies the leader's block** comes to the rows and the index of the leader, if
its state hash is the leader's. -/
theorem exists_applyBlock_of_createProposalBlock
    (hmarshal : ∀ bz tx, X.unmarshal bz = .ok tx → ∃ bz', X.marshal tx = .ok bz')
    (horders : orders.Complete) (horders' : orders'.Complete) {maxTxBytes : UInt64}
    {s₀ r₀ leader : BlockState} {hash : String} {txs : List Bytes}
    (hvalid : ValidMempool X s₀.mempool) (hsame : SameWork s₀ r₀)
    (h : createProposalBlock X height committed (unfailingCalls orders stateHash) proposer maxTxBytes
      s₀ = some (.ok (hash, txs), leader)) :
    stateHash = some hash ∧
    ∃ replica, Reordered leader.db replica.db ∧ replica.executed = leader.executed ∧
      replica.index = leader.index ∧
      (hash ≠ "" → proposer ≠ [] → applyBlock X height committed
        (unfailingCalls orders' (some hash)) ⟨hash, proposer, txs⟩ r₀ = some (.ok (), replica)) := by
  obtain ⟨_, s₁, hbegin, h⟩ := andThen_eq_ok.1 h
  obtain ⟨txs', s₂, hreap, h⟩ := andThen_eq_ok.1 h
  obtain ⟨_, s₃, hend, h⟩ := andThen_eq_ok.1 h
  obtain ⟨hash', hhash, heq⟩ := Option.map_eq_some_iff.1 h
  cases heq
  refine ⟨hhash, ?_⟩
  obtain ⟨r₁, hbegin', hsame₁⟩ := runUow_of_sameWork hsame hbegin
  have hmempool : s₁.mempool = s₀.mempool := by rw [runUow_eq hbegin]
  obtain ⟨more, r₂, rfl, hsame₂, hprocess⟩ := @replays_of_reapMempool X height committed orders orders'
    stateHash (some hash) hmarshal _ _ _ _ _ _ _ _ _ (hmempool ▸ hvalid) hsame₁ hreap
  -- the end of the block, in the replica's orders
  rw [unfailingCalls, runUow_unfailing] at hend
  obtain ⟨⟨result, ws⟩, hplan, heq⟩ := Option.map_eq_some_iff.1 hend
  cases result with
  | error e => cases congrArg Prod.fst heq
  | ok u =>
    cases heq
    obtain ⟨ws', hplan', hrows⟩ := reordered_endBlock
      (horders.unbonding.trans horders'.unbonding.symm)
      (horders.pausing.trans horders'.pausing.symm) hplan
    have hend' : runUow height committed (endBlock height orders' proposer) (fun _ => none) r₂
        = some (.ok (), { r₂ with db := ws'.foldl (apply height) r₂.db }) := by
      rw [runUow_unfailing, hplan']
      rfl
    refine ⟨{ r₂ with db := ws'.foldl (apply height) r₂.db }, ?_, hsame₂.executed, hsame₂.index,
      fun hset hproposer => ?_⟩
    · rw [hsame₂.db]
      exact hrows s₂.db
    · have hmissing : ¬ (hash = "" ∨ proposer = []) := fun h => h.elim hset hproposer
      rw [applyBlock, if_neg hmissing]
      refine andThen_eq_ok.2 ⟨(), r₁, hbegin', andThen_eq_ok.2 ⟨(), r₂, hprocess,
        andThen_eq_ok.2 ⟨(), _, hend', ?_⟩⟩⟩
      have hmatch : ¬ (hash ≠ ignoreProposalBlockCheckHash ∧ hash ≠ hash) := fun h => h.2 rfl
      exact if_neg hmatch

end Pocket.Utility
