import Pocket.Analysis.ActorTables
import Pocket.Analysis.TransactionOutcome

/-!
# What transactions and blocks do to the total supply

The sum of all account and pool amounts, across one `HandleTransaction` on one context in
which no call fails.  Fees and stakes move between an account and a pool.  A send credits the
recipient and then overwrites the sender with an amount it read before, which loses the
credit when the two are the same account: exactly such sends destroy supply.

The beginning and the end of a block only move what there is.  What the proposer gets is rounded,
but the DAO gets the rest of the exact total, and every stake that is paid out leaves a pool.
-/

set_option autoImplicit false

namespace Pocket.Utility

open Model (Bytes)
open StoreProgram StoreProgram.Prog VersionedTable
open Text (hexEncode hexEncode_injective)

variable {P : Platform} {height : ℤ} {db : Database}

def Database.supply (height : ℤ) (db : Database) : ℤ :=
  db.accounts.total height + db.pools.total height

section

variable (db : Database)

theorem supply_setAccount (address : String) (amount : ℤ) :
    (db.setAccount height address amount).supply height
      = db.supply height - db.accounts.amount address height + amount := by
  simp only [Database.supply, Database.setAccount, Table.total_upsert]
  omega

theorem supply_setPool (address : String) (amount : ℤ) :
    (db.setPool height address amount).supply height
      = db.supply height - db.pools.amount address height + amount := by
  simp only [Database.supply, Database.setPool, Table.total_upsert]
  omega

/-- What leaves an account and enters a pool keeps the supply. -/
theorem supply_accountToPool (account pool : String) (amount : ℤ) :
    ((db.setAccount height account (db.accounts.amount account height - amount)).setPool height pool
      (db.pools.amount pool height + amount)).supply height = db.supply height := by
  rw [supply_setPool, supply_setAccount]
  change _ - _ + _ - db.pools.amount pool height + _ = _
  omega

theorem supply_charge (signer : Bytes) (fee : ℤ) :
    (db.charge height signer fee).supply height = db.supply height :=
  supply_accountToPool db _ _ fee

theorem supply_stake (signer : Bytes) (amount : ℤ) :
    (db.stake height signer amount).supply height = db.supply height :=
  supply_accountToPool db _ _ amount

/-- What a send leaves behind, by whether it is one to oneself. -/
theorem supply_send (sender recipient : Bytes) (amount : ℤ) :
    ((db.setAccount height (hexEncode recipient)
        (db.accounts.amount (hexEncode recipient) height + amount)).setAccount height
      (hexEncode sender) (db.accounts.amount (hexEncode sender) height - amount)).supply height
      = if recipient = sender then db.supply height - amount else db.supply height := by
  rw [supply_setAccount, supply_setAccount]
  by_cases hself : recipient = sender
  · have hread : (db.setAccount height (hexEncode recipient)
        (db.accounts.amount (hexEncode recipient) height + amount)).accounts.amount
          (hexEncode sender) height = db.accounts.amount (hexEncode sender) height + amount := by
      rw [hself]
      exact Table.amount_upsert_self _ _ _ _
    rw [if_pos hself, hread]
    omega
  · have hread : (db.setAccount height (hexEncode recipient)
        (db.accounts.amount (hexEncode recipient) height + amount)).accounts.amount
          (hexEncode sender) height = db.accounts.amount (hexEncode sender) height :=
      Table.amount_upsert_ne _ _ _ fun heq => hself (hexEncode_injective heq).symm
    rw [if_neg hself, hread]
    omega

theorem KeepsMoney.supply_eq {db' : Database} (h : KeepsMoney height db db') :
    db'.supply height = db.supply height := by
  rw [Database.supply, Database.supply, h.accounts, h.pools]

theorem supply_insertActor (t : ActorType) (address : String) (row : ActorRow)
    (chains : List String) :
    (db.insertActor height t address row chains).supply height = db.supply height := by
  rw [Database.insertActor]
  split <;> rfl

/-- The transaction is a send of `amount`, which is not zero, from an account to itself, and
the account can pay the amount and the fee. -/
structure SelfSend (P : Platform) (height : ℤ) (db : Database) (tx : Transaction)
    (m : MessageSend) (fee amount : ℤ) : Prop where
  charged : Charged P height db tx (.send m) m.fromAddress fee
  toSelf : m.toAddress = m.fromAddress
  amount_eq : stringToBigInt m.amount = .ok amount
  nonzero : amount ≠ 0
  covered : fee + amount ≤ db.accounts.amount (hexEncode m.fromAddress) height
  marshals : ∃ bz, P.marshal tx = .ok bz

theorem txToIdxTx_eq_ok {tx : Transaction} {index : ℤ} {msg : Message} {r : Except Error Unit} :
    (∃ idx, txToIdxTx P tx height index msg r = .ok idx) ↔ ∃ bz, P.marshal tx = .ok bz := by
  unfold txToIdxTx
  cases P.marshal tx with
  | error e => exact iff_of_false (fun ⟨_, h⟩ => by cases h) fun ⟨_, h⟩ => by cases h
  | ok bz => exact iff_of_true ⟨_, rfl⟩ ⟨bz, rfl⟩

/-- The payer's account after the fee. -/
theorem amount_charge (signer : Bytes) (fee : ℤ) :
    (db.charge height signer fee).accounts.amount (hexEncode signer) height
      = db.accounts.amount (hexEncode signer) height - fee :=
  Table.amount_upsert_self _ _ _ _

end

theorem wp_handleStakeMessage_supply {m : MessageStake} {total : ℤ}
    (htotal : db.supply height = total) :
    (handleStakeMessage P m).run.wp (store height) (fun _ => False)
      (fun _ db' => db'.supply height = total) db := by
  rw [wp_handleStakeMessage fun _ => htotal]
  refine fun amount _ => ⟨fun _ he => he.elim, ?_⟩
  have hstake : (db.stake height m.signer amount).supply height = total := by
    rw [supply_stake, htotal]
  rw [insertActor]
  split
  · exact wp_pure.2 hstake
  · refine wp_perform.2 ⟨fun _ he => he.elim, ?_⟩
    exact (supply_insertActor _ _ _ _ _).trans hstake

/-- **A transaction that is indexed keeps the supply, unless it is a send from an account to
itself.**  The other direction names the loss: such a send destroys its amount. -/
theorem supply_conserved_iff (P : Platform) (height : ℤ) (db : Database) (tx : Transaction)
    (index : ℤ) :
    (∀ idx db', (handleTransaction P height tx index).run.exec (store height) id (fun _ => none) db
        = some (.ok idx, db') → db'.supply height = db.supply height) ↔
      ¬ ∃ m fee amount, SelfSend P height db tx m fee amount := by
  have hwp : (∀ idx db', (handleTransaction P height tx index).run.exec (store height) id
      (fun _ => none) db = some (.ok idx, db') → db'.supply height = db.supply height) ↔
      (handleTransaction P height tx index).run.wp (store height) (fun _ => False)
        (fun r db' => ∀ idx, r = .ok idx → db'.supply height = db.supply height) db := by
    rw [wp_iff_exec_none]
    exact ⟨fun h r db' hexec idx hr => h idx db' (hr ▸ hexec),
      fun h idx db' hexec => h _ db' hexec idx rfl⟩
  rw [hwp, wp_handleTransaction fun e idx he => by cases he]
  constructor
  · rintro h ⟨m, fee, amount, hself⟩
    have hsend := (h _ _ _ hself.charged).2
    change (handleMessageSend m).run.wp _ _ _ _ at hsend
    rw [wp_handleMessageSend fun e idx _ => supply_charge db m.fromAddress fee] at hsend
    have hcovered : amount ≤ (db.charge height m.fromAddress fee).accounts.amount
        (hexEncode m.fromAddress) height := by
      rw [amount_charge]
      have := hself.covered
      omega
    obtain ⟨idx, hidx⟩ := txToIdxTx_eq_ok.2 hself.marshals
    have hkept := (hsend amount hself.amount_eq hcovered).2 idx hidx
    rw [supply_send, if_pos hself.toSelf, supply_charge] at hkept
    exact hself.nonzero (by omega)
  · intro h msg signer fee hcharged
    refine ⟨fun _ he => he.elim, ?_⟩
    have hcharge : (db.charge height signer fee).supply height = db.supply height :=
      supply_charge db signer fee
    have hkept : ∀ r db', KeepsMoney height (db.charge height signer fee) db' →
        ∀ idx, txToIdxTx P tx height index (msg.setSigner signer) r = .ok idx →
          db'.supply height = db.supply height := fun r db' hkeeps _ _ => hkeeps.supply_eq.trans hcharge
    cases msg with
    | send m =>
      obtain rfl := hcharged.signer_eq
      refine (wp_handleMessageSend fun e idx _ => hcharge).2 fun amount hamount hcovered => ?_
      refine ⟨fun _ he => he.elim, fun idx hidx => ?_⟩
      rw [supply_send, hcharge]
      split
      · next hto =>
        -- the account is its own recipient, so the amount must have been zero
        rw [amount_charge] at hcovered
        by_contra hlost
        exact h ⟨m, fee, amount, hcharged, hto, hamount, fun hzero => hlost (by omega), by omega,
          txToIdxTx_eq_ok.1 ⟨idx, hidx⟩⟩
      · rfl
    | stake m =>
      exact wp_mono (wp_handleStakeMessage_supply hcharge) fun _ _ hsupply _ _ => hsupply
    | editStake m => exact absurd hcharged not_charged_editStake
    | unstake m => exact wp_handleUnstakeMessage hkept
    | unpause m => exact wp_handleUnpauseMessage hkept
    | changeParameter m => exact wp_handleMessageChangeParameter hkept

/-! ## A send to oneself -/

/-- A send of 5 from `01` to `01` is valid, succeeds, and destroys 5. -/
theorem self_send_burns :
    let P := ownerPlatform (.send ⟨[1], [1], "5"⟩)
    ownerTx.validateBasic P = .ok () ∧
      (ownerDatabase "1").supply 1 = 150 ∧
      ((handleTransaction P 1 ownerTx 0).run.exec (store 1) id (fun _ => none)
          (ownerDatabase "1")).map (fun r => (r.1.map IndexedTransaction.resultCode, r.2.supply 1))
        = some (.ok 0, 145) := by
  decide

/-! ## The beginning and the end of a block -/

section Lifecycle

theorem succeeds_handleProposerRewards_supply (proposer : Bytes) (db : Database) :
    Succeeds (store height) id (handleProposerRewards proposer)
      (fun _ db' => db'.supply height = db.supply height) db := by
  refine succeeds_bind (succeeds_wrap (succeeds_ask fun fees hfees => ?_))
  have hfees : db.pools.amount (hexEncode Pool.feeCollector.address) height = fees :=
    Except.ok.inj hfees
  refine succeeds_bind (succeeds_write ?_)
  refine succeeds_check (checks_getIntParam _) fun percent _ => ?_
  refine succeeds_bind (succeeds_throwIf fun _ => ?_)
  refine succeeds_bind (succeeds_write ?_)
  refine succeeds_write ?_
  simp only [store, apply, supply_setPool, supply_setAccount, hfees]
  omega

/-- The stake of an actor leaves the pool of its kind and reaches its output address, whether or
not that address was paid before. -/
theorem succeeds_unbondActor_supply (t : ActorType) (actor : UnstakingActor) (db : Database) :
    Succeeds (store height) id (unbondActor t actor)
      (fun _ db' => db'.supply height = db.supply height) db := by
  refine succeeds_bind (succeeds_returned fun stake _ => ?_)
  refine succeeds_bind (succeeds_returned fun output _ => ?_)
  refine succeeds_bind (succeeds_write ?_)
  refine succeeds_write ?_
  simp only [store, apply, supply_setPool, supply_setAccount]
  omega

variable {order : List ActorType}

theorem succeeds_unbondUnstakingActors_supply {db : Database} {total : ℤ}
    (h : db.supply height = total) :
    Succeeds (store height) id (unbondUnstakingActors order)
      (fun _ db' => db'.supply height = total) db := by
  refine succeeds_forM_inv (fun t s hs => ?_) h
  refine succeeds_bind (succeeds_wrap (succeeds_ask fun ready _ => ?_))
  refine succeeds_forM_inv (fun actor s hs => ?_) hs
  exact succeeds_mono (succeeds_unbondActor_supply t actor s) fun _ _ hs' => hs'.trans hs

theorem succeeds_beginUnstakingMaxPausedActors_supply {db : Database} {total : ℤ}
    (h : db.supply height = total) :
    Succeeds (store height) id (beginUnstakingMaxPausedActors height order)
      (fun _ db' => db'.supply height = total) db := by
  refine succeeds_forM_inv (fun t s hs => ?_) h
  refine succeeds_check (checks_getActorIntParam _ _) fun maxPaused _ => ?_
  refine succeeds_check (checks_getUnbondingHeight _) fun unbonding _ => ?_
  exact succeeds_write hs

/-- **The life cycle of a block conserves the supply**, whichever order the two loops of
`endBlock` take, whoever is paid and however the proposer's cut is rounded. -/
theorem lifecycle_conserves_supply (height : ℤ) (orders : MapOrders) (proposer : Bytes)
    (fails : ℕ → Option String) (db db' : Database)
    (hdone : beginBlock.run.exec (store height) id fails db = some (.ok (), db') ∨
      (endBlock height orders proposer).run.exec (store height) id fails db = some (.ok (), db')) :
    db'.supply height = db.supply height := by
  rcases hdone with hbegin | hend
  · have hkept : Succeeds (store height) id beginBlock
        (fun _ db' => db'.supply height = db.supply height) db := by
      refine succeeds_check (checks_getIntParam _) fun _ _ => ?_
      exact succeeds_pure rfl
    exact hkept fails _ db' hbegin () rfl
  · have hkept : Succeeds (store height) id (endBlock height orders proposer)
        (fun _ db' => db'.supply height = db.supply height) db := by
      refine succeeds_bind (succeeds_mono (succeeds_handleProposerRewards_supply proposer db) ?_)
      intro _ s₁ hs₁
      refine succeeds_bind (succeeds_mono (succeeds_unbondUnstakingActors_supply hs₁) ?_)
      intro _ s₂ hs₂
      exact succeeds_beginUnstakingMaxPausedActors_supply hs₂
    exact hkept fails _ db' hend () rfl

/-- Fees of 7, and two actors that are due and have the proposer's address as their output. -/
def payingDatabase : Database :=
  let db := (blockDatabase "0").setPool 1 (hexEncode Pool.feeCollector.address) 7
  let row : ActorRow := ⟨"", "20", "", "01", -1, 2⟩
  (db.setActors .app (Table.empty.upsert "0a" 1 row)).setActors .servicer
    (Table.empty.upsert "0b" 1 row)

theorem paying_block_conserves_supply :
    ∃ db', (endBlock 2 ⟨allActors, allActors⟩ [1]).run.exec (store 2) id (fun _ => none)
        payingDatabase = some (.ok (), db') ∧
      db'.accounts.amount "01" 2 = 140 ∧ db'.supply 2 = payingDatabase.supply 2 := by
  have hok : ((endBlock 2 ⟨allActors, allActors⟩ [1]).run.exec (store 2) id (fun _ => none)
      payingDatabase).map (fun r => (r.1, r.2.accounts.amount "01" 2)) = some (.ok (), 140) := by
    rfl
  obtain ⟨⟨result, db'⟩, hexec, heq⟩ := Option.map_eq_some_iff.1 hok
  obtain ⟨rfl, hpaid⟩ := Prod.mk.inj heq
  exact ⟨db', hexec, hpaid, lifecycle_conserves_supply 2 _ [1] _ payingDatabase db' (.inr hexec)⟩

end Lifecycle

end Pocket.Utility
