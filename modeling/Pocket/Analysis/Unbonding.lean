import Pocket.Analysis.ActorWrites
import Pocket.Analysis.StakePools

/-!
# Whether unbonding happens once and on time

An actor that unstakes gets an unstaking height, and the end of the block at that height pays its
stake out.  Transactions cannot change the height once it is set: a stake needs an actor that is
not there, and a message to unstake needs an actor without the height.  What can change it is the
rule for actors that have been paused for too long, which the end of every block applies to all of
them, also to those that have an unstaking height.

* `pending_of_done` follows an actor with an unstaking height through a block, and `unset_of_done`
  one without.
* `endBlock_paysOut` says which updates the end of a block consists of.
* `unbonds_once_on_time` puts these together along a run of blocks, as long as the rule for paused
  actors does not select the actor again.
-/

set_option autoImplicit false

namespace Pocket.Utility

open Model (Bytes int64)
open StoreProgram StoreProgram.Prog VersionedTable
open Text (hexEncode hexDecode)

variable {P : Platform} {height : ℤ} {i : ℕ} {row : ActorRow}

/-! ## Executed blocks -/

/-- A block with all that its execution depends on: the calls that fail, the orders of the loops,
and whether reads go to a context of their own. -/
structure BlockExecution where
  beginFails : ℕ → Option String
  txs : List (Transaction × (ℕ → Option String))
  endFails : ℕ → Option String
  orders : MapOrders
  proposer : Bytes
  separateReads : Bool

namespace BlockExecution

/-- What the reads of a block on top of `db` see. -/
def view (b : BlockExecution) (db : Database) : Database → Database :=
  if b.separateReads then fun _ => db else id

/-- The steps before the end of the block. -/
def opening (b : BlockExecution) : List (BlockStep × (ℕ → Option String)) :=
  (.beginBlock, b.beginFails) :: b.txs.mapIdx fun i tx => (.transaction tx.1 i, tx.2)

/-- The state after some of the steps before the end of the block. -/
def Reaches (P : Platform) (height : ℤ) (b : BlockExecution) (db s : Database) : Prop :=
  ∃ steps r, steps <+: b.opening ∧
    Runs.run (stepBlock P height (b.view db)) (some ⟨db, []⟩) steps = some r ∧ r.db = s

/-- The block takes `db` to `db'`, and its end starts at `mid`. -/
structure Done (P : Platform) (height : ℤ) (b : BlockExecution) (db mid db' : Database) : Prop where
  opened : ∃ r, Runs.run (stepBlock P height (b.view db)) (some ⟨db, []⟩) b.opening = some r ∧
    r.db = mid
  closed : (endBlock height b.orders b.proposer).run.exec (store height) (b.view db) b.endFails mid
    = some (.ok (), db')
  order : b.orders.unbonding.Perm allActors

/-- Reads see the states themselves, or the one before the block. -/
theorem view_rel {R : Database → Database → Prop} (b : BlockExecution) {db s s' : Database}
    (hdb : R db db) (hs : R s s') : R (b.view db s) (b.view db s') := by
  rw [view]
  split
  · exact hdb
  · exact hs

theorem view_cases {inv : Database → Prop} (b : BlockExecution) {db s : Database} (hdb : inv db)
    (hs : inv s) : inv (b.view db s) :=
  @view_rel (fun s _ => inv s) b db s s hdb hs

theorem tableView (b : BlockExecution) (db : Database) : TableView (b.view db) :=
  fun _ _ hs => b.view_rel (.refl db) hs

theorem params_view (b : BlockExecution) (db : Database) {s s' : Database}
    (hs : s'.params = s.params) : (b.view db s').params = (b.view db s).params :=
  @view_rel (fun s s' => s'.params = s.params) b db s s' rfl hs

theorem Done.reaches {b : BlockExecution} {db mid db' : Database} (h : b.Done P height db mid db') :
    b.Reaches P height db mid := by
  obtain ⟨r, hrun, hmid⟩ := h.opened
  exact ⟨b.opening, r, List.prefix_rfl, hrun, hmid⟩

theorem actorWrite_of_stepBlock {b : BlockExecution} {db : Database} {r r' : BlockRun}
    {step : BlockStep × (ℕ → Option String)} (hmem : step ∈ b.opening)
    (h : stepBlock P height (b.view db) (some r) step = some r') :
    ActorWrite height (b.view db r.db) r.db r'.db := by
  have hkeeps : Keeps (store height) (b.view db) (step.1.program P height)
      (ActorWrite height (b.view db r.db) r.db) r.db := by
    rcases List.mem_cons.1 hmem with rfl | htx
    · refine keeps_of_checks ?_ (.kept rfl)
      exact checks_bind (checks_bind (checks_getIntParam _) fun _ => checks_pure _)
        fun _ => checks_pure _
    · obtain ⟨i, hi, rfl⟩ := List.mem_mapIdx.1 htx
      have hhandled : Ends (store height) (b.view db) (handleTransaction P height b.txs[i].1 i).run
          (fun r' s' => ActorWrite height (b.view db r.db) r.db s' ∧ ∀ idx, r' = .ok idx → True)
          r.db :=
        ends_mono (ends_handleTransaction_actors (b.tableView db) _ _)
          fun _ _ hs => ⟨hs, fun _ _ => trivial⟩
      exact keeps_bind hhandled fun idx s' _ hs' => keeps_of_checks (checks_pure _) hs'
  obtain ⟨⟨result, s'⟩, hexec, rfl⟩ := Option.map_eq_some_iff.1 h
  exact hkeeps _ _ _ hexec

/-- What holds before the block and is kept by all that a transaction does to actors holds in every
state before the end of the block. -/
theorem invariant_of_reaches {b : BlockExecution} {db : Database} {inv : Database → Prop}
    (hdb : inv db) (hwrite : ∀ s s', b.Reaches P height db s → inv s →
      ActorWrite height (b.view db s) s s' → inv s')
    {s : Database} (hs : b.Reaches P height db s) : inv s := by
  obtain ⟨steps, r, hprefix, hrun, rfl⟩ := hs
  induction steps using List.reverseRecOn generalizing r with
  | nil =>
    cases hrun
    exact hdb
  | append_singleton steps step ih =>
    rw [Runs.run, List.foldl_append] at hrun
    have hprefix' : steps <+: b.opening := (List.prefix_append _ _).trans hprefix
    have hmem : step ∈ b.opening := hprefix.subset (by simp)
    cases hbefore : Runs.run (stepBlock P height (b.view db)) (some ⟨db, []⟩) steps with
    | none =>
      rw [Runs.run] at hbefore
      rw [hbefore] at hrun
      cases hrun
    | some r₀ =>
      have hinv := ih r₀ hprefix' hbefore
      rw [Runs.run] at hbefore
      rw [hbefore] at hrun
      exact hwrite _ _ ⟨steps, r₀, hprefix', hbefore, rfl⟩ hinv (actorWrite_of_stepBlock hmem hrun)

end BlockExecution

/-! ## An actor through the transactions -/

section OneActor

variable {t : ActorType} {address : String} {row₀ : ActorRow} {s s' seen : Database}

theorem ActorWrite.current (hwrite : ActorWrite height seen s s') (h : s.ActorsUpTo height) :
    s'.ActorsUpTo height := by
  intro t
  cases hwrite with
  | kept hs =>
    rw [hs]
    exact h t
  | staked t' address' row' chains _ _ hs =>
    rw [hs]
    exact actorsUpTo_insertActor h row' chains t
  | unstaked t' address' row' value n _ _ _ _ hs | unpaused t' address' hs =>
    rw [hs]
    exact actorsUpTo_updateRow h _ t

/-- The actor has a row with the unstaking height, the stake and the output address of `row₀`. -/
def Pending (height : ℤ) (t : ActorType) (address : String) (row₀ : ActorRow) (s : Database) : Prop :=
  ∃ row, (s.actors t).lookup address height = some row ∧
    row.unstakingHeight = row₀.unstakingHeight ∧ row.stakedTokens = row₀.stakedTokens ∧
      row.outputAddress = row₀.outputAddress

/-- The actor has no unstaking height, or one to come. -/
def Unset (height : ℤ) (t : ActorType) (address : String) (s : Database) : Prop :=
  ∀ row, (s.actors t).lookup address height = some row →
    row.unstakingHeight = -1 ∨ height < row.unstakingHeight

/-- An update of one actor by a change that keeps the three columns. -/
theorem Pending.updateRow (h : Pending height t address row₀ s) {t' : ActorType} {address' : String}
    {change : ActorRow → ActorRow}
    (hchange : t = t' ∧ address = address' → ∀ row,
      (change row).unstakingHeight = row.unstakingHeight ∧
        (change row).stakedTokens = row.stakedTokens ∧
          (change row).outputAddress = row.outputAddress) :
    Pending height t address row₀ (s.updateRow height t' address' change) := by
  obtain ⟨row, hrow, hu, hstake, houtput⟩ := h
  rw [Pending, lookup_updateRow]
  split
  · next hkey =>
    obtain ⟨hu', hstake', houtput'⟩ := hchange hkey row
    rw [← hkey.1, ← hkey.2, hrow]
    exact ⟨change row, rfl, hu'.trans hu, hstake'.trans hstake, houtput'.trans houtput⟩
  · exact ⟨row, hrow, hu, hstake, houtput⟩

/-- No transaction changes an unstaking height that its reads see. -/
theorem Pending.actorWrite (h : Pending height t address row₀ s)
    (hseen : Pending height t address row₀ seen) (hset : row₀.unstakingHeight ≠ -1)
    (hwrite : ActorWrite height seen s s') : Pending height t address row₀ s' := by
  obtain ⟨row, hrow, hu, -, -⟩ := hseen
  cases hwrite with
  | kept hs =>
    rw [Pending, hs]
    exact h
  | staked t' address' row' chains hnew _ hs =>
    have hother : ¬ (t = t' ∧ address = address') := by
      rintro ⟨rfl, rfl⟩
      rw [hnew] at hrow
      cases hrow
    have hsame : ((s.insertActor height t' address' row' chains).actors t).lookup address height
        = (s.actors t).lookup address height := by
      rw [actors_insertActor]
      exact (lookup_setActors_upsert _).trans (if_neg hother)
    rw [Pending, hs, hsame]
    exact h
  | unstaked t' address' row' value n hrow' hunset _ _ hs =>
    rw [Pending, hs]
    refine h.updateRow fun hkey => ?_
    rw [← hkey.1, ← hkey.2, hrow] at hrow'
    rw [← Option.some.inj hrow', hu] at hunset
    exact absurd hunset hset
  | unpaused t' address' hs =>
    rw [Pending, hs]
    refine h.updateRow fun _ row => ?_
    exact ⟨rfl, rfl, rfl⟩

/-- A period that fits gives an unstaking height to come. -/
theorem lt_unbondingHeight {n : ℤ} (hheight : 0 ≤ height) (hfits : 0 < n ∧ height + n < 2 ^ 63) :
    height < int64 (height + n) := by
  have hu : int64 (height + n) = height + n := Model.int64_eq_self (by omega) hfits.2
  omega

/-- A transaction gives an actor without an unstaking height none, or one to come. -/
theorem Unset.actorWrite (h : Unset height t address s) (hheight : 0 ≤ height)
    (hperiod : ∀ value n, seen.params.lookup (unstakingBlocksParamName t) height = some value →
      atoi value = .ok n → 0 < n ∧ height + n < 2 ^ 63)
    (hwrite : ActorWrite height seen s s') : Unset height t address s' := by
  cases hwrite with
  | kept hs =>
    rw [Unset, hs]
    exact h
  | staked t' address' row' chains _ hrow' hs =>
    intro row hrow
    rw [hs, actors_insertActor] at hrow
    have hlookup := (lookup_setActors_upsert _).symm.trans hrow
    split at hlookup
    · refine .inl ?_
      rw [← Option.some.inj hlookup]
      split
      · exact hrow'
      · exact hrow'
    · exact h row hlookup
  | unstaked t' address' row' value n _ _ hparam hn hs =>
    intro row hrow
    rw [hs, lookup_updateRow] at hrow
    split at hrow
    · next hkey =>
      obtain ⟨old, -, rfl⟩ := Option.map_eq_some_iff.1 hrow
      rw [← hkey.1] at hparam
      exact .inr (lt_unbondingHeight hheight (hperiod value n hparam hn))
    · exact h row hrow
  | unpaused t' address' hs =>
    intro row hrow
    rw [hs, lookup_updateRow] at hrow
    split at hrow
    · next hkey =>
      obtain ⟨old, hold, rfl⟩ := Option.map_eq_some_iff.1 hrow
      rw [← hkey.1, ← hkey.2] at hold
      exact h old hold
    · exact h row hrow

end OneActor

/-! ## The end of a block -/

section Closing

variable {view : Database → Database} {s : Database}

/-- An update that takes nothing out of a pool. -/
def TakesFromNoPool (w : Update) : Prop := ∀ address amount, w ≠ .subPool address amount

theorem every_handleProposerRewards (proposer : Bytes) :
    (handleProposerRewards proposer).run.Every (fun w => KeepsTables height w ∧ TakesFromNoPool w)
      fun _ => True := by
  simp [handleProposerRewards, getPoolAmount, setPoolAmount, getIntParam, getStringParam,
    addAccountAmount, addPoolAmount, TakesFromNoPool, KeepsTables, sameTables_iff, apply,
    Database.setPool, Database.setAccount]

theorem keeps_unbondActor {s₀ : Database} (hs : SameTables s₀ s) (t : ActorType)
    (actor : UnstakingActor) : Keeps (store height) view (unbondActor t actor) (SameTables s₀) s := by
  have hevery : (unbondActor t actor).run.Every (KeepsTables height) fun _ => True := by
    simp [unbondActor, subPoolAmount, addAccountAmount, KeepsTables, sameTables_iff, apply,
      Database.setPool, Database.setAccount]
  exact keeps_sameTables hevery hs

/-- The rewards and the payments leave the tables alone, so an invariant of the actors has to be
kept by the rule for paused actors only, with the parameters of the state before. -/
theorem succeeds_endBlock_of_inv {inv : Database → Prop}
    (hview : ∀ s', s'.params = s.params → (view s').params = (view s).params)
    (hcurrent : s.ActorsUpTo height)
    (hinv : ∀ s' t value n value' n', s'.ActorsUpTo height → inv s' →
      (view s).params.lookup (maxPauseBlocksParamName t) height = some value → atoi value = .ok n →
      (view s).params.lookup (unstakingBlocksParamName t) height = some value' →
      atoi value' = .ok n' →
      inv (s'.unstakePausedBefore height t (max 0 (int64 (height - n))) (int64 (height + n'))))
    (orders : MapOrders) (proposer : Bytes) (hs : ∀ s', s'.actors = s.actors → inv s') :
    Succeeds (store height) view (endBlock height orders proposer)
      (fun _ s' => s'.ActorsUpTo height ∧ inv s') s := by
  have hkind : ∀ t t' : ActorType, ActorType.ofInt t.toInt = some t' → t' = t := by
    intro t t' h
    have ht : ActorType.ofInt t.toInt = some t := by cases t <;> rfl
    exact Option.some.inj (h.symm.trans ht)
  have hrewards : Keeps (store height) view (handleProposerRewards proposer) (SameTables s) s :=
    keeps_of_every (every_handleProposerRewards proposer)
      (fun w s' hw hs' => hs'.trans (hw.1 s')) (.refl s)
  have hunbonding : ∀ s', SameTables s s' → Succeeds (store height) view
      (unbondUnstakingActors orders.unbonding) (fun _ => SameTables s) s' := by
    intro s' hs'
    refine succeeds_forM_inv (fun t s' hs' => ?_) hs'
    refine succeeds_check (checks_wrap _ (checks_ask _)) fun ready _ => ?_
    exact succeeds_forM_inv (fun actor s' hs' => succeeds_of_keeps (keeps_unbondActor hs' t actor)) hs'
  have hpausing : ∀ s', s'.params = s.params ∧ s'.ActorsUpTo height ∧ inv s' →
      Succeeds (store height) view (beginUnstakingMaxPausedActors height orders.pausing)
        (fun _ s' => s'.params = s.params ∧ s'.ActorsUpTo height ∧ inv s') s' := by
    intro s' hs'
    refine succeeds_forM_inv (fun t s' ⟨hparams, hcurrent, hs'⟩ => ?_) hs'
    refine succeeds_check (checks_getActorIntParam _ _) fun n hn => ?_
    refine succeeds_check (checks_getUnbondingHeight _) fun u hu => ?_
    refine succeeds_write ?_
    obtain ⟨t₁, value, ht₁, hvalue, hatoi⟩ := peek_getActorIntParam hn
    obtain ⟨t₂, value', n', ht₂, hvalue', hatoi', rfl⟩ := peek_getUnbondingHeight hu
    rw [hkind t t₁ ht₁, hview s' hparams] at hvalue
    rw [hkind t t₂ ht₂, hview s' hparams] at hvalue'
    exact ⟨hparams, actorsUpTo_unstakePausedBefore hcurrent,
      hinv s' t value n value' n' hcurrent hs' hvalue hatoi hvalue' hatoi'⟩
  refine succeeds_bind (succeeds_mono (succeeds_of_keeps hrewards) fun _ s₁ hs₁ => ?_)
  refine succeeds_bind (succeeds_mono (hunbonding s₁ hs₁) fun _ s₂ hs₂ => ?_)
  refine succeeds_mono (hpausing s₂ ⟨hs₂.params, fun t => ?_, hs s₂ hs₂.actors⟩) fun _ s₃ hs₃ => hs₃.2
  rw [hs₂.actors]
  exact hcurrent t

end Closing

/-! ## An actor through a whole block -/

section WholeBlock

variable {t : ActorType} {address : String} {row₀ : ActorRow} {b : BlockExecution}
  {db mid db' : Database}

/-- Every period that is read for the kind of actor during the block is positive and ends below the
largest `int64`. -/
def BlockExecution.PeriodsFit (P : Platform) (height : ℤ) (b : BlockExecution) (db : Database)
    (t : ActorType) : Prop :=
  ∀ s, b.Reaches P height db s → ∀ value n,
    (b.view db s).params.lookup (unstakingBlocksParamName t) height = some value →
    atoi value = .ok n → 0 < n ∧ height + n < 2 ^ 63

/-- An actor that had an unstaking height before the block has not been paused for too long at the
end of it. -/
def BlockExecution.SparesUnstaking (height : ℤ) (b : BlockExecution) (db mid : Database)
    (t : ActorType) (address : String) : Prop :=
  ∀ row₀ row value n, (db.actors t).lookup address height = some row₀ → row₀.unstakingHeight ≠ -1 →
    (mid.actors t).lookup address height = some row →
    (b.view db mid).params.lookup (maxPauseBlocksParamName t) height = some value →
    atoi value = .ok n → row.pausedBefore (max 0 (int64 (height - n))) = false

theorem current_of_done (hdone : b.Done P height db mid db') (hdb : db.ActorsUpTo height) :
    mid.ActorsUpTo height ∧ db'.ActorsUpTo height := by
  have hmid : mid.ActorsUpTo height :=
    BlockExecution.invariant_of_reaches hdb (fun s s' _ hs hwrite => hwrite.current hs) hdone.reaches
  have hclosed := @succeeds_endBlock_of_inv height (b.view db) mid (fun _ => True)
    (fun _ h => b.params_view db h) hmid (fun _ _ _ _ _ _ _ _ _ _ _ _ => trivial) b.orders b.proposer
    fun _ _ => trivial
  exact ⟨hmid, (hclosed _ _ _ hdone.closed () rfl).1⟩

/-- An actor with an unstaking height keeps it through the block. -/
theorem pending_of_done (hdone : b.Done P height db mid db') (hcurrent : db.ActorsUpTo height)
    (hdb : Pending height t address row₀ db) (hset : row₀.unstakingHeight ≠ -1)
    (hspared : b.SparesUnstaking height db mid t address) :
    Pending height t address row₀ db' ∧ Pending height t address row₀ (b.view db mid) := by
  have hmid : Pending height t address row₀ mid :=
    BlockExecution.invariant_of_reaches hdb
      (fun s s' _ hs hwrite => hs.actorWrite (b.view_cases hdb hs) hset hwrite) hdone.reaches
  have hmid_current := (current_of_done hdone hcurrent).1
  have ⟨before, hbefore, hbefore_u, _, _⟩ := hdb
  have ⟨row, hrow, _⟩ := hmid
  -- the row of the actor itself stays, since the rule does not select it
  have hclosed : Succeeds (store height) (b.view db) (endBlock height b.orders b.proposer)
      (fun _ s => s.ActorsUpTo height ∧
        (s.actors t).lookup address height = (mid.actors t).lookup address height) mid := by
    refine succeeds_endBlock_of_inv (fun _ h => b.params_view db h) hmid_current ?_ b.orders b.proposer
      fun s' hs' => by rw [hs']
    intro s t' value n value' n' hs hlookup hvalue hn _ _
    rw [lookup_unstakePausedBefore hs, hlookup, hrow, Option.map_some]
    by_cases ht : t = t'
    · rw [← ht] at hvalue
      have hnot := hspared before row value n hbefore (hbefore_u ▸ hset) hrow hvalue hn
      rw [if_neg fun h => Bool.noConfusion (hnot.symm.trans h.2)]
    · rw [if_neg fun h => ht h.1]
  obtain ⟨-, hlookup⟩ := hclosed _ _ _ hdone.closed () rfl
  refine ⟨?_, b.view_cases hdb hmid⟩
  rw [Pending, hlookup]
  exact hmid

/-- An actor without an unstaking height has none after the block, or one to come. -/
theorem unset_of_done (hdone : b.Done P height db mid db') (hheight : 0 ≤ height)
    (hcurrent : db.ActorsUpTo height)
    (hdb : ∀ row, (db.actors t).lookup address height = some row → row.unstakingHeight = -1)
    (hperiods : b.PeriodsFit P height db t) :
    Unset height t address db' ∧ Unset height t address (b.view db mid) := by
  have hdb' : Unset height t address db := fun row hrow => .inl (hdb row hrow)
  have hmid : Unset height t address mid :=
    BlockExecution.invariant_of_reaches hdb'
      (fun s s' hreached hs hwrite => hs.actorWrite hheight (hperiods s hreached) hwrite)
      hdone.reaches
  have hmid_current := (current_of_done hdone hcurrent).1
  have hclosed : Succeeds (store height) (b.view db) (endBlock height b.orders b.proposer)
      (fun _ s => s.ActorsUpTo height ∧ Unset height t address s) mid := by
    refine succeeds_endBlock_of_inv (fun _ h => b.params_view db h) hmid_current ?_ b.orders b.proposer
      fun s' hs' => ?_
    · intro s t' value n value' n' hs hunset _ _ hvalue' hn' row hrow
      rw [lookup_unstakePausedBefore hs] at hrow
      obtain ⟨old, hold, rfl⟩ := Option.map_eq_some_iff.1 hrow
      split
      · next hselected =>
        rw [← hselected.1] at hvalue'
        exact .inr (lt_unbondingHeight hheight (hperiods mid hdone.reaches value' n' hvalue' hn'))
      · exact hunset old hold
    · rw [Unset, hs']
      exact hmid
  exact ⟨(hclosed _ _ _ hdone.closed () rfl).2, b.view_cases hdb' hmid⟩

end WholeBlock

/-! ## Payments -/

section Payments

/-- The payments that the end of a block makes when its reads see `seen`. -/
def payments (height : ℤ) (seen : Database) (order : List ActorType) :
    List (ActorType × UnstakingActor) :=
  order.flatMap fun t => (selectReadyToUnstake (seen.actors t) height).map fun actor => (t, actor)

/-- A payment moves the stake from the pool of the actor's kind to the output address. -/
def stakeMoves (payment : ActorType × UnstakingActor) : List Update :=
  match hexDecode payment.2.outputAddress with
  | .ok output =>
    [.subPool (hexEncode payment.1.stakePool.address) (numberIn payment.2.stakeAmount),
      .addAccount (hexEncode output) (numberIn payment.2.stakeAmount)]
  | .error _ => []

/-- Besides the payments the updates take nothing out of a pool. -/
def PaysOut (updates : List Update) (ps : List (ActorType × UnstakingActor)) : Prop :=
  ∃ rewards pausing, updates = rewards ++ ps.flatMap stakeMoves ++ pausing ∧
    (∀ w ∈ rewards, TakesFromNoPool w) ∧ ∀ w ∈ pausing, TakesFromNoPool w

variable {view : Database → Database} {order : List ActorType} {seen : Database} {t : ActorType}

theorem succeeds_unbondActor_logged (t : ActorType) (actor : UnstakingActor) (s : Database)
    (log : List Update) :
    Succeeds (store height).logged (Prod.map view id) (unbondActor t actor)
      (fun _ s' => SameTables s s'.1 ∧ s'.2 = log ++ stakeMoves (t, actor)) (s, log) := by
  refine succeeds_bind (succeeds_returned fun stake hstake => ?_)
  refine succeeds_bind (succeeds_returned fun output houtput => ?_)
  refine succeeds_bind (succeeds_write ?_)
  refine succeeds_write ⟨⟨rfl, rfl⟩, ?_⟩
  have hnumber : numberIn actor.stakeAmount = stake :=
    numberIn_of_stringToBigInt (mapError_eq_ok.1 hstake)
  have hdecoded : hexDecode actor.outputAddress = .ok output := mapError_eq_ok.1 houtput
  rw [stakeMoves, hdecoded, hnumber]
  exact List.append_assoc _ _ _

/-- A loop that appends the updates of each element to the log. -/
theorem succeeds_forM_appends {α : Type} {body : α → Uow Unit} {moves : α → List Update}
    {mid s : Database} (hbody : ∀ a s log, SameTables mid s →
      Succeeds (store height).logged (Prod.map view id) (body a)
        (fun _ s' => SameTables mid s'.1 ∧ s'.2 = log ++ moves a) (s, log))
    (hs : SameTables mid s) (l : List α) (log : List Update) :
    Succeeds (store height).logged (Prod.map view id) (l.forM body)
      (fun _ s' => SameTables mid s'.1 ∧ s'.2 = log ++ l.flatMap moves) (s, log) := by
  -- what has been appended and what is to come are together all updates
  let inv (rest : List α) (s' : Database × List Update) : Prop :=
    SameTables mid s'.1 ∧ s'.2 ++ rest.flatMap moves = log ++ l.flatMap moves
  have hstep : ∀ a rest s', inv (a :: rest) s' →
      Succeeds (store height).logged (Prod.map view id) (body a) (fun _ => inv rest) s' := by
    rintro a rest ⟨s', log'⟩ ⟨hs', hlog⟩
    refine succeeds_mono (hbody a s' log' hs') fun _ s'' hs'' => ⟨hs''.1, ?_⟩
    rw [hs''.2, List.append_assoc, ← hlog, List.flatMap_cons]
  have hstart : inv l (s, log) := ⟨hs, rfl⟩
  refine succeeds_mono (succeeds_forM hstep hstart) fun _ s' hs' => ⟨hs'.1, ?_⟩
  rw [← hs'.2]
  exact (List.append_nil _).symm

/-- The loop over the kinds of actors pays those that its reads see at the start. -/
theorem succeeds_unbondUnstakingActors_logged (hview : TableView view) {mid s : Database}
    (hs : SameTables mid s) (order : List ActorType) (log : List Update) :
    Succeeds (store height).logged (Prod.map view id) (unbondUnstakingActors order)
      (fun _ s' => SameTables mid s'.1 ∧
        s'.2 = log ++ (payments height (view mid) order).flatMap stakeMoves) (s, log) := by
  rw [payments, List.flatMap_assoc]
  refine succeeds_forM_appends (fun t s' log hs' => ?_) hs order log
  refine succeeds_bind (succeeds_wrap (succeeds_ask fun ready hready => ?_))
  have hlist : selectReadyToUnstake ((view mid).actors t) height = ready := by
    rw [← (hview _ _ hs').actors]
    exact Except.ok.inj hready
  rw [hlist, List.flatMap_map]
  refine succeeds_forM_appends (fun actor s log hs => ?_) hs' ready log
  exact succeeds_mono (succeeds_unbondActor_logged t actor s log)
    fun _ s'' hs'' => ⟨hs.trans hs''.1, hs''.2⟩

theorem every_beginUnstakingMaxPausedActors (order : List ActorType) :
    (beginUnstakingMaxPausedActors height order).run.Every TakesFromNoPool fun _ => True := by
  refine meets_forM fun t _ => ?_
  simp [getMaxAllowedPausedBlocks, beginUnstakingActorsPausedBefore, getUnbondingHeight,
    getActorIntParam, getIntParam, getStringParam, TakesFromNoPool]

/-- The updates of the end of a block: rewards, the payments that its reads see at its start, and
the rule for paused actors. -/
theorem endBlock_paysOut {b : BlockExecution} {db mid db' : Database}
    (hdone : b.Done P height db mid db') :
    PaysOut (effects (store height) (b.view db) (endBlock height b.orders b.proposer).run
      b.endFails mid) (payments height (b.view db mid) b.orders.unbonding) := by
  have hlogged : Succeeds (store height).logged (Prod.map (b.view db) id)
      (endBlock height b.orders b.proposer)
      (fun _ s => PaysOut s.2 (payments height (b.view db mid) b.orders.unbonding)) (mid, []) := by
    have hrewards : Keeps (store height).logged (Prod.map (b.view db) id)
        (handleProposerRewards b.proposer)
        (fun s => SameTables mid s.1 ∧ ∃ ws, s.2 = [] ++ ws ∧
          ∀ w ∈ ws, KeepsTables height w ∧ TakesFromNoPool w) (mid, []) := by
      have hevery := @every_handleProposerRewards height b.proposer
      intro fails r s hexec
      refine ⟨?_, keeps_logged_of_every hevery mid [] fails r s hexec⟩
      have htables : Keeps (store height).logged (Prod.map (b.view db) id)
          (handleProposerRewards b.proposer) (fun s => SameTables mid s.1) (mid, []) :=
        keeps_of_every hevery (fun w s' hw hs' => hs'.trans (hw.1 s'.1)) (.refl mid)
      exact htables fails r s hexec
    refine succeeds_bind (succeeds_mono (succeeds_of_keeps hrewards) fun _ s₁ hs₁ => ?_)
    obtain ⟨hs₁, rewards, hlog₁, hrewards⟩ := hs₁
    refine succeeds_bind (succeeds_mono
      (succeeds_unbondUnstakingActors_logged (b.tableView db) hs₁ _ s₁.2) fun _ s₂ hs₂ => ?_)
    refine succeeds_mono (succeeds_of_keeps
      (keeps_logged_of_every (every_beginUnstakingMaxPausedActors _) s₂.1 s₂.2)) fun _ s₃ hs₃ => ?_
    obtain ⟨pausing, hlog₃, hpausing⟩ := hs₃
    refine ⟨rewards, pausing, ?_, fun w hw => (hrewards w hw).2, hpausing⟩
    rw [hlog₃, hs₂.2, hlog₁, List.nil_append]
  exact effects_of_succeeds hlogged hdone.closed

theorem mem_payments {actor : UnstakingActor} :
    (t, actor) ∈ payments height seen order ↔
      t ∈ order ∧ actor ∈ selectReadyToUnstake (seen.actors t) height := by
  simp [payments]

theorem nodup_payments (horder : order.Nodup) (hcurrent : seen.ActorsUpTo height) :
    (payments height seen order).Nodup := by
  refine List.nodup_flatMap.2 ⟨fun t _ => ?_, horder.imp fun hne => ?_⟩
  · refine List.Nodup.map (fun _ _ h => congrArg Prod.snd h) ?_
    exact List.Nodup.of_map _ (nodup_selectReadyToUnstake (hcurrent t) height)
  · intro p hp hp'
    obtain ⟨_, _, rfl⟩ := List.mem_map.1 hp
    obtain ⟨_, _, heq⟩ := List.mem_map.1 hp'
    exact hne (congrArg Prod.fst heq).symm

/-- One payment to an actor whose unstaking height is the height of the block. -/
theorem filter_payments_of_due {address : String} (horder : order.Perm allActors)
    (hcurrent : seen.ActorsUpTo height) (hrow : (seen.actors t).lookup address height = some row)
    (hdue : row.unstakingHeight = height) :
    (payments height seen order).filter (fun p => p.1 = t ∧ p.2.address = address)
      = [(t, ⟨address, row.stakedTokens, row.outputAddress⟩)] := by
  have hmem : t ∈ order := horder.mem_iff.2 (by cases t <;> decide)
  have hnodup := (nodup_payments (horder.nodup_iff.2 (by decide)) hcurrent).filter
    fun p => decide (p.1 = t ∧ p.2.address = address)
  refine List.perm_singleton.1 ((List.perm_ext_iff_of_nodup hnodup (List.nodup_singleton _)).2 ?_)
  rintro ⟨t', actor⟩
  rw [List.mem_filter, mem_payments, mem_selectReadyToUnstake (hcurrent t'), List.mem_singleton,
    decide_eq_true_iff]
  constructor
  · rintro ⟨⟨-, row', hrow', -, hstake, houtput⟩, rfl, rfl⟩
    rw [hrow] at hrow'
    cases hrow'
    rw [← hstake, ← houtput]
  · intro h
    cases h
    exact ⟨⟨hmem, row, hrow, hdue, rfl, rfl⟩, rfl, rfl⟩

/-- No payment to an actor whose unstaking height is another one. -/
theorem filter_payments_of_not_due {address : String} (hcurrent : seen.ActorsUpTo height)
    (hnot : ∀ row, (seen.actors t).lookup address height = some row → row.unstakingHeight ≠ height) :
    (payments height seen order).filter (fun p => p.1 = t ∧ p.2.address = address) = [] := by
  refine List.filter_eq_nil_iff.2 ?_
  rintro ⟨t', actor⟩ hmem hactor
  obtain ⟨ht, haddress⟩ := of_decide_eq_true hactor
  obtain ⟨-, hready⟩ := mem_payments.1 hmem
  obtain ⟨row, hrow, hdue, -, -⟩ := (mem_selectReadyToUnstake (hcurrent t')).1 hready
  have ht' : t' = t := ht
  have haddress' : actor.address = address := haddress
  rw [ht', haddress'] at hrow
  exact hnot row hrow hdue

end Payments

/-! ## Runs of blocks -/

/-- Consecutive blocks from the height `first` on: the block `i` takes the state `i` to the next
one. -/
structure ConsecutiveBlocks (P : Platform) (first : ℕ) (blocks : ℕ → BlockExecution)
    (mids states : ℕ → Database) (n : ℕ) : Prop where
  start : (states 0).ActorsUpTo first
  done : ∀ i < n, (blocks i).Done P (first + i : ℕ) (states i) (mids i) (states (i + 1))

section Runs

variable {first n : ℕ} {blocks : ℕ → BlockExecution} {mids states : ℕ → Database} {t : ActorType}
  {address : String} {row₀ : ActorRow}

/-- The updates of the end of the block `i` of a run. -/
def closingUpdates (first : ℕ) (blocks : ℕ → BlockExecution) (mids states : ℕ → Database) (i : ℕ) :
    List Update :=
  effects (store (first + i : ℕ)) ((blocks i).view (states i))
    (endBlock (first + i : ℕ) (blocks i).orders (blocks i).proposer).run (blocks i).endFails (mids i)

/-- The payments that the end of the block `i` of a run makes. -/
def closingPayments (first : ℕ) (blocks : ℕ → BlockExecution) (mids states : ℕ → Database) (i : ℕ) :
    List (ActorType × UnstakingActor) :=
  payments (first + i : ℕ) ((blocks i).view (states i) (mids i)) (blocks i).orders.unbonding

/-- The end of the block `i` makes its payments, and `ps` are those to the actor. -/
def PaysActor (first : ℕ) (blocks : ℕ → BlockExecution) (mids states : ℕ → Database) (i : ℕ)
    (t : ActorType) (address : String) (ps : List (ActorType × UnstakingActor)) : Prop :=
  PaysOut (closingUpdates first blocks mids states i) (closingPayments first blocks mids states i) ∧
    (closingPayments first blocks mids states i).filter (fun p => p.1 = t ∧ p.2.address = address)
      = ps

section

variable (h : ConsecutiveBlocks P first blocks mids states n)
include h

theorem ConsecutiveBlocks.current (hi : i ≤ n) : (states i).ActorsUpTo (first + i : ℕ) := by
  induction i with
  | zero => exact h.start
  | succ i ih =>
    have hnext := (current_of_done (h.done i hi) (ih (by omega))).2
    intro t
    exact (hnext t).mono (by omega)

/-- A row written up to a block is read at the next height as at the block's own. -/
theorem ConsecutiveBlocks.lookup_succ (hi : i < n) :
    ((states (i + 1)).actors t).lookup address (first + (i + 1) : ℕ)
      = ((states (i + 1)).actors t).lookup address (first + i : ℕ) := by
  have hcurrent := (current_of_done (h.done i hi) (h.current hi.le)).2
  exact (hcurrent t).lookup_eq (by omega) address

/-- Once an actor has an unstaking height it keeps it. -/
theorem ConsecutiveBlocks.pending
    (hspared : ∀ i < n, (blocks i).SparesUnstaking (first + i : ℕ) (states i) (mids i) t address)
    (hset : row₀.unstakingHeight ≠ -1) {j : ℕ} (hij : i ≤ j) (hj : j ≤ n)
    (hi : Pending (first + i : ℕ) t address row₀ (states i)) :
    Pending (first + j : ℕ) t address row₀ (states j) := by
  induction j, hij using Nat.le_induction with
  | base => exact hi
  | succ j hij ih =>
    have hj' : j < n := by omega
    rw [Pending, h.lookup_succ hj']
    exact (pending_of_done (h.done j hj') (h.current hj'.le) (ih hj'.le) hset (hspared j hj')).1

/-- Before it is set an unstaking height is absent in every state. -/
theorem ConsecutiveBlocks.unset_of_le
    (hspared : ∀ i < n, (blocks i).SparesUnstaking (first + i : ℕ) (states i) (mids i) t address)
    (hi : i < n) (hrow : ((states (i + 1)).actors t).lookup address (first + i : ℕ) = some row)
    (hbefore : ∀ row', ((states i).actors t).lookup address (first + i : ℕ) = some row' →
      row'.unstakingHeight ≠ row.unstakingHeight) {j : ℕ} (hj : j ≤ i) :
    ∀ row', ((states j).actors t).lookup address (first + j : ℕ) = some row' →
      row'.unstakingHeight = -1 := by
  intro row' hrow'
  by_contra hset
  have hpending : Pending (first + i : ℕ) t address row' (states i) :=
    h.pending hspared hset hj hi.le ⟨row', hrow', rfl, rfl, rfl⟩
  obtain ⟨row₁, hrow₁, hu₁, -, -⟩ :=
    (pending_of_done (h.done i hi) (h.current hi.le) hpending hset (hspared i hi)).1
  obtain ⟨row₂, hrow₂, hu₂, -, -⟩ := hpending
  rw [hrow] at hrow₁
  cases hrow₁
  exact hbefore row₂ hrow₂ (hu₂.trans hu₁.symm)

end

/-- **Unbonding once and on time.**  If no block's rule for paused actors selects the actor once it
has an unstaking height, then a block that sets the height sets one to come, no later block changes
it, and the stake is paid out by the end of the block at that height and of no other block. -/
theorem unbonds_once_on_time (h : ConsecutiveBlocks P first blocks mids states n)
    (hperiods : ∀ i < n, (blocks i).PeriodsFit P (first + i : ℕ) (states i) t)
    (hspared : ∀ i < n, (blocks i).SparesUnstaking (first + i : ℕ) (states i) (mids i) t address)
    {i : ℕ} (hi : i < n) {row : ActorRow}
    (hrow : ((states (i + 1)).actors t).lookup address (first + i : ℕ) = some row)
    (hset : row.unstakingHeight ≠ -1)
    (hbefore : ∀ row', ((states i).actors t).lookup address (first + i : ℕ) = some row' →
      row'.unstakingHeight ≠ row.unstakingHeight) :
    ((first + i : ℕ) : ℤ) < row.unstakingHeight ∧
      (∀ j, i ≤ j → j < n → Pending (first + j : ℕ) t address row (states (j + 1))) ∧
      ∀ j < n, PaysActor first blocks mids states j t address
        (if ((first + j : ℕ) : ℤ) = row.unstakingHeight
          then [(t, ⟨address, row.stakedTokens, row.outputAddress⟩)] else []) := by
  have hunset := fun {j : ℕ} (hj : j ≤ i) => h.unset_of_le hspared hi hrow hbefore hj
  have hfuture : ((first + i : ℕ) : ℤ) < row.unstakingHeight := by
    have hafter := (unset_of_done (h.done i hi) (by omega) (h.current hi.le) (hunset le_rfl)
      (hperiods i hi)).1
    exact (hafter row hrow).resolve_left hset
  have hpending : ∀ j, i < j → j < n → Pending (first + j : ℕ) t address row (states j) := by
    intro j hij hj
    refine h.pending hspared hset hij hj.le ?_
    rw [Pending, h.lookup_succ hi]
    exact ⟨row, hrow, rfl, rfl, rfl⟩
  refine ⟨hfuture, fun j hij hj => ?_, fun j hj => ?_⟩
  · rcases hij.eq_or_lt with rfl | hlt
    · exact ⟨row, hrow, rfl, rfl, rfl⟩
    · exact (pending_of_done (h.done j hj) (h.current hj.le) (hpending j hlt hj) hset
        (hspared j hj)).1
  · have hdone := h.done j hj
    refine ⟨endBlock_paysOut hdone, ?_⟩
    have hcurrent : ((blocks j).view (states j) (mids j)).ActorsUpTo (first + j : ℕ) :=
      @BlockExecution.view_cases (fun s => s.ActorsUpTo (first + j : ℕ)) _ _ _ (h.current hj.le)
        (current_of_done hdone (h.current hj.le)).1
    by_cases hij : j ≤ i
    · -- not set when the block starts, and what the block sets is still to come
      have hseen := (unset_of_done hdone (by omega) (h.current hj.le) (hunset hij) (hperiods j hj)).2
      rw [if_neg (by omega)]
      refine filter_payments_of_not_due hcurrent fun row' hrow' => ?_
      have hother := hseen row' hrow'
      omega
    · obtain ⟨row', hrow', hu, hstake, houtput⟩ := (pending_of_done hdone (h.current hj.le)
        (hpending j (by omega) hj) hset (hspared j hj)).2
      by_cases hdue : ((first + j : ℕ) : ℤ) = row.unstakingHeight
      · rw [if_pos hdue, ← hstake, ← houtput]
        exact filter_payments_of_due hdone.order hcurrent hrow' (hu.trans hdue.symm)
      · rw [if_neg hdue]
        refine filter_payments_of_not_due hcurrent fun row'' hrow'' hdue' => hdue ?_
        rw [hrow'] at hrow''
        cases hrow''
        exact hdue'.symm.trans hu

end Runs

/-! ## Two runs -/

/-- The state in which the end of a block starts, for a block that gets there. -/
def BlockExecution.midState (P : Platform) (height : ℤ) (b : BlockExecution) (db : Database) :
    Database :=
  match Runs.run (stepBlock P height (b.view db)) (some ⟨db, []⟩) b.opening with
  | some r => r.db
  | none => db

/-- The state after a block, for a block that ends. -/
def BlockExecution.endState (P : Platform) (height : ℤ) (b : BlockExecution) (db : Database) :
    Database :=
  match (endBlock height b.orders b.proposer).run.exec (store height) (b.view db) b.endFails
    (b.midState P height db) with
  | some (_, db') => db'
  | none => db

def statesFrom (P : Platform) (first : ℕ) (blocks : ℕ → BlockExecution) (db : Database) :
    ℕ → Database
  | 0 => db
  | i + 1 => (blocks i).endState P (first + i : ℕ) (statesFrom P first blocks db i)

def midsFrom (P : Platform) (first : ℕ) (blocks : ℕ → BlockExecution) (db : Database) (i : ℕ) :
    Database :=
  (blocks i).midState P (first + i : ℕ) (statesFrom P first blocks db i)

/-- A block with the transactions, in which no call fails. -/
def plainBlock (txs : List Transaction) : BlockExecution where
  beginFails := fun _ => none
  txs := txs.map fun tx => (tx, fun _ => none)
  endFails := fun _ => none
  orders := ⟨allActors, allActors⟩
  proposer := [2]
  separateReads := false

/-- An application with the address `01`, in a state where its kind may be paused for 4 blocks and
takes `unstakingBlocks` blocks to unstake. -/
def appDatabase (pausedHeight : ℤ) (unstakingBlocks : String) : Database :=
  let db := (blockDatabase "0").insertActor 1 .app "01" ⟨"01", "10", "", "01", pausedHeight, -1⟩ []
  { db with
    params := (db.params.upsert (messageUnstakeFee .app) 1 "0").upsert (unstakingBlocksParamName .app)
      1 unstakingBlocks }

def unstakingHeightOf (height : ℤ) (db : Database) : Option ℤ :=
  ((db.actors .app).lookup "01" height).map ActorRow.unstakingHeight

/-- An application paused since the height 0, and blocks without transactions. -/
def pausedStates : ℕ → Database := statesFrom sendSixty 5 (fun _ => plainBlock []) (appDatabase 0 "4")

def pausedMids : ℕ → Database := midsFrom sendSixty 5 (fun _ => plainBlock []) (appDatabase 0 "4")

/-- The block at 5 sets the unstaking height 9, and the block at 6 changes it to 10. -/
theorem paused_app_rescheduled :
    ConsecutiveBlocks sendSixty 5 (fun _ => plainBlock []) pausedMids pausedStates 2 ∧
      (∀ i < 2, ∀ name ∈ [unstakingBlocksParamName .app, maxPauseBlocksParamName .app],
        (pausedStates i).params.lookup name (5 + i : ℕ) = some "4") ∧
      unstakingHeightOf 5 (pausedStates 0) = some (-1) ∧
      unstakingHeightOf 5 (pausedStates 1) = some 9 ∧
      unstakingHeightOf 6 (pausedStates 2) = some 10 := by
  refine ⟨⟨?_, ?_⟩, ?_, ?_, ?_, ?_⟩
  · intro t r hr
    cases t <;> revert r <;> decide +kernel
  · intro i hi
    interval_cases i
    · exact ⟨⟨_, rfl, rfl⟩, rfl, .refl _⟩
    · exact ⟨⟨_, rfl, rfl⟩, rfl, .refl _⟩
  all_goals decide +kernel

/-- The owner of the application unstakes it at 5, with an unstaking period of one block. -/
def leavingPlatform : Platform := ownerPlatform (.unstake ⟨1, [1], []⟩)

def leavingBlocks (i : ℕ) : BlockExecution := plainBlock (if i = 0 then [ownerTx] else [])

def leavingStates : ℕ → Database := statesFrom leavingPlatform 5 leavingBlocks (appDatabase (-1) "1")

def leavingMids : ℕ → Database := midsFrom leavingPlatform 5 leavingBlocks (appDatabase (-1) "1")

theorem leaving_periods (hi : i < 2) :
    (leavingBlocks i).PeriodsFit leavingPlatform (5 + i : ℕ) (leavingStates i) .app := by
  have hstates : ∀ i < 2, ∀ steps ∈ (leavingBlocks i).opening.inits,
      (Runs.run (stepBlock leavingPlatform (5 + i : ℕ) ((leavingBlocks i).view (leavingStates i)))
        (some ⟨leavingStates i, []⟩) steps).map (fun r =>
          ((leavingBlocks i).view (leavingStates i) r.db).params.lookup
            (unstakingBlocksParamName .app) (5 + i : ℕ)) = some (some "1") := by
    decide +kernel
  rintro s ⟨steps, r, hprefix, hrun, rfl⟩ value n hvalue hn
  have hread := hstates i hi steps ((List.mem_inits _ _).2 hprefix)
  rw [hrun, Option.map_some, hvalue] at hread
  have htext : value = "1" := Option.some.inj (Option.some.inj hread)
  have hone : atoi "1" = .ok 1 := by decide
  rw [htext, hone] at hn
  have hn' : n = 1 := (Except.ok.inj hn).symm
  omega

/-- The block at 5 sets the unstaking height 6, and the block at 6 pays the stake out. -/
theorem leaving_app_paid :
    PaysActor 5 leavingBlocks leavingMids leavingStates 0 .app "01" [] ∧
      PaysActor 5 leavingBlocks leavingMids leavingStates 1 .app "01"
        [(.app, ⟨"01", "10", "01"⟩)] := by
  have hrun : ConsecutiveBlocks leavingPlatform 5 leavingBlocks leavingMids leavingStates 2 := by
    refine ⟨fun t r hr => ?_, fun i hi => ?_⟩
    · cases t <;> revert r <;> decide +kernel
    · interval_cases i
      · exact ⟨⟨_, rfl, rfl⟩, rfl, .refl _⟩
      · exact ⟨⟨_, rfl, rfl⟩, rfl, .refl _⟩
  have hspared : ∀ i < 2, (leavingBlocks i).SparesUnstaking (5 + i : ℕ) (leavingStates i)
      (leavingMids i) .app "01" := by
    have hunpaused : ∀ i < 2, ((leavingMids i).actors .app).lookup "01" (5 + i : ℕ)
        = some ⟨"01", "10", "", "01", -1, 6⟩ := by decide +kernel
    intro i hi row₀ row value n _ _ hrow _ _
    rw [hunpaused i hi] at hrow
    cases hrow
    rfl
  have hrow : ((leavingStates 1).actors .app).lookup "01" (5 + 0 : ℕ)
      = some ⟨"01", "10", "", "01", -1, 6⟩ := by decide +kernel
  have hbefore : ((leavingStates 0).actors .app).lookup "01" (5 + 0 : ℕ)
      = some ⟨"01", "10", "", "01", -1, -1⟩ := by decide +kernel
  obtain ⟨-, -, hpays⟩ := unbonds_once_on_time hrun (fun i hi => leaving_periods hi) hspared
    (by omega : 0 < 2) hrow (by decide) fun row' hrow' => by
      rw [hbefore] at hrow'
      cases hrow'
      decide
  exact ⟨hpays 0 (by omega), hpays 1 (by omega)⟩

end Pocket.Utility
