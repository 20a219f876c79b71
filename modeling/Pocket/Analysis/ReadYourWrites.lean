import Pocket.Analysis.FailedMessages
import Pocket.Analysis.SignableMessages

/-!
# One context or two

A unit of work is handed a context to read from and another to write to, and the first does
not see what the second has not committed.  Run with one context for both, every step of a
block reads what the block has written so far.

The two agree on a block in which no step asks for what a step before it changes, where the steps
are looked at one by one, on the committed state.  Within a step nothing has to be assumed.  The end
of a block asks for the fees, so a transaction that it does not notice has paid none, and the account
that pays nothing is written as it was read; a message handler reads before it writes; and the end
of a block does not ask for what it has changed itself.

A block with a single send that pays a fee already fails this: the sender's amount is read twice,
before and after the fee was taken from it.
-/

set_option autoImplicit false

namespace Pocket.Utility

open Model (Bytes)
open StoreProgram StoreProgram.Prog VersionedTable
open Text (hexEncode)

variable {P : Platform} {height : ℤ} {committed : Database}

/-! ## What a payment leaves -/

/-- Payments that do not change the committed answer to a query. -/
def spares (height : ℤ) (committed : Database) : Update → Query → Bool
  | .setAccount address amount, .account other =>
    other = address → amount = committed.accounts.amount other height
  | .setPool address amount, .pool other =>
    other = address → amount = committed.pools.amount other height
  | .addAccount address amount, .account other | .addPool address amount, .pool other
  | .subPool address amount, .pool other => other = address → amount = 0
  | .setAccount .., _ | .setPool .., _ | .addAccount .., _ | .addPool .., _ | .subPool .., _ => true
  | _, _ => false

theorem amount_upsert_eq {t t' : Table String ℤ ℤ} {key other : String} {amount : ℤ}
    (h : t.amount other height = t'.amount other height)
    (hkey : other = key → amount = t'.amount other height) :
    (t.upsert key height amount).amount other height = t'.amount other height := by
  by_cases heq : other = key
  · rw [← hkey heq, heq, Table.amount_upsert_self]
  · rw [Table.amount_upsert_ne _ _ _ heq, h]

theorem leaves_of_spares {w : Update} {q : Query} (h : spares height committed w q) :
    Leaves (store height) committed w q := by
  intro db hq
  cases w with
  | setAccount address amount | addAccount address amount =>
    cases q with
    | account other =>
      have hsame := Except.ok.inj hq
      refine congrArg Except.ok (amount_upsert_eq hsame fun heq => ?_)
      have := of_decide_eq_true h heq
      grind
    | _ => exact hq
  | setPool address amount | addPool address amount | subPool address amount =>
    cases q with
    | pool other =>
      have hsame := Except.ok.inj hq
      refine congrArg Except.ok (amount_upsert_eq hsame fun heq => ?_)
      have := of_decide_eq_true h heq
      grind
    | _ => exact hq
  | _ => cases h

/-! ## Within a step -/

/-- The calls that a step makes by itself on the committed state. -/
def BlockStep.calls (P : Platform) (height : ℤ) (committed : Database) (step : BlockStep) :
    List (Query ⊕ Update) :=
  (step.program P height).run.calls (store height) committed

/-- All that a transaction asks before its fee is taken comes before it. -/
theorem pairwise_calls_basicValidateTransaction (tx : Transaction) :
    ((basicValidateTransaction P tx).run.calls (store height) committed).Pairwise
      (Undisturbed (store height) committed) := by
  by_cases hmsg : ∃ msg, P.fromAny tx.msg = .ok (.utility msg)
  · obtain ⟨msg, hmsg⟩ := hmsg
    exact (checksFirst_basicValidateTransaction hmsg).pairwise_calls
  · unfold basicValidateTransaction validateTxMessage
    split
    · exact .nil
    · next msg heq => exact absurd ⟨msg, heq⟩ hmsg
    · exact .nil

/-- A transaction whose fee is nothing asks for nothing that it has changed. -/
theorem pairwise_calls_transaction {tx : Transaction}
    (hfree : ∀ msg signer fee, Charged P height committed tx msg signer fee → fee = 0) (index : ℤ) :
    ((BlockStep.transaction tx index).calls P height committed).Pairwise
      (Undisturbed (store height) committed) := by
  rw [BlockStep.calls, BlockStep.program, calls_bind_pure]
  refine pairwise_calls_bind (pairwise_calls_basicValidateTransaction tx) fun msg ws hplan => ⟨?_, ?_⟩
  · refine pairwise_calls_bind ?_ fun result ws _ => ⟨.nil, fun c _ c' hc' => nomatch hc'⟩
    rw [calls_attempt]
    exact (checksFirst_handleMessage msg).pairwise_calls
  · -- the account that pays is written as it was read, and nothing goes to the fees
    have hexec : (basicValidateTransaction P tx).run.exec (store height) (fun _ => committed)
      (fun _ => none) committed = _ := exec_eq_plan _ _
    rw [hplan] at hexec
    obtain ⟨msg', signer, fee, -, hcharged⟩ := succeeds_basicValidateTransaction _ _ _ hexec _ rfl
    rw [plan_basicValidateTransaction hcharged] at hplan
    cases hplan
    obtain rfl := hfree msg' signer fee hcharged
    rintro (q | w) hc (q' | w') -
    · trivial
    · trivial
    · have hw := (mem_calls_of_plan (plan_basicValidateTransaction hcharged) w).1 hc
      simp only [feeUpdates, List.mem_cons, List.not_mem_nil, or_false] at hw
      apply leaves_of_spares
      rcases hw with rfl | rfl
      · cases q' with
        | account other => exact decide_eq_true fun heq => by rw [heq, sub_zero]
        | _ => rfl
      · cases q' with
        | pool other => exact decide_eq_true fun _ => rfl
        | _ => rfl
    · trivial

/-- What the end of a block asks and writes after it has asked for the fees: first it pays out fees
and stakes, then paused actors begin to unstake. -/
def OfEnd (pausing : Bool) : Query ⊕ Update → Prop
  | .inl (.param _) => True
  | .inl (.readyToUnstake _) | .inr (.setPool ..) | .inr (.addPool ..) | .inr (.subPool ..)
  | .inr (.addAccount ..) => pausing = false
  | .inr (.unstakePausedBefore ..) => pausing = true
  | _ => False

theorem undisturbed_of_end {pausing pausing' : Bool} {c c' : Query ⊕ Update} (h : OfEnd pausing c)
    (h' : OfEnd pausing' c') (horder : pausing = true → pausing' = true) :
    Undisturbed (store height) committed c c' := by
  rcases c with q | w
  · trivial
  rcases c' with q | w'
  · cases w <;> cases q <;> first | exact fun s hs => hs | simp_all [OfEnd]
  · trivial

theorem pairwise_of_end {pausing : Bool} {l : List (Query ⊕ Update)} (h : ∀ c ∈ l, OfEnd pausing c) :
    l.Pairwise (Undisturbed (store height) committed) :=
  List.pairwise_of_forall_mem_list fun c hc c' hc' => undisturbed_of_end (h c hc) (h c' hc') id

theorem forall_calls_getIntParam (pausing : Bool) (name : String) :
    ∀ c ∈ (getIntParam name).run.calls (store height) committed, OfEnd pausing c :=
  forall_calls_bind (List.forall_mem_singleton.2 trivial) fun _ _ hc => nomatch hc

theorem calls_handleProposerRewards (proposer : Bytes) :
    ∃ rest, (handleProposerRewards proposer).run.calls (store height) committed
      = .inl (.pool (hexEncode Pool.feeCollector.address)) :: rest ∧ ∀ c ∈ rest, OfEnd false c := by
  have hbind : (handleProposerRewards proposer).run.calls (store height) committed = _ ∨ _ :=
    calls_bind_eq
  rcases hbind with h | ⟨fees, ws, -, h⟩
  · exact ⟨[], h, fun c hc => nomatch hc⟩
  refine ⟨_, h, ?_⟩
  refine forall_calls_bind (List.forall_mem_singleton.2 rfl) fun _ => ?_
  refine forall_calls_bind (forall_calls_getIntParam _ _) fun cut => ?_
  refine forall_calls_bind (by unfold throwIf; split <;> exact fun c hc => nomatch hc) fun _ => ?_
  refine forall_calls_bind (List.forall_mem_singleton.2 rfl) fun _ => ?_
  exact List.forall_mem_singleton.2 rfl

theorem forall_calls_unbondUnstakingActors (order : List ActorType) :
    ∀ c ∈ (unbondUnstakingActors order).run.calls (store height) committed, OfEnd false c := by
  refine forall_calls_forM fun t _ => ?_
  refine forall_calls_bind (List.forall_mem_singleton.2 rfl) fun ready => ?_
  refine forall_calls_forM fun actor _ => ?_
  refine forall_calls_bind (fun _ hc => nomatch hc) fun stakeAmount => ?_
  refine forall_calls_bind (fun _ hc => nomatch hc) fun outputAddr => ?_
  refine forall_calls_bind (List.forall_mem_singleton.2 rfl) fun _ => ?_
  exact List.forall_mem_singleton.2 rfl

theorem forall_calls_getActorIntParam (paramName : ActorType → String) (actorType : ℤ) :
    ∀ c ∈ (getActorIntParam paramName actorType).run.calls (store height) committed, OfEnd true c := by
  unfold getActorIntParam forActor
  split
  · rw [calls_wrap]
    exact forall_calls_getIntParam _ _
  · exact fun _ hc => nomatch hc

theorem forall_calls_beginUnstakingMaxPausedActors (order : List ActorType) :
    ∀ c ∈ (beginUnstakingMaxPausedActors height order).run.calls (store height) committed,
      OfEnd true c := by
  refine forall_calls_forM fun t _ => ?_
  refine forall_calls_bind (forall_calls_getActorIntParam _ _) fun maxPausedBlocks => ?_
  refine forall_calls_bind ?_ fun unbondingHeight => List.forall_mem_singleton.2 rfl
  rw [getUnbondingHeight, calls_bind_pure]
  exact forall_calls_getActorIntParam _ _

/-- The end of a block asks for nothing that it has changed. -/
theorem pairwise_calls_endBlock (orders : MapOrders) (proposer : Bytes) :
    ((BlockStep.endBlock orders proposer).calls P height committed).Pairwise
      (Undisturbed (store height) committed) := by
  have hunbond := @forall_calls_unbondUnstakingActors height committed orders.unbonding
  have hpause := @forall_calls_beginUnstakingMaxPausedActors height committed orders.pausing
  obtain ⟨rest, hrewards, hrest⟩ := @calls_handleProposerRewards height committed proposer
  rw [BlockStep.calls, BlockStep.program, calls_bind_pure]
  refine pairwise_calls_bind ?_ fun _ ws _ => ⟨pairwise_calls_bind (pairwise_of_end hunbond)
    fun _ ws _ => ⟨pairwise_of_end hpause, ?_⟩, ?_⟩
  · rw [hrewards]
    exact List.pairwise_cons.2 ⟨fun c _ => trivial, pairwise_of_end hrest⟩
  · exact fun c hc c' hc' => undisturbed_of_end (hunbond c hc) (hpause c' hc') fun _ => rfl
  · rw [hrewards]
    refine List.forall_mem_cons.2 ⟨fun c _ => trivial, fun c hc => ?_⟩
    exact forall_calls_bind (fun c' hc' => undisturbed_of_end (hrest c hc) (hunbond c' hc') id)
      fun _ c' hc' => undisturbed_of_end (hrest c hc) (hpause c' hc') fun _ => rfl

/-! ## Blocks -/

/-- No step asks for what an update of a step before it changes, where each is told the committed
state. -/
def Independent (P : Platform) (height : ℤ) (committed : Database) (steps : List BlockStep) : Prop :=
  steps.Pairwise fun step later => ∀ w q, .inr w ∈ step.calls P height committed →
    .inl q ∈ later.calls P height committed → Leaves (store height) committed w q

/-- The end of a block asks for the fees, so independent transactions pay none. -/
theorem fee_eq_zero {txs : List Transaction} {orders : MapOrders} {proposer : Bytes} {tx : Transaction}
    {index : ℤ} {msg : Message} {signer : Bytes} {fee : ℤ}
    (h : Independent P height committed (blockSteps txs orders proposer))
    (htx : .transaction tx index ∈ blockSteps txs orders proposer)
    (hcharged : Charged P height committed tx msg signer fee) : fee = 0 := by
  have hmem : BlockStep.transaction tx index ∈
      .beginBlock :: txs.mapIdx (fun i tx => .transaction tx i) := by
    simpa [blockSteps] using htx
  have hpaid : .inr (.addPool (hexEncode Pool.feeCollector.address) fee)
      ∈ (BlockStep.transaction tx index).calls P height committed := by
    refine mem_calls_bind (mem_calls_bind ?_)
    exact (mem_calls_of_plan (plan_basicValidateTransaction hcharged) _).2 (by simp [feeUpdates])
  have hleaves := (List.pairwise_append.1 h).2.2 _ hmem _ (List.mem_singleton_self _) _
    (.pool (hexEncode Pool.feeCollector.address)) hpaid (List.mem_cons_self ..) committed rfl
  have hamount := (Table.amount_upsert_self ..).symm.trans (Except.ok.inj hleaves)
  omega

/-- The steps with no call that fails. -/
def withoutFailures (steps : List BlockStep) : List (BlockStep × (ℕ → Option String)) :=
  steps.map fun step => (step, fun _ => none)

/-- Steps none of which asks for what calls before it change run alike. -/
theorem run_split_of_undisturbed (steps : List BlockStep) (done : List (Query ⊕ Update))
    {run : Option BlockRun} (hrun : ∀ r, run = some r → Agrees (store height) committed done r.db)
    (h : (done ++ steps.flatMap (BlockStep.calls P height committed)).Pairwise
      (Undisturbed (store height) committed)) :
    Runs.run (stepBlock P height fun _ => committed) run (withoutFailures steps)
      = Runs.run (stepBlock P height id) run (withoutFailures steps) := by
  induction steps generalizing done run with
  | nil => rfl
  | cons step steps ih =>
    rw [List.flatMap_cons, ← List.append_assoc] at h
    have hstep : stepBlock P height (fun _ => committed) run (step, fun _ => none)
        = stepBlock P height id run (step, fun _ => none) ∧
        ∀ r, stepBlock P height id run (step, fun _ => none) = some r →
          Agrees (store height) committed (done ++ step.calls P height committed) r.db := by
      cases run with
      | none => exact ⟨rfl, fun r hr => by cases hr⟩
      | some r =>
        obtain ⟨hexec, hend⟩ := exec_split_of_undisturbed (hrun r rfl) (List.pairwise_append.1 h).1
        refine ⟨by simp only [stepBlock, Option.bind_some, hexec], fun r' hr' => ?_⟩
        obtain ⟨⟨result, db'⟩, hdone, rfl⟩ := Option.map_eq_some_iff.1 hr'
        exact hend _ _ hdone
    exact (congrArg (Runs.run _ · _) hstep.1).trans (ih _ hstep.2 h)

/-- **A block in which no step asks for what a step before it changes ends with the same state and the
same results, whether reads see the block's own writes or only the committed state.** -/
theorem split_contexts_agree (P : Platform) (height : ℤ) (committed : Database)
    (txs : List Transaction) (orders : MapOrders) (proposer : Bytes)
    (h : Independent P height committed (blockSteps txs orders proposer)) :
    Runs.run (stepBlock P height fun _ => committed) (some ⟨committed, []⟩)
        (withoutFailures (blockSteps txs orders proposer))
      = Runs.run (stepBlock P height id) (some ⟨committed, []⟩)
        (withoutFailures (blockSteps txs orders proposer)) := by
  refine run_split_of_undisturbed _ [] (fun r hr q _ => ?_) ?_
  · cases hr
    rfl
  refine List.pairwise_flatMap.2 ⟨fun step hstep => ?_, h.imp fun hpair c hc c' hc' => ?_⟩
  · cases step with
    | beginBlock =>
      rw [BlockStep.calls, BlockStep.program, calls_bind_pure, beginBlock, calls_bind_pure]
      exact pairwise_of_end (forall_calls_getIntParam true _)
    | transaction tx index =>
      exact pairwise_calls_transaction (fun _ _ _ => fee_eq_zero h hstep) index
    | endBlock orders proposer => exact pairwise_calls_endBlock orders proposer
  · -- only a query after an update can be disturbed
    rcases c with q | w
    · trivial
    rcases c' with q | w'
    · exact hpair w q hc hc'
    · trivial

/-! ## Blocks with sends -/

/-- The steps of the block whose only transaction is the send, none of whose calls fails. -/
def sendBlock : List (BlockStep × (ℕ → Option String)) :=
  withoutFailures (blockSteps [ownerTx] ⟨allActors, allActors⟩ [3])

/-- With a fee of 10, the block of a send of 60 takes the signer from 100 to 30 and gives the
proposer 1.  When reads only see the committed state, the send writes over what the fee left
and the fee collector is read before the fee came in: the signer keeps 40, the proposer gets
nothing. -/
theorem split_contexts_refund_fee :
    let balances := fun run : BlockRun =>
      (run.db.accounts.amount "01" 2, run.db.accounts.amount "03" 2)
    let start := some ⟨blockDatabase "10", []⟩
    ownerTx.validateBasic sendSixty = .ok () ∧
    (Runs.run (stepBlock sendSixty 2 id) start sendBlock).map balances = some (30, 1) ∧
    (Runs.run (stepBlock sendSixty 2 fun _ => blockDatabase "10") start sendBlock).map balances
      = some (40, 0) := by
  decide

/-- A platform on which the owner of an address sends 20 from it to the next one. -/
def sendsOn : Platform where
  fromAny any := .ok (.utility (.send ⟨any.value, any.value.map (· + 1), "20"⟩))
  marshal _ := .ok [0]
  address pubKey := pubKey.take 1
  verify _ _ _ := true

def sendFrom (n : UInt8) : Transaction :=
  { ownerTx with
    msg := ⟨"type.googleapis.com/utility.Message", [n]⟩, signature := some ⟨List.replicate 32 n, [1]⟩ }

/-- Without a fee, a send of 20 from 02 to 03 and then one from 01 to 02 are the same in both, and
take the balances from 100, 50 and 0 to 80, 50 and 20. -/
theorem split_contexts_agree_without_fee :
    let steps := blockSteps [sendFrom 2, sendFrom 1] ⟨allActors, allActors⟩ [3]
    let start := some ⟨blockDatabase "0", []⟩
    Independent sendsOn 2 (blockDatabase "0") steps ∧
      (Runs.run (stepBlock sendsOn 2 id) start (withoutFailures steps)).map
        (fun run => ["01", "02", "03"].map (run.db.accounts.amount · 2)) = some [80, 50, 20] ∧
      Runs.run (stepBlock sendsOn 2 fun _ => blockDatabase "0") start (withoutFailures steps)
        = Runs.run (stepBlock sendsOn 2 id) start (withoutFailures steps) := by
  intro steps start
  have hspares : steps.Pairwise fun step later =>
      ∀ c ∈ step.calls sendsOn 2 (blockDatabase "0"), ∀ c' ∈ later.calls sendsOn 2 (blockDatabase "0"),
        ∀ w ∈ c.getRight?, ∀ q ∈ c'.getLeft?, spares 2 (blockDatabase "0") w q := by
    decide
  have hindependent : Independent sendsOn 2 (blockDatabase "0") steps := by
    refine hspares.imp fun h w q hw hq => leaves_of_spares ?_
    exact h _ hw _ hq w rfl q rfl
  exact ⟨hindependent, by decide, split_contexts_agree sendsOn 2 (blockDatabase "0") _ _ _ hindependent⟩

end Pocket.Utility
