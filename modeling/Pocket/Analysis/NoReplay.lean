import Pocket.Analysis.Attempts
import Pocket.Library.BatchLog

/-!
# No transaction is executed twice

The blocks of a node as batches of `BatchLog`: the key of a transaction is the hash of the
bytes it marshals to, and the index of transactions is the index of keys, because that is the
hash it is indexed under (`Host.hash`).  Every function that executes transactions runs some of
the ones it is offered, in order, and indexes each at the height of the unit of work (`Attempt`).

Nothing in that path asks the index about a transaction that is about to be executed.  Admission
to the mempool does, but with the hash of the bytes as they came, and what is in a proposal
need not come from a mempool.  So a transaction is executed at most once as long as proposals
and mempools are such that asking would have found nothing (`FreshBatch`).
-/

set_option autoImplicit false

namespace Pocket.Utility

open Model (Bytes)
open PipelineNode
open Persistence (Attempt OutcomeAttempt indexAll byHash_indexAll_of_mem
  byHash_indexAll_of_not_mem attempt_applyBlock attempt_createProposalBlock)

variable {X : Host} {height : ℤ} {α : Type} {event : PipelineEvent}

/-! ## The hashes of an attempt -/

/-- The height under which the index has a hash. -/
def TxIndex.heightOf (index : TxIndex) : Except String String → Option ℤ
  | .ok hash => (index.byHash hash).map (·.height)
  | .error _ => none

/-- The transactions that byte strings decode to. -/
def Host.decoded (X : Host) (txs : List Bytes) : List Transaction :=
  txs.filterMap fun bz => (X.unmarshal bz).toOption

section Attempts

variable {es : List (Persistence.Executed X height)}

/-- The executed transactions are those that their bytes decode to. -/
theorem decoded_map_bz (es : List (Persistence.Executed X height)) :
    X.decoded (es.map (·.bz)) = es.map (·.tx) := by
  simp [Host.decoded, List.filterMap_map, Persistence.Executed.unmarshal_eq, Except.toOption]

/-- A transaction that was executed is indexed under its hash. -/
theorem heightOf_indexAll_of_mem (index : TxIndex) {e : Persistence.Executed X height}
    (he : e ∈ es) : (indexAll index es).heightOf (X.hash e.tx) = some height := by
  obtain ⟨e', -, -, hfound⟩ := byHash_indexAll_of_mem index ⟨e, he, rfl⟩
  rw [e.hash_eq, TxIndex.heightOf, hfound, Option.map_some, e'.height_eq]

/-- Nothing else is indexed. -/
theorem heightOf_indexAll_of_not_mem {index : TxIndex} {k : Except String String}
    (hk : k ∉ (es.map (·.tx)).map X.hash) : (indexAll index es).heightOf k = index.heightOf k := by
  cases k with
  | error e => rfl
  | ok hash =>
    have hother : ∀ e ∈ es, e.hash ≠ hash := by
      rintro e he rfl
      exact hk (List.mem_map.2 ⟨e.tx, List.mem_map_of_mem he, e.hash_eq⟩)
    rw [TxIndex.heightOf, TxIndex.heightOf, byHash_indexAll_of_not_mem hother]

end Attempts

/-! ## Blocks as batches -/

/-- The node as a log of batches. -/
def PipelineNode.batches (n : PipelineNode) :
    BatchLog.State Transaction (Except String String) where
  round := n.height
  index := n.index.heightOf
  batch := (n.uow.map (·.executed)).getD []
  log := n.blocks

/-- If a unit of work is open, it has executed nothing; the transactions have pairwise different
hashes, and the index has none of these hashes from a lower height. -/
def FreshBatch (X : Host) (n : PipelineNode) (txs : List Transaction) : Prop :=
  match n.uow with
  | none => True
  | some uow => uow.executed = [] ∧ (txs.map X.hash).Nodup ∧
    ∀ tx ∈ txs, ∀ hash ∈ (X.hash tx).toOption, ∀ entry ∈ n.index.byHash hash,
      n.height ≤ entry.height

/-- A block is applied or created only with transactions that are new. -/
def OffersFresh (X : Host) (n : Option PipelineNode) (event : PipelineEvent) : Prop :=
  match n, event with
  | some n, .applyBlock _ proposal => FreshBatch X n (X.decoded proposal.txs)
  | some n, .createProposalBlock _ _ _ => FreshBatch X n (X.decoded n.mempool.queue)
  | _, _ => True

instance (n : PipelineNode) (txs : List Transaction) : Decidable (FreshBatch X n txs) :=
  match huow : n.uow with
  | none => decidable_of_iff True (by rw [FreshBatch, huow])
  | some uow => decidable_of_iff (uow.executed = [] ∧ (txs.map X.hash).Nodup ∧
      ∀ tx ∈ txs, ∀ hash ∈ (X.hash tx).toOption, ∀ entry ∈ n.index.byHash hash,
        n.height ≤ entry.height) (by rw [FreshBatch, huow])

instance : ∀ (n : Option PipelineNode) (event : PipelineEvent), Decidable (OffersFresh X n event)
  | none, _ => inferInstanceAs (Decidable True)
  | some _, .gossip _ _ => inferInstanceAs (Decidable True)
  | some _, .refresh => inferInstanceAs (Decidable True)
  | some _, .applyBlock _ _ => inferInstanceAs (Decidable (FreshBatch _ _ _))
  | some _, .createProposalBlock _ _ _ => inferInstanceAs (Decidable (FreshBatch _ _ _))
  | some _, .release => inferInstanceAs (Decidable True)
  | some _, .commit => inferInstanceAs (Decidable True)

/-- A unit of work that is offered fresh transactions adds a batch to the log, or there is none
open and nothing happens. -/
theorem step_onUow {n n' : PipelineNode} {f : BlockState → Outcome α} {offered : List Bytes}
    {txsOf : α → List Bytes}
    (hf : ∀ s, s.mempool = n.mempool → OutcomeAttempt X n.height offered txsOf s (f s))
    (hfresh : FreshBatch X n (X.decoded offered)) (h : n.onUow f = some n') :
    BatchLog.Step X.hash n.batches n'.batches ∨ n'.batches = n.batches := by
  rw [onUow] at h
  cases huow : n.uow with
  | none =>
    rw [huow] at h
    cases h
    exact .inr rfl
  | some uow =>
    rw [huow] at h
    rw [FreshBatch, huow] at hfresh
    obtain ⟨hempty, hhashes, hnew⟩ := hfresh
    obtain ⟨⟨r, s'⟩, hout, hn'⟩ := Option.map_eq_some_iff.1 h
    obtain ⟨es, hattempt, hsub, -⟩ := hf _ rfl r s' hout
    have hdone : (es.map (·.tx)).Sublist (X.decoded offered) :=
      decoded_map_bz es ▸ hsub.filterMap _
    have hindex : s'.index = indexAll n.index es := hattempt.index
    have hexecuted : s'.executed = uow.executed ++ es.map (·.tx) := hattempt.executed
    cases hn'
    left
    have hbatches : BatchLog.State.mk n.height s'.index.heightOf (es.map (·.tx)) n.blocks
        = batches { n with
            mempool := s'.mempool, index := s'.index, uow := some ⟨s'.db, s'.executed⟩ } := by
      simp [batches, hexecuted, hempty]
    rw [← hbatches]
    refine .run _ s'.index.heightOf ?_ (hhashes.sublist (hdone.map X.hash)) ?_ ?_ ?_
    · simp [batches, huow, hempty]
    · intro tx htx height hheight
      cases hhash : X.hash tx with
      | error e =>
        rw [hhash] at hheight
        cases hheight
      | ok hash =>
        rw [hhash] at hheight
        obtain ⟨entry, hentry, rfl⟩ := Option.map_eq_some_iff.1 hheight
        have hsome : hash ∈ (X.hash tx).toOption := by
          rw [hhash]
          rfl
        exact hnew tx (hdone.subset htx) hash hsome entry hentry
    · rw [List.forall_mem_map, hindex]
      exact fun e he => heightOf_indexAll_of_mem _ he
    · rw [hindex]
      exact fun k hk => heightOf_indexAll_of_not_mem hk

/-- Every event of a node is a step of its log of batches, or leaves it as it is. -/
theorem step_handle {n n' : PipelineNode} (hfresh : OffersFresh X (some n) event)
    (h : n.handle X event = some n') :
    BatchLog.Step X.hash n.batches n'.batches ∨ n'.batches = n.batches := by
  cases event with
  | gossip lookup bz =>
    right
    rw [handle] at h
    split at h
    · cases h
      rfl
    · cases h
      rfl
  | refresh =>
    cases h
    exact .inl .drop
  | applyBlock calls proposal => exact step_onUow (fun s _ => attempt_applyBlock proposal s) hfresh h
  | createProposalBlock calls proposer maxTxBytes =>
    exact step_onUow (fun s hs => hs ▸ attempt_createProposalBlock proposer maxTxBytes s) hfresh h
  | release =>
    cases h
    exact .inl .drop
  | commit =>
    rw [handle] at h
    cases huow : n.uow with
    | none =>
      rw [huow] at h
      cases h
      exact .inr rfl
    | some uow =>
      rw [huow] at h
      cases h
      have hbatch : (n.batches).batch = uow.executed := by simp [batches, huow]
      left
      have hstep : BatchLog.Step X.hash n.batches _ := .commit
      rw [hbatch] at hstep
      exact hstep

/-- A node at some height with whatever is committed, in its mempool and in its index. -/
def PipelineNode.start (height : ℤ) (committed : Database) (mempool : TxMempool)
    (index : TxIndex) : PipelineNode :=
  ⟨height, committed, [], mempool, index, none⟩

/-- The batches of a node that runs keep the invariant of the log. -/
def LoggedOnce (X : Host) (n : Option PipelineNode) : Prop :=
  ∀ m, n = some m → BatchLog.Invariant X.hash m.batches

theorem loggedOnce_step {n : Option PipelineNode} (hn : LoggedOnce X n)
    (hfresh : OffersFresh X n event) : LoggedOnce X (stepPipeline X n event) := by
  intro n' hn'
  obtain ⟨n, rfl, hhandle⟩ := Option.bind_eq_some_iff.1 hn'
  rcases step_handle hfresh hhandle with hstep | hsame
  · exact (hn n rfl).step hstep
  · rw [hsame]
    exact hn n rfl

/-- **In a run in which blocks are only applied or created with transactions that are new, no
transaction is executed in two committed blocks or twice in one.** -/
theorem no_replay (X : Host) (height : ℤ) (committed : Database) (mempool : TxMempool)
    (index : TxIndex) (events : List PipelineEvent)
    (hfresh : Runs.Guarded (stepPipeline X) (OffersFresh X)
      (some (.start height committed mempool index)) events) :
    ∀ n, Runs.run (stepPipeline X) (some (.start height committed mempool index)) events = some n →
      n.blocks.flatten.Nodup := by
  have hstart : LoggedOnce X (some (.start height committed mempool index)) := by
    rintro n ⟨⟩
    exact .start rfl rfl
  have hrun : LoggedOnce X (Runs.run (stepPipeline X)
      (some (.start height committed mempool index)) events) :=
    Runs.invariant_run (fun _ _ hn hoffer => loggedOnce_step hn hoffer) hstart hfresh
  exact fun n hn => (hrun n hn).nodup_log

/-! ## One transaction in two encodings -/

/-- The send of 60 is encoded by one zero or by two, and marshals to one. -/
def twoEncodings : Host where
  toPlatform := sendSixty
  unmarshal := fun bz => if bz = [0] ∨ bz = [0, 0] then .ok ownerTx else .error "no transaction"
  sha3 := id
  maxTxsBytesTotal := 100
  maxTxs := 10

/-- A block none of whose calls fails. -/
def quietCalls : BlockCalls where
  orders := ⟨allActors, allActors⟩
  beginFails := fun _ => none
  txFails := fun _ _ => none
  indexFails := fun _ => false
  endFails := fun _ => none
  stateHash := some "hash"

def twoEncodingsNode : PipelineNode := .start 2 (blockDatabase "0") .empty .empty

/-- A node that gets both encodings by gossip proposes, executes and commits both; and a proposal
with a transaction of the block before is applied like any other. -/
theorem transaction_runs_twice :
    let blocksAfter := fun events : List PipelineEvent =>
      (Runs.run (stepPipeline twoEncodings) (some twoEncodingsNode) events).map (·.blocks)
    let proposed := PipelineEvent.applyBlock quietCalls ⟨"hash", [3], [[0]]⟩
    blocksAfter [.gossip none [0], .gossip none [0, 0], .refresh,
        .createProposalBlock quietCalls [3] 100, .commit]
      = some [[ownerTx, ownerTx]] ∧
    blocksAfter [.refresh, proposed, .commit, .refresh, proposed, .commit]
      = some [[ownerTx], [ownerTx]] := by
  decide

/-- One encoding, gossiped, applied in a round that fails, and again in the next. -/
theorem transaction_runs_once :
    let proposed := PipelineEvent.applyBlock quietCalls ⟨"hash", [3], [[0]]⟩
    let events := [.gossip none [0], .refresh, proposed, .release, .refresh, proposed, .commit]
    Runs.Guarded (stepPipeline twoEncodings) (OffersFresh twoEncodings) (some twoEncodingsNode)
      events ∧
    ∀ n, Runs.run (stepPipeline twoEncodings) (some twoEncodingsNode) events = some n →
      n.blocks.flatten.Nodup := by
  intro proposed events
  have hfresh : Runs.Guarded (stepPipeline twoEncodings) (OffersFresh twoEncodings)
      (some twoEncodingsNode) events := by
    decide
  exact ⟨hfresh, no_replay twoEncodings 2 (blockDatabase "0") .empty .empty events hfresh⟩

end Pocket.Utility
