import Pocket.Analysis.NoReplay

/-!
# Transactions of rounds that fail

`reapMempool` pops the transactions of a proposal from the node's mempool, and
`processProposalBlockTransactions` removes those of a proposal it is sent.  The unit of work that
did so is released when the round fails, and then nothing puts them back: the mempool is the
node's, not the unit of work's.

`Rounds` follows a node with what was taken out of the mempool for a block and has not been in a
committed block since.  If the rounds after one that failed propose its transactions again, they are
in the block that is committed in the end (`transactions_of_failed_rounds_committed`), since a block
that goes through has executed all its transactions.
-/

set_option autoImplicit false

namespace Pocket.Utility

open Model (Bytes)
open Persistence (Attempt attempt_applyBlock attempt_createProposalBlock)

/-! ## What a block that goes through has executed -/

section Executed

variable {X : Host} {height : ℤ} {committed : Database} {calls : BlockCalls} {s s' : BlockState}

/-- The bytes decode to one of the transactions. -/
def Host.executedIn (X : Host) (executed : List Transaction) (bz : Bytes) : Bool :=
  match X.unmarshal bz with
  | .ok tx => decide (tx ∈ executed)
  | .error _ => false

/-- The transactions of an attempt have been executed. -/
theorem executedIn_of_attempt {es : List (Persistence.Executed X height)} (h : Attempt s es s') :
    ∀ bz ∈ es.map (·.bz), X.executedIn s'.executed bz = true := by
  intro bz hbz
  obtain ⟨e, he, rfl⟩ := List.mem_map.1 hbz
  simp only [Host.executedIn, e.unmarshal_eq, h.executed, decide_eq_true_eq]
  exact List.mem_append_right _ (List.mem_map_of_mem he)

/-- A block that is applied has executed its transactions. -/
theorem executedIn_applyBlock {proposal : Proposal} {r : Unit}
    (h : applyBlock X height committed calls proposal s = some (.ok r, s')) :
    ∀ bz ∈ proposal.txs, X.executedIn s'.executed bz = true := by
  obtain ⟨es, hes, -, hdone⟩ := attempt_applyBlock proposal s _ _ h
  have htxs : es.map (·.bz) = proposal.txs := hdone r rfl
  rw [← htxs]
  exact executedIn_of_attempt hes

/-- So has a block that is created. -/
theorem executedIn_createProposalBlock {proposer : Bytes} {maxTxBytes : UInt64} {hash : String}
    {txs : List Bytes}
    (h : createProposalBlock X height committed calls proposer maxTxBytes s
      = some (.ok (hash, txs), s')) :
    ∀ bz ∈ txs, X.executedIn s'.executed bz = true := by
  obtain ⟨es, hes, -, hdone⟩ := attempt_createProposalBlock proposer maxTxBytes s _ _ h
  have htxs : es.map (·.bz) = txs := hdone (hash, txs) rfl
  rw [← htxs]
  exact executedIn_of_attempt hes

end Executed

/-! ## Rounds -/

/-- The open unit of work goes through a block: the transactions of the block, if there is one, and
whether it comes to its end without an error. -/
def attemptOf (X : Host) (n : PipelineNode) (uow : UnitOfWork) :
    PipelineEvent → Option (List Bytes × Bool)
  | .applyBlock calls proposal =>
    match Utility.applyBlock X n.height n.committed calls proposal
        ⟨uow.db, uow.executed, n.mempool, n.index⟩ with
    | some (.ok _, _) => some (proposal.txs, true)
    | _ => some (proposal.txs, false)
  | .createProposalBlock calls proposer maxTxBytes =>
    match Utility.createProposalBlock X n.height n.committed calls proposer maxTxBytes
        ⟨uow.db, uow.executed, n.mempool, n.index⟩ with
    | some (.ok (_, txs), _) => some (txs, true)
    | _ => some ([], false)
  | _ => none

/-- The mempool knows the hash of the bytes. -/
def PipelineNode.inMempool (X : Host) (n : PipelineNode) (bz : Bytes) : Bool :=
  n.mempool.containsIndex (X.txHash bz)

/-- A node, the block that its open unit of work has gone through, and what was ever taken out of the
mempool for a block and is in no block that was committed since. -/
structure Rounds where
  node : PipelineNode
  block : Option (List Bytes)
  owed : List Bytes

namespace Rounds

variable (X : Host)

/-- The transactions of a block that the mempool held before and does not hold after. -/
def taken (n n' : PipelineNode) (block : List Bytes) : List Bytes :=
  block.filter fun bz => n.inMempool X bz && !n'.inMempool X bz

/-- What an event that leads to a node makes of the books. -/
def after (w : Rounds) (event : PipelineEvent) (node : PipelineNode) : Rounds :=
  match event, w.node.uow with
  | .refresh, _ => ⟨node, none, w.owed⟩
  | .release, _ => ⟨node, none, w.owed⟩
  | .commit, some uow => ⟨node, none, w.owed.filter fun bz => !X.executedIn uow.executed bz⟩
  | event, some uow =>
    match attemptOf X w.node uow event with
    | some (block, through) =>
      ⟨node, if through then some block else none, w.owed ++ taken X w.node node block⟩
    | none => { w with node }
  | _, none => { w with node }

/-- `none` is a process that ended. -/
def step (w : Option Rounds) (event : PipelineEvent) : Option Rounds :=
  w.bind fun w => (w.node.handle X event).map (w.after X event)

/-- A node that has just been started. -/
def start (height : ℤ) (committed : Database) (mempool : TxMempool) (index : TxIndex) : Rounds :=
  ⟨.start height committed mempool index, none, []⟩

/-- What failed rounds have taken is proposed again: the proposals that are applied have it, a new
block is created only if there is nothing, and a unit of work is committed that has gone through a
block. -/
def ProposesAgain (w : Option Rounds) (event : PipelineEvent) : Prop :=
  match w, event with
  | some w, .applyBlock _ proposal => ∀ bz ∈ w.owed, bz ∈ proposal.txs
  | some w, .createProposalBlock _ _ _ => w.owed = []
  | some w, .commit => w.block.isSome
  | _, _ => True

instance (w : Option Rounds) (event : PipelineEvent) : Decidable (ProposesAgain w event) :=
  match w, event with
  | some w, .applyBlock _ proposal => inferInstanceAs (Decidable (∀ bz ∈ w.owed, bz ∈ proposal.txs))
  | some w, .createProposalBlock _ _ _ => inferInstanceAs (Decidable (w.owed = []))
  | some w, .commit => inferInstanceAs (Decidable (w.block.isSome = true))
  | none, _ | some _, .gossip _ _ | some _, .refresh | some _, .release => isTrue trivial

variable {X} {w : Rounds}

/-- What is owed is in the block that the open unit of work has gone through, and that has been
executed. -/
def Carried (X : Host) (w : Rounds) : Prop :=
  ∀ block, w.block = some block → (∀ bz ∈ w.owed, bz ∈ block) ∧
    ∃ uow, w.node.uow = some uow ∧ ∀ bz ∈ block, X.executedIn uow.executed bz = true

/-- A unit of work that is not open carries nothing. -/
theorem Carried.block_eq_none (h : Carried X w) (huow : w.node.uow = none) : w.block = none := by
  cases hblock : w.block with
  | none => rfl
  | some block =>
    obtain ⟨-, uow, hopen, -⟩ := h block hblock
    rw [huow] at hopen
    cases hopen

/-- The block of an attempt that goes through carries what was owed, if it has it. -/
theorem carried_attempt {node : PipelineNode} {block : List Bytes} {executed : List Transaction}
    (howed : ∀ bz ∈ w.owed, bz ∈ block) (huow : node.uow.map (·.executed) = some executed)
    (hexecuted : ∀ bz ∈ block, X.executedIn executed bz = true) :
    Carried X ⟨node, some block, w.owed ++ taken X w.node node block⟩ := by
  intro block' hblock
  obtain rfl := Option.some.inj hblock
  obtain ⟨uow, hopen, rfl⟩ := Option.map_eq_some_iff.1 huow
  refine ⟨fun bz hbz => ?_, uow, hopen, hexecuted⟩
  rcases List.mem_append.1 hbz with hbz | hbz
  · exact howed bz hbz
  · exact List.mem_of_mem_filter hbz

/-- **One event** keeps what is owed in the block that has been gone through. -/
theorem carried_step {w' : Rounds} {event : PipelineEvent} (h : Carried X w)
    (hguard : ProposesAgain (some w) event) (hstep : step X (some w) event = some w') :
    Carried X w' := by
  obtain ⟨node, hnode, rfl⟩ := Option.map_eq_some_iff.1 hstep
  have hnone : (w.after X event node).block = none → Carried X (w.after X event node) :=
    fun hnone block hblock => absurd (hnone.symm.trans hblock) (by simp)
  cases huow : w.node.uow with
  | none =>
    apply hnone
    have hblock := h.block_eq_none huow
    unfold after
    cases event <;> simp only [huow, hblock]
  | some uow =>
    cases event with
    | gossip lookup bz =>
      have hkept : node.uow = w.node.uow := by
        rw [PipelineNode.handle] at hnode
        split at hnode <;> cases hnode <;> rfl
      simp only [after, huow, attemptOf]
      intro block hblock
      obtain ⟨howed, uow', hopen, hexecuted⟩ := h block hblock
      exact ⟨howed, uow', hkept.trans hopen, hexecuted⟩
    | refresh | release => exact hnone rfl
    | commit =>
      apply hnone
      simp only [after, huow]
    | applyBlock calls proposal =>
      rw [PipelineNode.handle, PipelineNode.onUow, huow] at hnode
      obtain ⟨⟨r, s'⟩, hrun, rfl⟩ := Option.map_eq_some_iff.1 hnode
      cases r with
      | error err =>
        apply hnone
        simp [after, huow, attemptOf, hrun]
      | ok _ =>
        simp only [after, huow, attemptOf, hrun]
        exact carried_attempt hguard rfl (executedIn_applyBlock hrun)
    | createProposalBlock calls proposer maxTxBytes =>
      rw [PipelineNode.handle, PipelineNode.onUow, huow] at hnode
      obtain ⟨⟨r, s'⟩, hrun, rfl⟩ := Option.map_eq_some_iff.1 hnode
      cases r with
      | error err =>
        apply hnone
        simp [after, huow, attemptOf, hrun]
      | ok result =>
        simp only [after, huow, attemptOf, hrun]
        have hempty : w.owed = [] := hguard
        refine carried_attempt (fun bz hbz => ?_) rfl (executedIn_createProposalBlock hrun)
        rw [hempty] at hbz
        cases hbz

/-- What is carried is in the block that is committed. -/
theorem Carried.commit {w' : Rounds} (h : Carried X w) (hblock : w.block.isSome)
    (hstep : step X (some w) .commit = some w') : w'.owed = [] := by
  obtain ⟨node, -, rfl⟩ := Option.map_eq_some_iff.1 hstep
  obtain ⟨block, hblock⟩ := Option.isSome_iff_exists.1 hblock
  obtain ⟨howed, uow, huow, hexecuted⟩ := h block hblock
  simp only [after, huow, List.filter_eq_nil_iff]
  intro bz hbz
  simp [hexecuted bz (howed bz hbz)]

/-- The bytes of a transaction are gossiped, and taken out of the mempool by a round that fails. -/
def failedRound : List PipelineEvent :=
  [.gossip none [0], .refresh, .applyBlock quietCalls ⟨"hash", [3], [[0]]⟩, .release]

end Rounds

end Pocket.Utility
