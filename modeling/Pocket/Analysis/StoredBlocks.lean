import Pocket.Analysis.NoReplay
import Pocket.Analysis.Restart
import Pocket.Persistence.BlockStorage

/-!
# The stored block and the proposal

`prepareBlock` takes the transactions of the block from the index, where a unit of work has put
them one position after the other (`Attempt`).  Units of work at the same height write to the same
positions, and a released one takes nothing back: the block that is stored has the transactions of
the last unit of work at the first positions, and those of longer attempts after them.

* `Watched` is a node together with how far its units of work got at the current height, what they
  ran, and the block the open one has run to its end.
* `Watched.Sound` is what the index is then known to hold.
* The stored block is the proposal exactly under `StoresProposal`.
-/

set_option autoImplicit false

namespace Pocket.Persistence

open Model (Bytes)
open Utility IndexedTransaction
open Text (hexEncode hexDecode hexDecode_hexEncode hexEncode_injective)

/-! ## The positions of an attempt -/

section Index

variable {B : Backend} {height : ℤ} {index : TxIndex} {es : List (Executed B.toHost height)}

/-- The positions of the height hold the hashes of the attempt, and past its end what they held. -/
theorem refs_indexAll (index : TxIndex)
    (hpositions : ∀ (j : ℕ) e, es[j]? = some e → e.idxTx.index = j) (H : ℤ) (j : ℕ) :
    (indexAll index es).refs (.height H j)
      = if H = height then (es[j]?.map Executed.hash).or (index.refs (.height H j))
        else index.refs (.height H j) := by
  induction es using List.reverseRecOn with
  | nil => exact (ite_self _).symm
  | append_singleton es e ih =>
    have hbefore : ∀ (j : ℕ) e', es[j]? = some e' → e'.idxTx.index = j := by
      intro j e' he'
      have hj : j < es.length := (List.getElem?_eq_some_iff.1 he').1
      exact hpositions j e' (by rw [List.getElem?_append_left hj, he'])
    have hlast : e.idxTx.index = es.length := hpositions es.length e List.getElem?_concat_length
    rw [indexAll_snoc, refs_index, ih hbefore, e.height_eq, hlast]
    by_cases hH : H = height
    · rw [if_pos hH, if_pos hH]
      by_cases hj : j = es.length
      · rw [if_pos ⟨hH, congrArg _ hj⟩, hj, List.getElem?_concat_length]
        rfl
      · rw [if_neg fun h => hj (Int.ofNat.inj h.2)]
        rcases lt_or_gt_of_ne hj with hlt | hgt
        · rw [List.getElem?_append_left hlt]
        · have hlength : (es ++ [e]).length ≤ j := by
            rw [List.length_append]
            exact hgt
          rw [List.getElem?_eq_none hlength, List.getElem?_eq_none hgt.le]
    · rw [if_neg hH, if_neg hH, if_neg fun h => hH h.1]

theorem indexSound_indexAll (h : IndexSound index) : IndexSound (indexAll index es) := by
  induction es using List.reverseRecOn with
  | nil => exact h
  | append_singleton es e ih =>
    rw [indexAll_snoc]
    exact indexSound_index ih e.idxTx

end Index

/-! ## A node and what its units of work have done -/

/-- `reached` is how many positions were indexed at the height of the node, `ran` are the
transactions that were executed at any height, and `proposal` are those of the block that the open
unit of work has run to its end. -/
structure Watched where
  state : StoringNode
  reached : ℕ
  ran : List Transaction
  proposal : Option (List Bytes)

/-- What the open unit of work has executed. -/
def executedBy (n : PipelineNode) : List Transaction := (n.uow.map UnitOfWork.executed).getD []

/-- The transactions of the block, if it runs to its end. -/
def proposalOf (X : Host) (n : PipelineNode) (event : PipelineEvent) : Option (List Bytes) :=
  n.uow.bind fun uow =>
    let s : BlockState := ⟨uow.db, uow.executed, n.mempool, n.index⟩
    match event with
    | .applyBlock calls proposal =>
      match applyBlock X n.height n.committed calls proposal s with
      | some (.ok (), _) => some proposal.txs
      | _ => none
    | .createProposalBlock calls proposer maxTxBytes =>
      match createProposalBlock X n.height n.committed calls proposer maxTxBytes s with
      | some (.ok (_, txs), _) => some txs
      | _ => none
    | _ => none

namespace Watched

/-- The open unit of work has gone through a block. -/
def attempted (w : Watched) (state : StoringNode) (proposal : Option (List Bytes)) : Watched :=
  let done := (executedBy state.node).drop (executedBy w.state.node).length
  ⟨state, max w.reached done.length, w.ran ++ done, proposal⟩

/-- What is known of the node after an event that leaves it in `state`. -/
def after (X : Host) (w : Watched) (event : PipelineEvent) (state : StoringNode) : Watched :=
  match event with
  | .gossip _ _ => { w with state }
  | .refresh => { w with state, proposal := none }
  | .release => { w with state, proposal := none }
  | .applyBlock _ _ => w.attempted state (proposalOf X w.state.node event)
  | .createProposalBlock _ _ _ => w.attempted state (proposalOf X w.state.node event)
  | .commit =>
    if state.node.height = w.state.node.height then { w with state } else ⟨state, 0, w.ran, none⟩

/-- `none` is a process that ended. -/
def step (B : Backend) (w : Option Watched) (event : PipelineEvent × Seal) : Option Watched :=
  w.bind fun w => (w.state.handle B event.1 event.2).map (w.after B.toHost event.1)

/-- A node with its genesis block, before anything is executed. -/
def start (genesisHash : String) (genesis : Model.Block) (committed : Database)
    (mempool : TxMempool) : Watched :=
  ⟨.start genesisHash genesis committed mempool, 0, [], none⟩

variable {B : Backend} {w w' : Watched} {α : Type} {f : ℕ → Option α}

/-- The transactions of the open unit of work's block are at the first positions, and under their
hashes are transactions of the block. -/
def Proposed (B : Backend) (n : PipelineNode) (txs : List Bytes) : Prop :=
  ∃ es : List (Executed B.toHost n.height), es.map Executed.bz = txs ∧
    (∀ (j : ℕ) e, es[j]? = some e → n.index.refs (.height n.height j) = some e.hash) ∧
    ∀ e ∈ es, ∃ e' ∈ es, e'.hash = e.hash ∧ n.index.byHash e.hash = some e'.idxTx

/-- What holds of a node over its whole run: its heights, its block store and its index belong
together. -/
structure Sound (B : Backend) (w : Watched) : Prop where
  heights : ∀ H, H ∈ w.state.blocks.map Prod.fst ↔ 0 ≤ H ∧ H < w.state.node.height
  positive : 0 < w.state.node.height
  stored : ∀ H, w.state.blockStore H ≠ none → H < w.state.node.height
  index : IndexSound w.state.node.index
  positions : ∀ j : ℕ,
    (w.state.node.index.refs (.height w.state.node.height j)).isSome ↔ j < w.reached
  above : ∀ H > w.state.node.height, ∀ j : ℕ, w.state.node.index.refs (.height H j) = none
  ran : ∀ tx ∈ w.ran, ∃ hash, B.hash tx = .ok hash
  hashes : ∀ hash, (w.state.node.index.byHash hash).isSome ↔
    ∃ tx ∈ w.ran, B.hash tx = .ok hash
  proposal : ∀ txs, w.proposal = some txs →
    w.state.node.uow.isSome ∧ txs.length ≤ w.reached ∧ Proposed B w.state.node txs

theorem sound_start (genesisHash : String) (genesis : Model.Block) (committed : Database)
    (mempool : TxMempool) : Sound B (start genesisHash genesis committed mempool) := by
  refine ⟨fun H => ?_, Int.one_pos, fun H hH => ?_, fun _ _ _ h => (nomatch h), fun j => ?_,
    fun _ _ _ => rfl, fun _ h => (nomatch h), fun hash => ?_, fun _ h => (nomatch h)⟩
  · show H ∈ [(0 : ℤ)] ↔ 0 ≤ H ∧ H < 1
    rw [List.mem_singleton]
    omega
  · by_contra hlt
    have hne : H ≠ 0 := by
      rintro rfl
      exact hlt Int.one_pos
    have hnone : Function.update (fun _ : ℤ => (none : Option Model.Block)) 0 (some genesis) H = none :=
      Function.update_of_ne hne _ _
    exact hH hnone
  · exact iff_of_false (fun h => by cases h) (Nat.not_lt_zero j)
  · refine iff_of_false (fun h => by cases h) ?_
    rintro ⟨tx, htx, -⟩
    cases htx

section

variable (hw : Sound B w)
include hw

/-- **One block** of the open unit of work, whatever becomes of it. -/
theorem sound_attempted {f : BlockState → Outcome α} {offered : BlockState → List Bytes}
    {txsOf : α → List Bytes} {node : PipelineNode} {proposal : Option (List Bytes)}
    (hf : ∀ s, OutcomeAttempt B.toHost w.state.node.height (offered s) txsOf s (f s))
    (hnode : w.state.node.onUow f = some node)
    (hproposal : ∀ txs, proposal = some txs → ∃ uow a s', w.state.node.uow = some uow ∧
      f ⟨uow.db, uow.executed, w.state.node.mempool, w.state.node.index⟩ = some (.ok a, s') ∧
      txsOf a = txs) : Sound B (w.attempted { w.state with node } proposal) := by
  rw [PipelineNode.onUow] at hnode
  cases huow : w.state.node.uow with
  | none =>
    rw [huow] at hnode
    cases hnode
    show Sound B (w.attempted w.state proposal)
    rw [attempted, List.drop_length, List.length_nil, Nat.max_zero, List.append_nil]
    refine ⟨hw.heights, hw.positive, hw.stored, hw.index, hw.positions, hw.above, hw.ran, hw.hashes,
      fun txs htxs => ?_⟩
    obtain ⟨uow, _, _, hopen, -⟩ := hproposal txs htxs
    rw [huow] at hopen
    cases hopen
  | some uow =>
    rw [huow] at hnode
    obtain ⟨⟨r, s'⟩, hout, hn'⟩ := Option.map_eq_some_iff.1 hnode
    obtain ⟨es, hattempt, -, hend⟩ := hf _ r s' hout
    cases hn'
    have hdone : s'.executed.drop (executedBy w.state.node).length = es.map Executed.tx := by
      rw [hattempt.executed, executedBy, huow]
      exact List.drop_left
    have hindex : s'.index = indexAll w.state.node.index es := hattempt.index
    have hrefs := refs_indexAll w.state.node.index hattempt.positions
    show Sound B ⟨_, max w.reached (s'.executed.drop _).length, w.ran ++ s'.executed.drop _, proposal⟩
    rw [hdone, List.length_map]
    refine ⟨hw.heights, hw.positive, hw.stored, ?_, fun j => ?_, fun H hH j => ?_, fun tx htx => ?_,
      fun hash => ?_, fun txs htxs => ?_⟩
    · show IndexSound s'.index
      rw [hindex]
      exact indexSound_indexAll hw.index
    · show (s'.index.refs _).isSome ↔ j < max w.reached es.length
      rw [hindex, hrefs, if_pos rfl, Option.isSome_or, Bool.or_eq_true, Option.isSome_map,
        hw.positions j, isSome_getElem?, lt_max_iff]
      omega
    · show s'.index.refs _ = none
      rw [hindex, hrefs, if_neg (ne_of_gt hH)]
      exact hw.above H hH j
    · rcases List.mem_append.1 htx with htx | htx
      · exact hw.ran tx htx
      · obtain ⟨e, -, rfl⟩ := List.mem_map.1 htx
        exact ⟨e.hash, e.hash_eq⟩
    · show (s'.index.byHash hash).isSome ↔ _
      rw [hindex, isSome_byHash_indexAll, hw.hashes]
      constructor
      · rintro (⟨tx, htx, hhash⟩ | ⟨e, he, rfl⟩)
        · exact ⟨tx, List.mem_append_left _ htx, hhash⟩
        · exact ⟨e.tx, List.mem_append_right _ (List.mem_map_of_mem he), e.hash_eq⟩
      · rintro ⟨tx, htx, hhash⟩
        rcases List.mem_append.1 htx with htx | htx
        · exact .inl ⟨tx, htx, hhash⟩
        · obtain ⟨e, he, rfl⟩ := List.mem_map.1 htx
          exact .inr ⟨e, he, Except.ok.inj (e.hash_eq.symm.trans hhash)⟩
    · obtain ⟨uow', a, s'', hopen, hrun, rfl⟩ := hproposal txs htxs
      cases Option.some.inj (huow.symm.trans hopen)
      cases Option.some.inj (hout.symm.trans hrun)
      have hbytes := hend a rfl
      refine ⟨rfl, ?_, es, hbytes, fun j e he => ?_, fun e he => ?_⟩
      · rw [← hbytes, List.length_map]
        exact Nat.le_max_right _ _
      · show s'.index.refs _ = some e.hash
        rw [hindex, hrefs, if_pos rfl, he]
        rfl
      · show ∃ e' ∈ es, e'.hash = e.hash ∧ s'.index.byHash e.hash = some e'.idxTx
        rw [hindex]
        exact byHash_indexAll_of_mem _ ⟨e, he, rfl⟩

/-- A commit of an open unit of work succeeds, and stores what the index holds at the height. -/
theorem exists_commit {uow : UnitOfWork} (huow : w.state.node.uow = some uow) (sealing : Seal) :
    ∃ block idxTxs hash, getByHeight w.state.node.index w.state.node.height = .ok idxTxs ∧
      block.transactions = idxTxs.map tx ∧
      w.state.handle B .commit sealing = some
        ⟨{ w.state.node with
            height := w.state.node.height + 1
            committed := uow.db
            blocks := w.state.node.blocks ++ [uow.executed]
            uow := none },
          w.state.blocks ++ [(w.state.node.height, hash)],
          Function.update w.state.blockStore w.state.node.height (some block)⟩ := by
  have hpositive := hw.positive
  have hctx : (w.state.persistence uow sealing.stateHash).writeContext
      = some ⟨w.state.node.height, ⟨uow.db, .empty⟩, sealing.stateHash⟩ := rfl
  have hprevious : w.state.node.height = 0 ∨
      w.state.node.height - 1 ∈ w.state.blocks.map Prod.fst := by
    right
    rw [hw.heights]
    omega
  have hnew : w.state.node.height ∉ w.state.blocks.map Prod.fst := by
    rw [hw.heights]
    omega
  obtain ⟨block, idxTxs, hidxTxs, htxs, hcommit⟩ := PersistenceModule.exists_commit (B := B) hctx
    hw.index hprevious hnew sealing.proposerAddr sealing.quorumCert sealing.now
  refine ⟨block, idxTxs, sealing.stateHash, hidxTxs, htxs, ?_⟩
  rw [StoringNode.handle, StoringNode.commit, huow]
  simp only [hcommit]
  rw [PipelineNode.handle, huow]
  rfl

/-- Events other than blocks and commits change what is in the mempool or which unit of work is
open. -/
theorem sound_kept {node : PipelineNode} {proposal : Option (List Bytes)}
    (hheight : node.height = w.state.node.height) (hindex : node.index = w.state.node.index)
    (hproposal : ∀ txs, proposal = some txs → w.proposal = some txs ∧ node.uow = w.state.node.uow) :
    Sound B { w with state := { w.state with node }, proposal } := by
  refine ⟨?_, ?_, ?_, ?_, ?_, ?_, hw.ran, ?_, fun txs htxs => ?_⟩
  · show ∀ H, _ ↔ 0 ≤ H ∧ H < node.height
    rw [hheight]
    exact hw.heights
  · show 0 < node.height
    rw [hheight]
    exact hw.positive
  · show ∀ H, _ → H < node.height
    rw [hheight]
    exact hw.stored
  · show IndexSound node.index
    rw [hindex]
    exact hw.index
  · show ∀ j : ℕ, (node.index.refs (.height node.height j)).isSome ↔ _
    rw [hheight, hindex]
    exact hw.positions
  · show ∀ H > node.height, ∀ j : ℕ, node.index.refs (.height H j) = none
    rw [hheight, hindex]
    exact hw.above
  · show ∀ hash, (node.index.byHash hash).isSome ↔ _
    rw [hindex]
    exact hw.hashes
  · obtain ⟨hold, huow⟩ := hproposal txs htxs
    obtain ⟨hopen, hlength, hproposed⟩ := hw.proposal txs hold
    refine ⟨?_, hlength, ?_⟩
    · show node.uow.isSome
      rw [huow]
      exact hopen
    · show Proposed B node txs
      rw [Proposed, hheight, hindex]
      exact hproposed

/-- A commit keeps the node sound: at the height after it no position is filled yet. -/
theorem sound_commit {sealing : Seal} {state : StoringNode}
    (hstate : w.state.handle B .commit sealing = some state) :
    Sound B (w.after B.toHost .commit state) := by
  cases huow : w.state.node.uow with
  | none =>
    rw [StoringNode.handle, StoringNode.commit, huow] at hstate
    cases hstate
    rw [after, if_pos rfl]
    exact hw
  | some uow =>
    obtain ⟨block, _, hash, -, -, hcommit⟩ := exists_commit hw huow sealing
    rw [hcommit] at hstate
    cases hstate
    have hpositive := hw.positive
    have hheight : ¬ w.state.node.height + 1 = w.state.node.height := by omega
    rw [after, if_neg hheight]
    refine ⟨fun H => ?_, ?_, fun H hH => ?_, hw.index, fun j => ?_, fun H hH j => ?_, hw.ran,
      hw.hashes, fun _ h => by cases h⟩
    · show H ∈ (w.state.blocks ++ [(w.state.node.height, hash)]).map Prod.fst ↔
        0 ≤ H ∧ H < w.state.node.height + 1
      rw [List.map_append, List.mem_append, hw.heights]
      show _ ∨ H ∈ [w.state.node.height] ↔ _
      rw [List.mem_singleton]
      omega
    · show 0 < w.state.node.height + 1
      omega
    · show H < w.state.node.height + 1
      by_cases hlast : H = w.state.node.height
      · omega
      · have hbefore : w.state.blockStore H ≠ none := by
          have hsame : Function.update w.state.blockStore w.state.node.height (some block) H
              = w.state.blockStore H := Function.update_of_ne hlast _ _
          rw [← hsame]
          exact hH
        have hlt := hw.stored H hbefore
        omega
    · show (w.state.node.index.refs (.height (w.state.node.height + 1) j)).isSome ↔ j < 0
      rw [hw.above _ (lt_add_one _) j]
      exact iff_of_false Bool.false_ne_true (Nat.not_lt_zero j)
    · have habove : H > w.state.node.height := lt_trans (lt_add_one _) hH
      exact hw.above H habove j

/-- Every event of a run keeps the node sound. -/
theorem sound_step {event : PipelineEvent × Seal} (h : step B (some w) event = some w') :
    Sound B w' := by
  obtain ⟨state, hstate, rfl⟩ := Option.map_eq_some_iff.1 h
  obtain ⟨event, sealing⟩ := event
  cases event with
  | gossip lookup bz =>
    obtain ⟨node, hnode, rfl⟩ := Option.map_eq_some_iff.1 hstate
    rw [PipelineNode.handle] at hnode
    split at hnode
    · cases hnode
      exact sound_kept hw rfl rfl fun _ h => ⟨h, rfl⟩
    · cases hnode
      exact hw
  | refresh | release =>
    cases hstate
    exact sound_kept hw rfl rfl fun _ h => by cases h
  | applyBlock calls proposal =>
    obtain ⟨node, hnode, rfl⟩ := Option.map_eq_some_iff.1 hstate
    refine sound_attempted hw (fun s => attempt_applyBlock proposal s) hnode fun txs htxs => ?_
    obtain ⟨uow, huow, htxs⟩ := Option.bind_eq_some_iff.1 htxs
    simp only at htxs
    split at htxs
    · next s' hrun => exact ⟨uow, (), s', huow, hrun, Option.some.inj htxs⟩
    · cases htxs
  | createProposalBlock calls proposer maxTxBytes =>
    obtain ⟨node, hnode, rfl⟩ := Option.map_eq_some_iff.1 hstate
    refine sound_attempted hw (fun s => attempt_createProposalBlock proposer maxTxBytes s) hnode
      fun txs htxs => ?_
    obtain ⟨uow, huow, htxs⟩ := Option.bind_eq_some_iff.1 htxs
    simp only at htxs
    split at htxs
    · next stateHash txs' s' hrun =>
      exact ⟨uow, (stateHash, txs'), s', huow, hrun, Option.some.inj htxs⟩
    · cases htxs
  | commit => exact sound_commit hw hstate

end

/-- **Every node that runs** is sound. -/
theorem sound_run {genesisHash : String} {genesis : Model.Block} {committed : Database}
    {mempool : TxMempool} {events : List (PipelineEvent × Seal)}
    (hrun : Runs.run (step B) (some (start genesisHash genesis committed mempool)) events = some w) :
    Sound B w := by
  have hstep : ∀ o event, (∀ w, o = some w → Sound B w) →
      ∀ w, step B o event = some w → Sound B w := by
    intro o event ho w' hw'
    obtain ⟨w, rfl, -⟩ := Option.bind_eq_some_iff.1 hw'
    exact sound_step (ho w rfl) hw'
  refine Runs.invariant_run_of_step hstep ?_ events w hrun
  rintro w' ⟨⟩
  exact sound_start genesisHash genesis committed mempool

/-! ## The transactions of the stored block -/

/-- What the index leads to at a position of the height. -/
def contentAt (index : TxIndex) (height : ℤ) (j : ℕ) : Option Bytes :=
  (index.refs (.height height j)).bind fun hash => (index.byHash hash).map tx

/-- The entries of a height are read position by position, and empty positions are left out. -/
theorem tx_of_getByHeight {index : TxIndex} {height : ℤ} {idxTxs : List IndexedTransaction}
    (h : getByHeight index height = .ok idxTxs) :
    idxTxs.map tx
      = (List.range positionCount).filterMap (contentAt index height) := by
  have hread : idxTxs.map tx = (hashKeysAt index height).filterMap
      fun hash => (index.byHash hash).map tx := by
    refine StoreProgram.map_eq_filterMap_of_mapM_eq_ok h fun hash idxTx hok => ?_
    split at hok
    · rename_i stored hstored
      rw [hstored, Except.ok.inj hok, Option.map_some]
    · cases hok
  rw [hread, hashKeysAt, List.filterMap_filterMap]
  rfl

/-- A partial function on an initial segment, as a list. -/
theorem getElem?_filterMap_range {n : ℕ} (hf : ∀ j, (f j).isSome ↔ j < n) (p : ℕ) :
    ((List.range p).filterMap f).length = min n p ∧
      ∀ j < min n p, ((List.range p).filterMap f)[j]? = f j := by
  induction p with
  | zero => exact ⟨(Nat.min_zero n).symm, fun j hj => by omega⟩
  | succ p ih =>
    obtain ⟨hlength, helem⟩ := ih
    rw [List.range_succ, List.filterMap_append]
    by_cases hp : p < n
    · obtain ⟨a, ha⟩ := Option.isSome_iff_exists.1 ((hf p).2 hp)
      have hmin : min n p = p := by omega
      have hmin' : min n (p + 1) = p + 1 := by omega
      rw [List.filterMap_cons_some ha, List.filterMap_nil, hmin']
      rw [hmin] at hlength helem
      refine ⟨by rw [List.length_append, hlength]; rfl, fun j hj => ?_⟩
      rcases Nat.lt_succ_iff_lt_or_eq.1 hj with hlt | rfl
      · rw [List.getElem?_append_left (by omega)]
        exact helem j hlt
      · have hlast : ((List.range j).filterMap f ++ [a])[((List.range j).filterMap f).length]?
            = some a := List.getElem?_concat_length
        rw [hlength] at hlast
        rw [hlast, ha]
    · have hnone : f p = none := by
        rw [← Option.not_isSome_iff_eq_none, hf]
        exact hp
      have hmin : min n (p + 1) = min n p := by omega
      rw [List.filterMap_cons_none hnone, List.filterMap_nil, List.append_nil, hmin]
      exact ⟨hlength, helem⟩

theorem filterMap_range_eq_iff {n : ℕ} (hf : ∀ j, (f j).isSome ↔ j < n) (p : ℕ) (l : List α) :
    (List.range p).filterMap f = l ↔ min n p = l.length ∧ ∀ j < l.length, f j = l[j]? := by
  obtain ⟨hlength, helem⟩ := getElem?_filterMap_range hf p
  constructor
  · rintro rfl
    refine ⟨hlength.symm, fun j hj => ?_⟩
    rw [hlength] at hj
    exact (helem j hj).symm
  · rintro ⟨hmin, hall⟩
    refine List.ext_getElem? fun j => ?_
    by_cases hj : j < l.length
    · rw [helem j (hmin ▸ hj), hall j hj]
    · rw [List.getElem?_eq_none (by omega), List.getElem?_eq_none (by omega)]

/-- A position of the open height is filled if and only if some attempt got that far. -/
theorem isSome_contentAt (hw : Sound B w) (j : ℕ) :
    (contentAt w.state.node.index w.state.node.height j).isSome ↔ j < w.reached := by
  rw [← hw.positions j, contentAt]
  cases hhash : w.state.node.index.refs (.height w.state.node.height j) with
  | none => exact Iff.rfl
  | some hash =>
    have hfound : (w.state.node.index.byHash hash).isSome := hw.index _ _ _ hhash
    rw [Option.bind_some, Option.isSome_map, hfound]
    exact Iff.rfl

/-- The first positions hold the proposal when its bytes are those that its transactions marshal
to, and none of them shares the hash of another. -/
theorem Proposed.content_iff {n : PipelineNode} {txs : List Bytes} (h : Proposed B n txs) :
    (∀ j < txs.length, contentAt n.index n.height j = txs[j]?) ↔
      (∀ bz ∈ txs, (B.unmarshal bz).bind B.marshal = .ok bz) ∧
      ∀ bz ∈ txs, ∀ bz' ∈ txs, B.txHash bz = B.txHash bz' → bz = bz' := by
  obtain ⟨es, rfl, hrefs, hfound⟩ := h
  -- what is read at a position is an entry under the same hash
  have hcontent : ∀ (j : ℕ) e, es[j]? = some e → ∀ e' : Executed B.toHost n.height,
      n.index.byHash e.hash = some e'.idxTx →
        contentAt n.index n.height j = some e'.idxTx.tx := by
    intro j e he e' he'
    rw [contentAt, hrefs j e he, Option.bind_some, he']
    rfl
  constructor
  · intro hall
    have hread : ∀ e ∈ es, ∀ e' : Executed B.toHost n.height,
        n.index.byHash e.hash = some e'.idxTx → e'.idxTx.tx = e.bz := by
      intro e he e' he'
      obtain ⟨j, hj⟩ := List.mem_iff_getElem?.1 he
      have hlt : j < (es.map Executed.bz).length := by
        rw [List.length_map]
        exact (List.getElem?_eq_some_iff.1 hj).1
      have heq := hall j hlt
      rw [hcontent j e hj e' he', List.getElem?_map, hj] at heq
      exact Option.some.inj heq
    have hcanonical : ∀ e ∈ es, e.idxTx.tx = e.bz := by
      intro e he
      obtain ⟨e', he', hhash, hbyHash⟩ := hfound e he
      have htx : e'.idxTx.tx = e.bz := hread e he e' hbyHash
      have htx' : e'.idxTx.tx = e'.bz := hread e' he' e' (hhash ▸ hbyHash)
      have hmarshal := e'.canonical_eq
      rw [← htx', htx, e.canonical_eq] at hmarshal
      exact Except.ok.inj hmarshal
    refine ⟨fun bz hbz => ?_, fun bz hbz bz' hbz' hhash => ?_⟩
    · obtain ⟨e, he, rfl⟩ := List.mem_map.1 hbz
      rw [e.canonical_eq, hcanonical e he]
    · obtain ⟨e, he, rfl⟩ := List.mem_map.1 hbz
      obtain ⟨e', he', rfl⟩ := List.mem_map.1 hbz'
      have hsame : e.hash = e'.hash := by
        rw [Executed.hash, Executed.hash, hcanonical e he, hcanonical e' he']
        exact hhash
      obtain ⟨e₁, -, -, hbyHash⟩ := hfound e he
      rw [← hread e he e₁ hbyHash]
      exact hread e' he' e₁ (hsame ▸ hbyHash)
  · rintro ⟨hcanonical, hdistinct⟩ j hj
    rw [List.length_map] at hj
    have he : es[j]? = some es[j] := List.getElem?_eq_getElem hj
    have hmem : es[j] ∈ es := List.getElem_mem hj
    obtain ⟨e', he', hhash, hbyHash⟩ := hfound es[j] hmem
    have hbytes : ∀ e ∈ es, e.idxTx.tx = e.bz := by
      intro e he
      have hbz := hcanonical e.bz (List.mem_map_of_mem he)
      rw [e.canonical_eq] at hbz
      exact Except.ok.inj hbz
    rw [hcontent j _ he e' hbyHash, List.getElem?_map, he, Option.map_some, hbytes e' he']
    refine congrArg some (hdistinct _ (List.mem_map_of_mem he') _ (List.mem_map_of_mem hmem) ?_)
    rw [Executed.hash, Executed.hash, hbytes e' he', hbytes _ hmem] at hhash
    exact hhash

/-- A transaction with the hash is in a stored block. -/
def HasHash (B : Backend) (blockStore : ℤ → Option Model.Block) (hash : Except String String) :
    Prop :=
  ∃ height block, blockStore height = some block ∧
    ∃ bz ∈ block.transactions, hash = .ok (B.txHash bz)

/-- No attempt at the height got further than the proposal, the bytes of the proposal are those
that its transactions marshal to, with hashes of their own, and whatever was run at any height is
in a block or in the proposal. -/
structure StoresProposal (B : Backend) (w : Watched) (txs : List Bytes) : Prop where
  reached : min w.reached positionCount = txs.length
  canonical : ∀ bz ∈ txs, (B.unmarshal bz).bind B.marshal = .ok bz
  distinct : ∀ bz ∈ txs, ∀ bz' ∈ txs, B.txHash bz = B.txHash bz' → bz = bz'
  ran : ∀ tx ∈ w.ran, HasHash B w.state.blockStore (B.hash tx) ∨
    ∃ bz ∈ txs, B.hash tx = .ok (B.txHash bz)

theorem transactionExists_eq_true_iff {index : TxIndex} {transactionHash : String} :
    transactionExists index transactionHash = .ok true ↔
      ∃ hash, hexDecode transactionHash = .ok hash ∧ (index.byHash (hexEncode hash)).isSome := by
  rw [transactionExists]
  cases hexDecode transactionHash with
  | error err => exact iff_of_false (fun h => by cases h) fun ⟨_, h, _⟩ => by cases h
  | ok hash =>
    constructor
    · intro h
      exact ⟨hash, rfl, Except.ok.inj h⟩
    · rintro ⟨hash', heq, hfound⟩
      cases heq
      exact congrArg Except.ok hfound

/-- `TransactionExists` finds exactly what was run. -/
theorem exists_only_stored_iff (hw : Sound B w) (blockStore : ℤ → Option Model.Block) :
    (∀ transactionHash, transactionExists w.state.node.index transactionHash = .ok true →
      ∃ height block, blockStore height = some block ∧
        ∃ bz ∈ block.transactions, hexDecode transactionHash = .ok (B.sha3 bz)) ↔
      ∀ tx ∈ w.ran, HasHash B blockStore (B.hash tx) := by
  constructor
  · intro h tx htx
    obtain ⟨hash, hhash⟩ := hw.ran tx htx
    cases hmarshal : B.marshal tx with
    | error err =>
      rw [Host.hash, hmarshal] at hhash
      cases hhash
    | ok bz =>
      have hhash := hash_of_marshal (X := B.toHost) hmarshal
      have hfound : (w.state.node.index.byHash (hexEncode (B.sha3 bz))).isSome :=
        (hw.hashes _).2 ⟨tx, htx, hhash⟩
      obtain ⟨height, block, hblock, bz', hbz', heq⟩ := h (hexEncode (B.sha3 bz))
        (transactionExists_eq_true_iff.2 ⟨_, hexDecode_hexEncode _, hfound⟩)
      rw [hexDecode_hexEncode] at heq
      refine ⟨height, block, hblock, bz', hbz', hhash.trans ?_⟩
      rw [Host.txHash, Host.txHash, Except.ok.inj heq]
  · intro h transactionHash hexists
    obtain ⟨hash, hdecode, hfound⟩ := transactionExists_eq_true_iff.1 hexists
    obtain ⟨tx, htx, hhash⟩ := (hw.hashes _).1 hfound
    obtain ⟨height, block, hblock, bz, hbz, heq⟩ := h tx htx
    rw [hhash] at heq
    have hsha3 : hash = B.sha3 bz := hexEncode_injective (Except.ok.inj heq)
    exact ⟨height, block, hblock, bz, hbz, by rw [hdecode, hsha3]⟩

/-- Storing a block under a free height adds the hashes of its transactions and no others. -/
theorem hasHash_update_iff {blockStore : ℤ → Option Model.Block} {height : ℤ}
    (hfree : blockStore height = none) (block : Model.Block) (hash : Except String String) :
    HasHash B (Function.update blockStore height (some block)) hash ↔
      HasHash B blockStore hash ∨ ∃ bz ∈ block.transactions, hash = .ok (B.txHash bz) := by
  constructor
  · rintro ⟨H, block', hblock', hbz⟩
    by_cases hH : H = height
    · rw [hH, Function.update_self] at hblock'
      cases hblock'
      exact .inr hbz
    · rw [Function.update_of_ne hH] at hblock'
      exact .inl ⟨H, block', hblock', hbz⟩
  · rintro (⟨H, block', hblock', hbz⟩ | hbz)
    · have hH : H ≠ height := by
        rintro rfl
        rw [hfree] at hblock'
        cases hblock'
      exact ⟨H, block', (Function.update_of_ne hH _ _).trans hblock', hbz⟩
    · exact ⟨height, block, Function.update_self .., hbz⟩

/-- What a commit stores: the block of the entries that the index has for the height. -/
theorem exists_step_commit (hw : Sound B w) {uow : UnitOfWork} (huow : w.state.node.uow = some uow)
    (sealing : Seal) :
    ∃ w' block idxTxs, step B (some w) (.commit, sealing) = some w' ∧
      w'.state.node.height = w.state.node.height + 1 ∧
      w'.state.node.index = w.state.node.index ∧
      w'.state.blockStore
        = Function.update w.state.blockStore w.state.node.height (some block) ∧
      getByHeight w.state.node.index w.state.node.height = .ok idxTxs ∧
      block.transactions = idxTxs.map tx := by
  obtain ⟨block, idxTxs, hash, hidxTxs, htxs, hcommit⟩ := exists_commit hw huow sealing
  have hheight : ¬ w.state.node.height + 1 = w.state.node.height := by omega
  refine ⟨_, block, idxTxs, congrArg (Option.map _) hcommit, ?_⟩
  rw [after, if_neg hheight]
  exact ⟨rfl, rfl, rfl, hidxTxs, htxs⟩

/-- **The stored block** is the block that the committed unit of work has run, and
`TransactionExists` knows of stored transactions only, exactly when nothing is left of other units
of work. -/
theorem stored_block_is_proposal_iff {genesisHash : String} {genesis : Model.Block}
    {committed : Database} {mempool : TxMempool} {events : List (PipelineEvent × Seal)}
    (hrun : Runs.run (step B) (some (start genesisHash genesis committed mempool)) events = some w)
    {txs : List Bytes} (hproposal : w.proposal = some txs) (sealing : Seal) :
    ∃ w', step B (some w) (.commit, sealing) = some w' ∧
      w'.state.node.height = w.state.node.height + 1 ∧
      ((∃ block, w'.state.blockStore w.state.node.height = some block ∧ block.transactions = txs) ∧
        (∀ transactionHash, transactionExists w'.state.node.index transactionHash = .ok true →
          ∃ height block, w'.state.blockStore height = some block ∧
            ∃ bz ∈ block.transactions, hexDecode transactionHash = .ok (B.sha3 bz)) ↔
        StoresProposal B w txs) := by
  have hw := sound_run hrun
  obtain ⟨hopen, -, hproposed⟩ := hw.proposal txs hproposal
  obtain ⟨uow, huow⟩ := Option.isSome_iff_exists.1 hopen
  obtain ⟨w', block, idxTxs, hstep, hheight, hindex, hstore, hidxTxs, htxs⟩ :=
    exists_step_commit hw huow sealing
  refine ⟨w', hstep, hheight, ?_⟩
  have hfree : w.state.blockStore w.state.node.height = none := by
    by_contra hstored
    exact lt_irrefl _ (hw.stored _ hstored)
  have htransactions : block.transactions = txs ↔ min w.reached positionCount = txs.length ∧
      (∀ bz ∈ txs, (B.unmarshal bz).bind B.marshal = .ok bz) ∧
      ∀ bz ∈ txs, ∀ bz' ∈ txs, B.txHash bz = B.txHash bz' → bz = bz' := by
    rw [htxs, tx_of_getByHeight hidxTxs, filterMap_range_eq_iff (isSome_contentAt hw),
      hproposed.content_iff]
  have hknown := exists_only_stored_iff hw
    (Function.update w.state.blockStore w.state.node.height (some block))
  have hran : ∀ tx, HasHash B (Function.update w.state.blockStore w.state.node.height (some block))
      (B.hash tx) ↔ HasHash B w.state.blockStore (B.hash tx) ∨
        ∃ bz ∈ block.transactions, B.hash tx = .ok (B.txHash bz) :=
    fun tx => hasHash_update_iff hfree block (B.hash tx)
  rw [hindex, hstore, hknown, Function.update_self]
  simp only [hran]
  constructor
  · rintro ⟨⟨block', hblock', hall⟩, hknown⟩
    cases hblock'
    obtain ⟨hreached, hcanonical, hdistinct⟩ := htransactions.1 hall
    rw [hall] at hknown
    exact ⟨hreached, hcanonical, hdistinct, hknown⟩
  · intro h
    have hall := htransactions.2 ⟨h.reached, h.canonical, h.distinct⟩
    rw [hall]
    exact ⟨⟨block, rfl, hall⟩, h.ran⟩

/-! ## A longer block before the committed one -/

/-- The send of 60 is encoded by one zero. -/
noncomputable def sendBackend : Backend :=
  { PersistenceModule.sampleBackend with
    unmarshal := fun bz => if bz = [0] then .ok ownerTx else .error "no transaction" }

def noSeal : Seal := ⟨"hash", [3], [], (0, 0)⟩

def sendStart : Watched := start "" ⟨none, []⟩ (blockDatabase "0") .empty

/-- A block with one transaction is given up, then `txs` are applied. -/
def afterOneSend (txs : List Bytes) : List (PipelineEvent × Seal) :=
  [(.refresh, noSeal), (.applyBlock quietCalls ⟨"hash", [3], [[0]]⟩, noSeal), (.release, noSeal),
    (.refresh, noSeal), (.applyBlock quietCalls ⟨"hash", [3], txs⟩, noSeal)]

theorem min_one_positionCount : min 1 positionCount = 1 := by
  unfold positionCount
  decide

/-- The empty block is applied and committed, and the block with the transaction is stored. -/
theorem abandoned_transaction_stored :
    ∃ w w' block, Runs.run (step sendBackend) (some sendStart) (afterOneSend []) = some w ∧
      w.proposal = some [] ∧ w.state.node.height = 1 ∧
      step sendBackend (some w) (.commit, noSeal) = some w' ∧
      w'.state.blockStore 1 = some block ∧ block.transactions = [[0]] := by
  have hrun : (Runs.run (step sendBackend) (some sendStart) (afterOneSend [])).map (fun w =>
      (w.reached, w.proposal, w.state.node.height,
        contentAt w.state.node.index w.state.node.height 0))
      = some (1, some [], 1, some [0]) := by
    decide
  obtain ⟨w, hw, heq⟩ := Option.map_eq_some_iff.1 hrun
  simp only [Prod.mk.injEq] at heq
  obtain ⟨hreached, hproposal, hheight, hcontent⟩ := heq
  have hsound : Sound sendBackend w := sound_run hw
  have hopen := (hsound.proposal [] hproposal).1
  obtain ⟨uow, huow⟩ := Option.isSome_iff_exists.1 hopen
  obtain ⟨w', block, idxTxs, hstep, -, -, hstore, hidxTxs, htxs⟩ :=
    exists_step_commit hsound huow noSeal
  refine ⟨w, w', block, hw, hproposal, hheight, hstep, ?_, ?_⟩
  · rw [hstore, hheight, Function.update_self]
  · rw [htxs, tx_of_getByHeight hidxTxs, filterMap_range_eq_iff (isSome_contentAt hsound), hreached]
    refine ⟨min_one_positionCount, fun j hj => ?_⟩
    have hzero : j = 0 := Nat.lt_one_iff.1 hj
    rw [hzero, hcontent]
    rfl

/-- The same block is applied again and committed. -/
theorem repeated_transaction_stored :
    ∃ w w' block, Runs.run (step sendBackend) (some sendStart) (afterOneSend [[0]]) = some w ∧
      step sendBackend (some w) (.commit, noSeal) = some w' ∧
      w'.state.blockStore w.state.node.height = some block ∧ block.transactions = [[0]] := by
  have hrun : (Runs.run (step sendBackend) (some sendStart) (afterOneSend [[0]])).map (fun w =>
      (w.reached, w.proposal, w.ran)) = some (1, some [[0]], [ownerTx, ownerTx]) := by
    decide
  obtain ⟨w, hw, heq⟩ := Option.map_eq_some_iff.1 hrun
  simp only [Prod.mk.injEq] at heq
  obtain ⟨hreached, hproposal, hran⟩ := heq
  have hstores : StoresProposal sendBackend w [[0]] := by
    refine ⟨?_, fun bz hbz => ?_, fun bz hbz bz' hbz' _ => ?_, fun tx htx => ?_⟩
    · rw [hreached]
      exact min_one_positionCount
    · rw [List.mem_singleton.1 hbz]
      rfl
    · rw [List.mem_singleton.1 hbz, List.mem_singleton.1 hbz']
    · have htx : tx = ownerTx := by
        rw [hran] at htx
        simpa using htx
      rw [htx]
      exact .inr ⟨[0], List.mem_singleton_self _, rfl⟩
  obtain ⟨w', hstep, -, hiff⟩ := stored_block_is_proposal_iff hw hproposal noSeal
  obtain ⟨⟨block, hblock, htxs⟩, -⟩ := hiff.2 hstores
  exact ⟨w, w', block, hw, hstep, hblock, htxs⟩

end Watched

end Pocket.Persistence
