import Pocket.Analysis.MempoolBooks
import Pocket.Analysis.NoReplay
import Pocket.Utility.MempoolUsers

/-!
# What the mempool holds under concurrent use

Admission checks first and adds later, so two calls with the same bytes may both pass the checks.  The
second one to add them is refused by the set itself, which is looked at and changed in one step.  What the
reaper puts back was in the mempool when it popped it, so it was checked before.

Run alone, each program is the function of the sequential model (`run_handleTransaction`,
`run_reapMempool`, `run_processProposalBlockTransactions`).
-/

set_option autoImplicit false

namespace Pocket.Utility

open Model (Bytes)
open Interleaving (Prog)
open Interleaving.Prog (Keeps keeps_read keeps_write keeps_emit keeps_crash runThreads)

theorem FifoSet.pop_eq_none_iff {ι α σ : Type} [DecidableEq ι] {o : FifoSetOptions ι α σ}
    {g : FifoSet ι α σ} : g.pop o = none ↔ g.isEmpty = true := by
  unfold FifoSet.pop FifoSet.isEmpty
  cases g.queue <;> simp

variable {X : Host}

namespace UserProgram

variable {height : ℤ} {committed : Database} {calls : BlockCalls}

/-! ## Programs that run alone -/

@[simp] theorem run_returns (result : UserResult) (s : SharedPool) :
    (returns result).run s = (some s, [result]) := by
  simp [returns]

@[simp] theorem run_addTx (tx : Bytes) (result : Except String Unit → UserResult) (s : SharedPool) :
    (addTx X tx result).run s = match s.mempool.push X.mempoolOptions tx with
      | some mempool => (some { s with mempool }, [result (.ok ())])
      | none => (some s, [result (.error errDuplicateTransaction.error)]) := by
  cases hpush : s.mempool.push X.mempoolOptions tx <;> simp [addTx, hpush]

@[simp] theorem run_popTx (next : Except String Bytes → UserProgram) (s : SharedPool) :
    (popTx X next).run s = match s.mempool.pop X.mempoolOptions with
      | some (tx, mempool) => (next (.ok tx)).run { s with mempool }
      | none => (next (.error "empty set")).run s := by
  cases hpop : s.mempool.pop X.mempoolOptions <;> simp [popTx, Prog.run, hpop]

@[simp] theorem run_indexTransaction (fails : Bool) (idxTx : IndexedTransaction) (next : UserProgram)
    (s : SharedPool) :
    (indexTransaction X fails idxTx next).run s =
      if fails then (none, []) else next.run { s with index := s.index.index X idxTx } := by
  cases fails <;> simp [indexTransaction]

/-- Executing a transaction touches the unit of work only, not what the users share. -/
theorem executeTx_eq (i index : ℕ) (tx : Transaction) (s : BlockState) :
    executeTx X height committed calls i index tx s
      = (execute X height committed calls i index tx ⟨s.db, s.executed⟩).map fun (result, uow) =>
          (result, { s with db := uow.db, executed := uow.executed }) := by
  simp only [execute, executeTx, runUow]
  generalize (Utility.handleTransaction X.toPlatform height tx index).run.exec (store height)
    (fun _ => committed) (calls.txFails i) s.db = outcome
  rcases outcome with - | ⟨result, db⟩
  · rfl
  · cases result <;> rfl

/-- **Admission alone.** -/
theorem run_handleTransaction (lookup : Option String) (txProtoBytes : Bytes) (s : SharedPool) :
    (handleTransaction X lookup txProtoBytes).run s =
      match handleGossip X s.mempool s.index lookup txProtoBytes with
      | .ok mempool => (some { s with mempool }, [.handled (.ok ())])
      | .error err => (some s, [.handled (.error err)]) := by
  rw [handleTransaction, handleGossip, Prog.run_read]
  cases s.mempool.containsIndex (X.txHash txProtoBytes) with
  | true => exact run_returns _ s
  | false =>
    simp only [Bool.false_eq_true, if_false, Prog.run_read]
    cases lookup with
    | some err => exact run_returns _ s
    | none =>
      simp only [Option.elim]
      rcases transactionExists s.index (X.txHash txProtoBytes) with err | txExists
      · exact run_returns _ s
      cases txExists with
      | true => exact run_returns _ s
      | false =>
        rcases X.unmarshal txProtoBytes with err | tx
        · exact run_returns _ s
        · simp only [StoreProgram.mapError_ok, bind, Except.bind]
          rcases tx.validateBasic X.toPlatform with err | ⟨⟩
          · exact run_returns _ s
          · simp only [run_addTx]
            cases s.mempool.push X.mempoolOptions txProtoBytes <;> rfl

/-- What the users share and one of them returned, as the sequential model has it. -/
def ofOutcome {α : Type} (result : Except String α → UserResult) :
    Outcome α → Option SharedPool × List UserResult
  | none => (none, [])
  | some (r, s) => (some ⟨s.mempool, s.index⟩, [result r])

/-- **Reaping alone.** -/
theorem run_reapMempool (maxTxBytes : UInt64) (rounds i : ℕ) (txs : List Bytes) (total : UInt64)
    (s : BlockState) :
    (reapMempool X height committed calls maxTxBytes rounds i txs total ⟨s.db, s.executed⟩).run
        ⟨s.mempool, s.index⟩
      = ofOutcome .reaped
          (Utility.reapMempool X height committed calls maxTxBytes rounds i txs total s) := by
  induction rounds generalizing i txs total s with
  | zero => rw [reapMempool, run_returns]; rfl
  | succ rounds ih =>
    rw [reapMempool, Utility.reapMempool, Prog.run_read]
    cases hpop : s.mempool.pop X.mempoolOptions with
    | none =>
      simp [(FifoSet.pop_eq_none_iff.mp hpop), ofOutcome]
    | some popped =>
      obtain ⟨txBz, mempool⟩ := popped
      have hempty : s.mempool.isEmpty = false := by
        rw [← Bool.not_eq_true, ← FifoSet.pop_eq_none_iff (o := X.mempoolOptions), hpop]
        simp
      simp only [hempty, Bool.false_eq_true, if_false, run_popTx, hpop]
      cases htx : X.unmarshal txBz with
      | error err => simp [ofOutcome]
      | ok tx =>
        simp only
        by_cases hfull : maxTxBytes ≤ total + UInt64.ofNat txBz.length
        · rw [if_pos hfull, if_pos hfull, run_addTx]
          cases mempool.push X.mempoolOptions txBz <;> simp [ofOutcome, Except.map]
        · rw [if_neg hfull, if_neg hfull, executeTx_eq]
          rcases execute X height committed calls i txs.length tx ⟨s.db, s.executed⟩ with
            - | ⟨err | idxTx, uow⟩
          · simp [ofOutcome]
          · exact ih (i + 1) txs total { s with mempool, db := uow.db, executed := uow.executed }
          · simp only [Option.map_some, run_indexTransaction]
            cases calls.indexFails i with
            | true => rfl
            | false =>
              exact ih (i + 1) (txs ++ [txBz]) _ ⟨uow.db, uow.executed, mempool, s.index.index X idxTx⟩

/-- **Processing a proposal alone.** -/
theorem run_processProposalBlockTransactions (i : ℕ) (txs : List Bytes) (s : BlockState) :
    (processProposalBlockTransactions X height committed calls i txs ⟨s.db, s.executed⟩).run
        ⟨s.mempool, s.index⟩
      = ofOutcome .processed
          (Utility.processProposalBlockTransactions X height committed calls i txs s) := by
  induction txs generalizing i s with
  | nil => rw [processProposalBlockTransactions, run_returns]; rfl
  | cons bz txs ih =>
    rw [processProposalBlockTransactions, Utility.processProposalBlockTransactions, processTx]
    cases X.unmarshal bz with
    | error err => exact run_returns _ _
    | ok tx =>
      simp only
      rcases tx.validateBasic X.toPlatform with err | ⟨⟩
      · exact run_returns _ _
      · simp only [executeTx_eq i i tx s]
        rcases execute X height committed calls i i tx ⟨s.db, s.executed⟩ with
          - | ⟨err | idxTx, uow⟩
        · rfl
        · exact run_returns _ _
        · simp only [Option.map_some, Outcome.andThen, Option.bind_some]
          cases X.hash tx with
          | error err => exact run_returns _ _
          | ok txHash =>
            simp only [Prog.run_read]
            have hindexed : ∀ mempool : TxMempool,
                (indexTransaction X (calls.indexFails i) idxTx
                  (processProposalBlockTransactions X height committed calls (i + 1) txs uow)).run
                    ⟨mempool, s.index⟩ = ofOutcome .processed
                  (Outcome.andThen (if calls.indexFails i then none
                    else some (.ok (), ⟨uow.db, uow.executed, mempool, s.index.index X idxTx⟩))
                    fun _ s => Utility.processProposalBlockTransactions X height committed calls
                      (i + 1) txs s) := by
              intro mempool
              rw [run_indexTransaction]
              cases calls.indexFails i with
              | true => rfl
              | false => exact ih (i + 1) ⟨uow.db, uow.executed, mempool, s.index.index X idxTx⟩
            cases s.mempool.containsIndex txHash with
            | true => exact hindexed (s.mempool.remove X.mempoolOptions bz)
            | false => exact hindexed s.mempool

end UserProgram

/-! ## What the users keep -/

/-- The bytes decode to a transaction that is valid. -/
def Host.Acceptable (X : Host) (bz : Bytes) : Prop :=
  ∃ tx, X.unmarshal bz = .ok tx ∧ tx.validateBasic X.toPlatform = .ok ()

/-- The mempool holds acceptable bytes, and its set is that of their hashes. -/
structure Admitted (X : Host) (s : SharedPool) : Prop where
  acceptable : ∀ bz ∈ s.mempool.queue, X.Acceptable bz
  mirrored : s.mempool.Mirrored X.mempoolOptions

namespace Admitted

variable {s : SharedPool} {mempool : TxMempool} {bz : Bytes}

/-- An acceptable transaction may be added. -/
theorem push (h : Admitted X s) (hbz : X.Acceptable bz)
    (hpush : s.mempool.push X.mempoolOptions bz = some mempool) : Admitted X { s with mempool } := by
  refine ⟨?_, h.mirrored.push hpush⟩
  have hall : ∀ other ∈ s.mempool.queue ++ [bz], X.Acceptable other := by
    simpa [or_imp, forall_and] using ⟨h.acceptable, hbz⟩
  obtain ⟨-, ⟨-, rfl⟩ | ⟨-, front, rest, hqueue, rfl⟩⟩ := FifoSet.push_cases hpush
  · exact hall
  · -- the front was evicted
    rw [hqueue] at hall
    exact fun other hother => hall other (List.mem_cons_of_mem _ hother)

/-- What is given out had been admitted. -/
theorem pop (h : Admitted X s) (hpop : s.mempool.pop X.mempoolOptions = some (bz, mempool)) :
    X.Acceptable bz ∧ Admitted X { s with mempool } := by
  have hmirrored := h.mirrored.pop hpop
  obtain ⟨rest, hqueue, rfl⟩ := FifoSet.pop_cases hpop
  have hall := h.acceptable
  rw [hqueue, List.forall_mem_cons] at hall
  exact ⟨hall.1, hall.2, hmirrored⟩

theorem remove (h : Admitted X s) (bz : Bytes) :
    Admitted X { s with mempool := s.mempool.remove X.mempoolOptions bz } := by
  refine ⟨fun other hother => h.acceptable other ?_, h.mirrored.remove bz⟩
  rcases FifoSet.remove_cases h.mirrored bz with ⟨-, heq⟩ | ⟨-, l, held, r, hqueue, -, heq⟩
  · simpa [heq] using hother
  · rw [hqueue]
    simp only [heq, List.mem_append] at hother
    simp only [List.mem_append, List.mem_cons]
    tauto

theorem index (h : Admitted X s) (index : TxIndex) : Admitted X { s with index } :=
  ⟨h.acceptable, h.mirrored⟩

end Admitted

namespace UserProgram

variable {height : ℤ} {committed : Database} {calls : BlockCalls}

theorem keeps_returns (result : UserResult) : Keeps (Admitted X) (returns result) :=
  keeps_emit .done

theorem keeps_addTx {bz : Bytes} (hbz : X.Acceptable bz) (result : Except String Unit → UserResult) :
    Keeps (Admitted X) (addTx X bz result) := by
  refine .atomic ?_ fun _ _ => .done
  intro s s' hs hact
  cases hpush : s.mempool.push X.mempoolOptions bz with
  | none =>
    rw [hpush] at hact
    cases hact
    exact hs
  | some mempool =>
    rw [hpush] at hact
    cases hact
    exact hs.push hbz hpush

/-- A user that takes a transaction out goes on with one that is acceptable. -/
theorem keeps_popTx {next : Except String Bytes → UserProgram}
    (hnext : ∀ bz, X.Acceptable bz → Keeps (Admitted X) (next (.ok bz)))
    (herror : ∀ err, Keeps (Admitted X) (next (.error err))) :
    Keeps (Admitted X) (popTx X next) := by
  refine .atomic ?_ ?_
  · intro s s' hs hact
    cases hpop : s.mempool.pop X.mempoolOptions with
    | none =>
      rw [hpop] at hact
      cases hact
      exact hs
    | some popped =>
      rw [hpop] at hact
      cases hact
      exact (hs.pop hpop).2
  · intro s hs
    cases hpop : s.mempool.pop X.mempoolOptions with
    | none => exact herror _
    | some popped => exact hnext popped.1 (hs.pop hpop).1

theorem keeps_indexTransaction {fails : Bool} {idxTx : IndexedTransaction} {next : UserProgram}
    (h : Keeps (Admitted X) next) : Keeps (Admitted X) (indexTransaction X fails idxTx next) := by
  cases fails with
  | true => exact keeps_crash
  | false => exact keeps_write (fun _ hs => hs.index _) h

/-- Admission adds a transaction only after it was found acceptable. -/
theorem keeps_handleTransaction (lookup : Option String) (bz : Bytes) :
    Keeps (Admitted X) (handleTransaction X lookup bz) := by
  unfold handleTransaction
  refine keeps_read fun s _ => ?_
  split
  · exact keeps_returns _
  · refine keeps_read fun s' _ => ?_
    split
    · exact keeps_returns _
    · exact keeps_returns _
    · cases htx : X.unmarshal bz with
      | error err => exact keeps_returns _
      | ok tx =>
        simp only
        cases hvalid : tx.validateBasic X.toPlatform with
        | error err => exact keeps_returns _
        | ok u => exact keeps_addTx ⟨tx, htx, hvalid⟩ _

/-- What is put back was popped before, so it was acceptable then. -/
theorem keeps_reapMempool (maxTxBytes : UInt64) (rounds i : ℕ) (txs : List Bytes) (total : UInt64)
    (uow : UnitOfWork) :
    Keeps (Admitted X) (reapMempool X height committed calls maxTxBytes rounds i txs total uow) := by
  induction rounds generalizing i txs total uow with
  | zero => exact keeps_returns _
  | succ rounds ih =>
    refine keeps_read fun s _ => ?_
    split
    · exact keeps_returns _
    · refine keeps_popTx (fun bz hbz => ?_) fun err => keeps_returns _
      simp only
      split
      · exact keeps_returns _
      · split
        · exact keeps_addTx hbz _
        · split
          · exact keeps_crash
          · exact ih ..
          · exact keeps_indexTransaction (ih ..)

theorem keeps_processProposalBlockTransactions (i : ℕ) (txs : List Bytes) (uow : UnitOfWork) :
    Keeps (Admitted X) (processProposalBlockTransactions X height committed calls i txs uow) := by
  induction txs generalizing i uow with
  | nil => exact keeps_returns _
  | cons bz txs ih =>
    rw [processProposalBlockTransactions]
    split
    · exact keeps_returns _
    · split
      · exact keeps_returns _
      · split
        · exact keeps_crash
        · exact keeps_returns _
        · split
          · exact keeps_returns _
          · refine keeps_read fun s _ => ?_
            split
            · exact keeps_write (fun _ hs => hs.remove bz) (keeps_indexTransaction (ih ..))
            · exact keeps_indexTransaction (ih ..)

end UserProgram

/-- Every user of the mempool keeps to admitted transactions. -/
theorem MempoolUser.keeps_program (X : Host) (user : MempoolUser) :
    Keeps (Admitted X) (user.program X) := by
  cases user with
  | handleTransaction lookup bz => exact UserProgram.keeps_handleTransaction lookup bz
  | reapMempool height committed calls uow maxTxBytes rounds =>
    exact UserProgram.keeps_reapMempool maxTxBytes rounds 0 [] 0 uow
  | processProposalBlockTransactions height committed calls uow txs =>
    exact UserProgram.keeps_processProposalBlockTransactions 0 txs uow

/-- **The mempool holds valid transactions, each once.**  From an empty mempool, whatever calls are made
and however their steps are interleaved, the bytes in the mempool decode to valid transactions, and none
occur twice. -/
theorem mempool_holds_valid_once (X : Host) (index : TxIndex) (users : List MempoolUser)
    (schedule : List ℕ) {s : SharedPool}
    (hrun : runThreads schedule (users.map (MempoolUser.program X)) ⟨.empty, index⟩ = some s) :
    (∀ bz ∈ s.mempool.getAll,
        ∃ tx, X.unmarshal bz = .ok tx ∧ tx.validateBasic X.toPlatform = .ok ())
      ∧ s.mempool.getAll.Nodup := by
  have hstart : Admitted X ⟨.empty, index⟩ :=
    ⟨fun bz hbz => absurd hbz List.not_mem_nil, IndexedQueue.Mirrors.empty⟩
  have hkeeps : ∀ p ∈ users.map (MempoolUser.program X), Keeps (Admitted X) p := by
    intro p hp
    obtain ⟨user, -, rfl⟩ := List.mem_map.mp hp
    exact user.keeps_program X
  have hend := Interleaving.Prog.runThreads_keeps hkeeps hstart hrun
  exact ⟨hend.acceptable, hend.mirrored.nodup.of_map⟩

/-- Gossip and the RPC server bring the same bytes, and both pass the checks before either adds them; a
reaper with no room pops them and puts them back. -/
theorem same_bytes_held_once :
    let users : List MempoolUser := [.handleTransaction none [0], .handleTransaction none [0],
      .reapMempool 2 (blockDatabase "0") quietCalls ⟨blockDatabase "0", []⟩ 1 1]
    let schedule := [0, 1, 0, 1, 0, 1, 1, 2, 2, 2]
    ∃ s, runThreads schedule (users.map (MempoolUser.program twoEncodings)) ⟨.empty, .empty⟩ = some s
      ∧ s.mempool.getAll = [[0]]
      ∧ (∀ bz ∈ s.mempool.getAll, ∃ tx, twoEncodings.unmarshal bz = .ok tx
          ∧ tx.validateBasic twoEncodings.toPlatform = .ok ())
      ∧ s.mempool.getAll.Nodup := by
  intro users schedule
  have hrun : (runThreads schedule (users.map (MempoolUser.program twoEncodings))
      ⟨.empty, .empty⟩).map (·.mempool.getAll) = some [[0]] := by decide
  obtain ⟨s, hs, hqueue⟩ := Option.map_eq_some_iff.mp hrun
  exact ⟨s, hs, hqueue, mempool_holds_valid_once twoEncodings .empty users schedule hs⟩

end Pocket.Utility
