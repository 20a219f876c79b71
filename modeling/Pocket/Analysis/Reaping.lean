import Pocket.Analysis.MempoolBooks
import Pocket.Analysis.NoReplay

/-!
# What reaping makes of a mempool

The loop pops transactions from the front, hands each to `HandleTransaction` and keeps those that are
executed.  It stops when the mempool is empty, or at the first transaction that does not fit into the
block any more, which it puts back at the end.  So the transactions that were handed over are a prefix of
the queue; those of them that were executed are the block, in their order, and what is left of the queue
stays in the mempool, with its first transaction at the end.

Each round pops one, so as many rounds as there are transactions are enough.
-/

set_option autoImplicit false

namespace Pocket.Utility

open Model (Bytes)

/-! ## The calls of the loop -/

/-- What became of a transaction that was handed to `HandleTransaction`: it was executed, it failed, or
the process ended, there or when the transaction was indexed. -/
inductive Fate
  | executed
  | failed
  | ended
deriving DecidableEq

section Calls

variable (X : Host) (height : ℤ) (committed : Database) (calls : BlockCalls)

/-- The transactions that `reapMempool` hands to `HandleTransaction`, with what becomes of each. -/
def reapCalls (maxTxBytes : UInt64) :
    ℕ → ℕ → List Bytes → UInt64 → BlockState → List (Bytes × Fate)
  | 0, _, _, _, _ => []
  | rounds + 1, i, txs, txsTotalBz, s =>
    match s.mempool.pop X.mempoolOptions with
    | none => []
    | some (txBz, mempool) =>
      match X.unmarshal txBz with
      | .error _ => []
      | .ok tx =>
        let total := txsTotalBz + UInt64.ofNat txBz.length
        if maxTxBytes ≤ total then []
        else
          match executeTx X height committed calls i txs.length tx { s with mempool } with
          | none => [(txBz, .ended)]
          | some (.error _, s) =>
            (txBz, .failed) :: reapCalls maxTxBytes rounds (i + 1) txs txsTotalBz s
          | some (.ok idxTx, s) =>
            if calls.indexFails i then [(txBz, .ended)]
            else (txBz, .executed) :: reapCalls maxTxBytes rounds (i + 1) (txs ++ [txBz]) total
              { s with index := s.index.index X idxTx }

end Calls

/-- The transactions that were executed. -/
def executedIn (log : List (Bytes × Fate)) : List Bytes :=
  (log.filter fun call => call.2 = .executed).map Prod.fst

@[simp] theorem executedIn_nil : executedIn [] = [] := rfl

@[simp] theorem executedIn_executed (bz : Bytes) (log : List (Bytes × Fate)) :
    executedIn ((bz, .executed) :: log) = bz :: executedIn log := rfl

@[simp] theorem executedIn_failed (bz : Bytes) (log : List (Bytes × Fate)) :
    executedIn ((bz, .failed) :: log) = executedIn log := rfl

/-! ## Mempools with right counters -/

/-- The mempool holds the transactions, its set and its counters are right, and the limits are kept. -/
structure Holds (X : Host) (t : TxMempool) (txs : List Bytes) : Prop where
  queue : t.queue = txs
  mirrored : t.Mirrored X.mempoolOptions
  count : t.txCount.toNat = txs.length
  bytes : t.txsBytesTotal.toNat = bytesOf txs
  fewTxs : txs.length ≤ X.maxTxs.toNat
  fewBytes : bytesOf txs ≤ X.maxTxsBytesTotal.toNat

variable {bz : Bytes}

namespace Holds

variable {X : Host} {t : TxMempool} {txs : List Bytes}

theorem pop (h : Holds X t (bz :: txs)) :
    ∃ t', t.pop X.mempoolOptions = some (bz, t') ∧ Holds X t' txs ∧ X.txHash bz ∉ t'.set := by
  have hpop : t.pop X.mempoolOptions
      = some (bz, ⟨t.set.erase (X.txHash bz), txs, X.mempoolOptions.onRemove bz t.counters⟩) := by
    unfold FifoSet.pop
    rw [h.queue]
    rfl
  have hcounters := counted_off (l := []) h.count h.bytes
  have hfewTxs := h.fewTxs
  have hfewBytes := h.fewBytes
  rw [List.length_cons] at hfewTxs
  rw [bytesOf_cons] at hfewBytes
  exact ⟨_, hpop, ⟨rfl, h.mirrored.pop hpop, hcounters.1, hcounters.2, by omega, by omega⟩,
    Finset.notMem_erase _ _⟩

/-- There is room for what was there before. -/
theorem pushBack (h : Holds X t txs) (hnew : X.txHash bz ∉ t.set)
    (hfewTxs : txs.length + 1 ≤ X.maxTxs.toNat)
    (hfewBytes : bytesOf txs + bz.length ≤ X.maxTxsBytesTotal.toNat) :
    ∃ t', t.push X.mempoolOptions bz = some t' ∧ Holds X t' (txs ++ [bz]) := by
  have hlt := X.maxTxs.toNat_lt
  have hlt' := X.maxTxsBytesTotal.toNat_lt
  have hcount : (t.counters.txCount + 1).toNat = txs.length + 1 := by
    have := h.count
    rw [TxMempool.txCount] at this
    rw [UInt32.toNat_add, UInt32.toNat_one]
    omega
  have hbytes : (t.counters.txsBytesTotal + UInt64.ofNat bz.length).toNat
      = bytesOf txs + bz.length := by
    have := h.bytes
    rw [TxMempool.txsBytesTotal] at this
    rw [UInt64.toNat_add, UInt64.toNat_ofNat']
    omega
  have hroom : X.mempoolOptions.isOverflowing (t.queue ++ [bz])
      (X.mempoolOptions.onAdd bz t.counters) = false := by
    have hle : t.counters.txCount + 1 ≤ X.maxTxs := by
      rw [UInt32.le_iff_toNat_le]
      omega
    have hle' : t.counters.txsBytesTotal + UInt64.ofNat bz.length ≤ X.maxTxsBytesTotal := by
      rw [UInt64.le_iff_toNat_le]
      omega
    simp [Host.mempoolOptions, txFifoOptions, hle, hle']
  have hpush : t.push X.mempoolOptions bz = some ⟨insert (X.txHash bz) t.set, t.queue ++ [bz],
      X.mempoolOptions.onAdd bz t.counters⟩ := by
    unfold FifoSet.push
    rw [if_neg (by exact hnew)]
    simp only [hroom, Bool.false_eq_true, if_false]
    rfl
  refine ⟨_, hpush, ?_⟩
  constructor
  · simp only [h.queue]
  · exact h.mirrored.push hpush
  · rw [List.length_append, List.length_singleton]
    exact hcount
  · rw [bytesOf_append, bytesOf_cons, bytesOf_nil, Nat.add_zero]
    exact hbytes
  · simpa using hfewTxs
  · simpa using hfewBytes

end Holds

/-! ## The loop -/

/-- The end of the loop: with `start` bytes in the block, the transactions of `log` were handed over, each
one when it fitted, and the loop stopped at the end of the queue or at the first that did not fit. -/
structure LoopEnd (queue : List Bytes) (maxTxBytes start : ℕ) (log : List (Bytes × Fate))
    (left : List Bytes) : Prop where
  went : ∀ call ∈ log, call.2 ≠ .ended
  fitted : ∀ before bz fate after, log = before ++ (bz, fate) :: after →
    start + bytesOf (executedIn before) + bz.length < maxTxBytes
  stopped : queue = log.map Prod.fst ∧ left = [] ∨
    ∃ bz tail, queue = log.map Prod.fst ++ bz :: tail ∧ left = tail ++ [bz]
      ∧ maxTxBytes ≤ start + bytesOf (executedIn log) + bz.length

theorem LoopEnd.cons {queue left : List Bytes} {maxTxBytes start : ℕ} {log : List (Bytes × Fate)}
    {fate : Fate} (hwent : fate ≠ .ended) (hfit : start + bz.length < maxTxBytes)
    (h : LoopEnd queue maxTxBytes (start + bytesOf (executedIn [(bz, fate)])) log left) :
    LoopEnd (bz :: queue) maxTxBytes start ((bz, fate) :: log) left := by
  have hexecuted : ∀ log', executedIn ((bz, fate) :: log')
      = executedIn [(bz, fate)] ++ executedIn log' := by
    intro log'
    cases fate <;> rfl
  constructor
  · intro call hcall
    rcases List.mem_cons.mp hcall with rfl | hcall
    · exact hwent
    · exact h.went call hcall
  · intro before bz' fate' after hlog
    cases before with
    | nil =>
      obtain ⟨⟨rfl, rfl⟩, rfl⟩ := by simpa using hlog
      simpa using hfit
    | cons first before =>
      rw [List.cons_append, List.cons.injEq] at hlog
      obtain ⟨rfl, rfl⟩ := hlog
      have hrest := h.fitted before bz' fate' after rfl
      rw [hexecuted, bytesOf_append]
      omega
  · rcases h.stopped with ⟨rfl, rfl⟩ | ⟨bz', tail, rfl, rfl, hmax⟩
    · exact .inl ⟨rfl, rfl⟩
    · refine .inr ⟨bz', tail, rfl, rfl, ?_⟩
      rw [hexecuted, bytesOf_append]
      omega

section Loop

variable {X : Host} {height : ℤ} {committed : Database} {calls : BlockCalls}

/-- INTERNAL: the loop from any of its rounds, with at least as many rounds to come as there are
transactions. -/
theorem reapMempool_ends {maxTxBytes : UInt64} {rounds i : ℕ} {txs : List Bytes} {total : UInt64}
    {s : BlockState} {queue : List Bytes} (hholds : Holds X s.mempool queue)
    (hdecode : ∀ bz ∈ queue, ∃ tx, X.unmarshal bz = .ok tx) (hrounds : queue.length ≤ rounds)
    (htotal : total.toNat = bytesOf txs) (hfits : bytesOf txs + bytesOf queue < 2 ^ 64) :
    (∃ bz, (bz, Fate.ended) ∈ reapCalls X height committed calls maxTxBytes rounds i txs total s)
        ∧ reapMempool X height committed calls maxTxBytes rounds i txs total s = none ∨
      ∃ s', reapMempool X height committed calls maxTxBytes rounds i txs total s
          = some (.ok (txs ++ executedIn
              (reapCalls X height committed calls maxTxBytes rounds i txs total s)), s')
        ∧ LoopEnd queue maxTxBytes.toNat (bytesOf txs)
            (reapCalls X height committed calls maxTxBytes rounds i txs total s) s'.mempool.getAll := by
  induction rounds generalizing i txs total s queue with
  | zero =>
    obtain rfl := List.length_eq_zero_iff.mp (Nat.le_zero.mp hrounds)
    refine .inr ⟨s, by simp [reapMempool, reapCalls], ?_⟩
    exact ⟨by simp [reapCalls], by simp [reapCalls], .inl ⟨rfl, hholds.queue⟩⟩
  | succ rounds ih =>
    cases queue with
    | nil =>
      have hpop : s.mempool.pop X.mempoolOptions = none := by
        unfold FifoSet.pop
        rw [hholds.queue]
      refine .inr ⟨s, by simp [reapMempool, reapCalls, hpop], ?_⟩
      rw [reapCalls, hpop]
      exact ⟨by simp, by simp, .inl ⟨rfl, hholds.queue⟩⟩
    | cons bz queue =>
      obtain ⟨mempool, hpop, hpopped, hnew⟩ := hholds.pop
      obtain ⟨tx, htx⟩ := hdecode bz (List.mem_cons_self ..)
      have hdecode' : ∀ bz ∈ queue, ∃ tx, X.unmarshal bz = .ok tx :=
        fun bz' hbz' => hdecode bz' (List.mem_cons_of_mem _ hbz')
      have hrounds' : queue.length ≤ rounds := Nat.le_of_succ_le_succ hrounds
      rw [bytesOf_cons] at hfits
      have htotal' : (total + UInt64.ofNat bz.length).toNat = bytesOf txs + bz.length := by
        rw [UInt64.toNat_add, UInt64.toNat_ofNat']
        omega
      rw [reapMempool, reapCalls, hpop]
      simp only [htx]
      by_cases hfull : maxTxBytes ≤ total + UInt64.ofNat bz.length
      · -- the transaction does not fit, and goes back to the end
        have hfewTxs := hholds.fewTxs
        have hfewBytes := hholds.fewBytes
        rw [List.length_cons] at hfewTxs
        rw [bytesOf_cons] at hfewBytes
        obtain ⟨pushed, hpush, hback⟩ := hpopped.pushBack hnew hfewTxs (by omega)
        simp only [if_pos hfull, hpush]
        refine .inr ⟨{ s with mempool := pushed }, by simp, by simp, by simp,
          .inr ⟨bz, queue, rfl, hback.queue, ?_⟩⟩
        rw [UInt64.le_iff_toNat_le, htotal'] at hfull
        simpa using hfull
      · have hfit : bytesOf txs + bz.length < maxTxBytes.toNat := by
          rw [UInt64.le_iff_toNat_le, htotal'] at hfull
          omega
        simp only [if_neg hfull]
        cases hexec : executeTx X height committed calls i txs.length tx { s with mempool } with
        | none => exact .inl ⟨⟨bz, List.mem_singleton_self _⟩, rfl⟩
        | some outcome =>
          obtain ⟨result, s₁⟩ := outcome
          obtain ⟨-, hmempool, -⟩ := executeTx_cases hexec
          have hholds' : Holds X s₁.mempool queue := hmempool ▸ hpopped
          cases result with
          | error err =>
            simp only
            rcases @ih (i + 1) txs total s₁ queue hholds' hdecode' hrounds' htotal (by omega) with
              ⟨⟨bz', hended⟩, hnone⟩ | ⟨s', hsome, hend⟩
            · exact .inl ⟨⟨bz', List.mem_cons_of_mem _ hended⟩, hnone⟩
            · exact .inr ⟨s', hsome, .cons (by decide) hfit (by simpa using hend)⟩
          | ok idxTx =>
            simp only
            by_cases hindexed : calls.indexFails i
            · rw [if_pos hindexed, if_pos hindexed]
              exact .inl ⟨⟨bz, List.mem_singleton_self _⟩, rfl⟩
            · rw [if_neg hindexed, if_neg hindexed]
              have hsum : bytesOf (txs ++ [bz]) = bytesOf txs + bz.length := by simp
              rcases @ih (i + 1) (txs ++ [bz]) _ { s₁ with index := s₁.index.index X idxTx } queue
                  hholds' hdecode' hrounds' (htotal'.trans hsum.symm) (by omega) with
                ⟨⟨bz', hended⟩, hnone⟩ | ⟨s', hsome, hend⟩
              · exact .inl ⟨⟨bz', List.mem_cons_of_mem _ hended⟩, hnone⟩
              · refine .inr ⟨s', by simpa using hsome, .cons (by decide) hfit ?_⟩
                rw [hsum] at hend
                simpa using hend

end Loop

/-! ## The partition -/

/-- Exactly one of three. -/
def ExactlyOne (a b c : Prop) : Prop := a ∧ ¬ b ∧ ¬ c ∨ ¬ a ∧ b ∧ ¬ c ∨ ¬ a ∧ ¬ b ∧ c

theorem mem_executedIn {log : List (Bytes × Fate)} :
    bz ∈ executedIn log ↔ (bz, Fate.executed) ∈ log := by
  simp [executedIn]

theorem executedIn_append (log log' : List (Bytes × Fate)) :
    executedIn (log ++ log') = executedIn log ++ executedIn log' := by
  simp [executedIn]

namespace LoopEnd

variable {queue left : List Bytes} {maxTxBytes start : ℕ} {log : List (Bytes × Fate)}

theorem executed_fit (hfitted : ∀ before bz fate after, log = before ++ (bz, fate) :: after →
      start + bytesOf (executedIn before) + bz.length < maxTxBytes) :
    executedIn log = [] ∨ start + bytesOf (executedIn log) < maxTxBytes := by
  induction log using List.reverseRecOn with
  | nil => exact .inl rfl
  | append_singleton log call ih =>
    obtain ⟨bz, fate⟩ := call
    have hprefix := ih fun before bz' fate' after hlog =>
      hfitted before bz' fate' (after ++ [(bz, fate)]) (by simp [hlog])
    rw [executedIn_append]
    cases fate with
    | executed =>
      have hlast := hfitted log bz .executed [] rfl
      refine .inr ?_
      simp only [executedIn_executed, executedIn_nil, bytesOf_append, bytesOf_cons, bytesOf_nil]
      omega
    | failed => simpa using hprefix
    | ended => simpa [executedIn] using hprefix

section

variable (h : LoopEnd queue maxTxBytes start log left)
include h

theorem exists_rest : ∃ rest, queue = log.map Prod.fst ++ rest ∧ ∀ bz, bz ∈ left ↔ bz ∈ rest := by
  rcases h.stopped with ⟨hqueue, hleft⟩ | ⟨bz, tail, hqueue, hleft, -⟩
  · exact ⟨[], by simp [hqueue], by simp [hleft]⟩
  · exact ⟨bz :: tail, hqueue, by simp [hleft, or_comm]⟩

theorem sublist : (executedIn log).Sublist queue := by
  obtain ⟨rest, hqueue, -⟩ := h.exists_rest
  rw [hqueue]
  exact (List.filter_sublist.map Prod.fst).trans (List.sublist_append_left ..)

theorem exactlyOne (hnodup : queue.Nodup) (hbz : bz ∈ queue) :
    ExactlyOne (bz ∈ executedIn log) ((bz, Fate.failed) ∈ log) (bz ∈ left) := by
  obtain ⟨rest, hqueue, hleft⟩ := h.exists_rest
  rw [hqueue] at hnodup hbz
  obtain ⟨hlog, -, hdisjoint⟩ := List.nodup_append.mp hnodup
  rw [mem_executedIn, hleft, ExactlyOne]
  rcases List.mem_append.mp hbz with hhanded | hrest
  · have hnot : bz ∉ rest := fun hrest => hdisjoint bz hhanded bz hrest rfl
    obtain ⟨fate, hcall⟩ : ∃ fate, (bz, fate) ∈ log := by simpa using hhanded
    have hone : ∀ fate', (bz, fate') ∈ log → fate' = fate := by
      intro fate' hcall'
      exact congrArg Prod.snd (List.inj_on_of_nodup_map hlog hcall' hcall rfl)
    cases fate with
    | executed =>
      have hother : (bz, Fate.failed) ∉ log := fun hfailed => by cases hone _ hfailed
      exact .inl ⟨hcall, hother, hnot⟩
    | failed =>
      have hother : (bz, Fate.executed) ∉ log := fun hexecuted => by cases hone _ hexecuted
      exact .inr (.inl ⟨hother, hcall, hnot⟩)
    | ended => exact absurd rfl (h.went _ hcall)
  · have hnot : ∀ fate, (bz, fate) ∉ log := fun fate hcall =>
      hdisjoint bz (List.mem_map_of_mem hcall) bz hrest rfl
    exact .inr (.inr ⟨hnot _, hnot _, hrest⟩)

end

end LoopEnd

/-- **Reaping is a partition of the mempool that keeps its order.**  Unless the process ends on the way,
`reapMempool` returns after as many rounds as there are transactions, or more.  It returns nothing or
some of them in their order and with less than the allowed bytes, and each of them is returned, or has
failed, or is in the mempool: there are those that it did not come to, and the first that did not fit. -/
theorem reaping_partitions (X : Host) (height : ℤ) (committed : Database) (calls : BlockCalls)
    (maxTxBytes : UInt64) {s : BlockState} {queue : List Bytes} (hholds : Holds X s.mempool queue)
    (hdecode : ∀ bz ∈ queue, ∃ tx, X.unmarshal bz = .ok tx) {rounds : ℕ}
    (hrounds : queue.length ≤ rounds) :
    let log := reapCalls X height committed calls maxTxBytes rounds 0 [] 0 s
    ((∃ bz, (bz, Fate.ended) ∈ log)
        ∧ reapMempool X height committed calls maxTxBytes rounds 0 [] 0 s = none) ∨
      ∃ txs s', reapMempool X height committed calls maxTxBytes rounds 0 [] 0 s = some (.ok txs, s')
        ∧ (txs = [] ∨ txs.Sublist queue ∧ bytesOf txs < maxTxBytes.toNat)
        ∧ (∀ bz ∈ queue, ExactlyOne (bz ∈ txs) ((bz, Fate.failed) ∈ log) (bz ∈ s'.mempool.getAll))
        ∧ (s'.mempool.getAll = [] ∨ ∃ before bz tail, queue = before ++ bz :: tail
            ∧ s'.mempool.getAll = tail ++ [bz] ∧ before = log.map Prod.fst
            ∧ (∀ before' bz' fate after, log = before' ++ (bz', fate) :: after →
                bytesOf (executedIn before') + bz'.length < maxTxBytes.toNat)
            ∧ maxTxBytes.toNat ≤ bytesOf txs + bz.length) := by
  intro log
  have hfits : bytesOf [] + bytesOf queue < 2 ^ 64 := by
    have hlimit := hholds.fewBytes
    have hlt := X.maxTxsBytesTotal.toNat_lt
    simp only [bytesOf_nil]
    omega
  have hnodup : queue.Nodup := hholds.queue ▸ hholds.mirrored.nodup.of_map
  rcases @reapMempool_ends X height committed calls maxTxBytes rounds 0 [] 0 s queue hholds hdecode
    hrounds rfl hfits with hended | ⟨s', hreap, hend⟩
  · exact .inl hended
  · rw [List.nil_append] at hreap
    have hfitted : ∀ before bz fate after, log = before ++ (bz, fate) :: after →
        bytesOf (executedIn before) + bz.length < maxTxBytes.toNat := by
      simpa using hend.fitted
    refine .inr ⟨executedIn log, s', hreap, ?_, fun bz hbz => hend.exactlyOne hnodup hbz, ?_⟩
    · rcases LoopEnd.executed_fit hend.fitted with hnone | hfit
      · exact .inl hnone
      · exact .inr ⟨hend.sublist, by simpa using hfit⟩
    · rcases hend.stopped with ⟨-, hleft⟩ | ⟨bz, tail, hqueue, hleft, hmax⟩
      · exact .inl hleft
      · exact .inr ⟨_, bz, tail, hqueue, hleft, rfl, hfitted, by simpa using hmax⟩

/-- A mempool with both encodings, and room for one of them in the block. -/
def bothEncodings : BlockState :=
  ⟨blockDatabase "0", [], ⟨{"00", "0000"}, [[0], [0, 0]], ⟨2, 3⟩⟩, .empty⟩

theorem holds_bothEncodings : Holds twoEncodings bothEncodings.mempool [[0], [0, 0]] where
  queue := rfl
  mirrored := ⟨by decide, fun hash => by
    have hhashes : bothEncodings.mempool.queue.map twoEncodings.txHash = ["00", "0000"] := by decide
    change hash ∈ bothEncodings.mempool.set ↔ hash ∈ List.map twoEncodings.txHash _
    rw [hhashes]
    simp [bothEncodings]⟩
  count := rfl
  bytes := rfl
  fewTxs := by decide
  fewBytes := by decide

theorem reaping_both_encodings :
    let log := reapCalls twoEncodings 2 (blockDatabase "0") quietCalls 3 2 0 [] 0 bothEncodings
    log = [([0], .executed)] ∧
    ∃ txs s', reapMempool twoEncodings 2 (blockDatabase "0") quietCalls 3 2 0 [] 0 bothEncodings
        = some (.ok txs, s')
      ∧ (txs = [] ∨ txs.Sublist [[0], [0, 0]] ∧ bytesOf txs < 3)
      ∧ ∀ bz ∈ [[0], [0, 0]],
          ExactlyOne (bz ∈ txs) ((bz, Fate.failed) ∈ log) (bz ∈ s'.mempool.getAll) := by
  intro log
  have hlog : log = [([0], .executed)] := by decide
  have hdecode : ∀ bz ∈ [[0], [0, 0]], ∃ tx, twoEncodings.unmarshal bz = .ok tx := by
    simp [twoEncodings]
  rcases reaping_partitions twoEncodings 2 (blockDatabase "0") quietCalls 3 holds_bothEncodings
      hdecode (le_refl 2) with ⟨⟨bz, hended⟩, -⟩ | ⟨txs, s', hreap, hbytes, hone, -⟩
  · have hlogged : (bz, Fate.ended) ∈ log := hended
    simp [hlog] at hlogged
  · exact ⟨hlog, txs, s', hreap, hbytes, hone⟩

end Pocket.Utility
