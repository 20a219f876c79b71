import Pocket.Library.IndexedQueue
import Pocket.Library.Runs
import Pocket.Library.TalliedQueue
import Pocket.Library.Text
import Pocket.Utility.Mempool

/-!
# The books of the mempool

A mempool keeps its transactions in three places: the queue, the set of their hashes, and the counters
of transactions and bytes.  The set and the queue are updated together, so they agree after any calls.
The counters are updated by callbacks, and a push that overflows gives the callback the transaction that
came in place of the one that leaves.  So the count of bytes stays right as long as the two have the same
length; and a count that is not brought down by an eviction must not wrap.

The limits are checked on the counters, once for each push.  As long as a transaction that leaves is at
least as long as the one that came for it, the counters do not fall below what is held, and the limits
are kept.
-/

set_option autoImplicit false

namespace Pocket.Utility

open Model (Bytes)
open IndexedQueue TxMempool FifoSet
open TalliedQueue (toNat_sub_one toNat_sub_ofNat)

/-! ## First-in first-out sets -/

namespace FifoSet

variable {ι α σ : Type} [DecidableEq ι] {o : FifoSetOptions ι α σ} {g g' : FifoSet ι α σ} {item : α}

/-- A push puts the item at the end; if the queue overflows then, its front leaves, and the counters are
those after the item was added and removed. -/
theorem push_cases (h : g.push o item = some g') :
    o.indexerFn item ∉ g.set ∧
      (o.isOverflowing (g.queue ++ [item]) (o.onAdd item g.counters) = false
          ∧ g' = ⟨insert (o.indexerFn item) g.set, g.queue ++ [item], o.onAdd item g.counters⟩
        ∨ o.isOverflowing (g.queue ++ [item]) (o.onAdd item g.counters) = true
          ∧ ∃ front rest, g.queue ++ [item] = front :: rest
            ∧ g' = ⟨(insert (o.indexerFn item) g.set).erase (o.indexerFn front), rest,
                o.onRemove item (o.onAdd item g.counters)⟩) := by
  unfold push at h
  split at h
  · exact absurd h (by simp)
  · rename_i hnew
    refine ⟨hnew, ?_⟩
    simp only at h
    split at h
    · rename_i hover
      refine .inr ⟨hover, ?_⟩
      cases hqueue : g.queue ++ [item] with
      | nil => simp at hqueue
      | cons front rest =>
        rw [hqueue] at h
        exact ⟨front, rest, rfl, (Option.some.inj h).symm⟩
    · rename_i hroom
      exact .inl ⟨by simpa using hroom, (Option.some.inj h).symm⟩

theorem push_eq_none_iff : g.push o item = none ↔ o.indexerFn item ∈ g.set := by
  unfold push
  simp only
  split_ifs <;> simp_all

theorem pop_cases (h : g.pop o = some (item, g')) :
    ∃ rest, g.queue = item :: rest
      ∧ g' = ⟨g.set.erase (o.indexerFn item), rest, o.onRemove item g.counters⟩ := by
  unfold pop at h
  split at h
  · exact absurd h (by simp)
  · rename_i first rest hqueue
    simp only [Option.some.injEq, Prod.mk.injEq] at h
    obtain ⟨rfl, rfl⟩ := h
    exact ⟨rest, hqueue, rfl⟩

theorem containsIndex_iff {index : ι} : g.containsIndex index = true ↔ index ∈ g.set :=
  decide_eq_true_iff

/-- The set and the queue agree. -/
def Mirrored (o : FifoSetOptions ι α σ) (g : FifoSet ι α σ) : Prop :=
  Mirrors o.indexerFn g.set g.queue

/-- A removal takes out the one item with the index, and the counters are those after the item that was
given was removed. -/
theorem remove_cases (h : Mirrored o g) (item : α) :
    o.indexerFn item ∉ g.set ∧ g.remove o item = g ∨
      o.indexerFn item ∈ g.set ∧ ∃ l held r, g.queue = l ++ held :: r
        ∧ o.indexerFn held = o.indexerFn item
        ∧ g.remove o item = ⟨g.set.erase (o.indexerFn held), l ++ r, o.onRemove item g.counters⟩ := by
  unfold remove
  by_cases hin : o.indexerFn item ∈ g.set
  · obtain ⟨l, held, r, hqueue, hindex, herase⟩ := h.exists_split hin
    refine .inr ⟨hin, l, held, r, hqueue, hindex, ?_⟩
    have hfound : (g.queue.any fun other => o.indexerFn other = o.indexerFn item) = true := by
      simp [hqueue, hindex]
    simp only [if_pos hin, hfound, herase, hindex, if_true]
  · exact .inl ⟨hin, by simp [hin]⟩

theorem Mirrored.push (h : Mirrored o g) (hpush : g.push o item = some g') : Mirrored o g' := by
  obtain ⟨hnew, ⟨-, rfl⟩ | ⟨-, front, rest, hqueue, rfl⟩⟩ := push_cases hpush
  · exact h.append hnew
  · have happend := h.append hnew
    rw [hqueue] at happend
    exact happend.tail

theorem Mirrored.pop (h : Mirrored o g) (hpop : g.pop o = some (item, g')) : Mirrored o g' := by
  obtain ⟨rest, hqueue, rfl⟩ := pop_cases hpop
  unfold Mirrored at h
  rw [hqueue] at h
  exact h.tail

theorem Mirrored.remove (h : Mirrored o g) (item : α) : Mirrored o (g.remove o item) := by
  rcases remove_cases h item with ⟨-, heq⟩ | ⟨-, l, held, r, hqueue, -, heq⟩
  · rw [heq]
    exact h
  · rw [heq]
    unfold Mirrored at h
    rw [hqueue] at h
    exact h.erase

end FifoSet

/-! ## Runs of calls -/

/-- How many bytes transactions have. -/
def bytesOf (txs : List Bytes) : ℕ := (txs.map List.length).sum

@[simp] theorem bytesOf_nil : bytesOf [] = 0 := rfl

@[simp] theorem bytesOf_cons (tx : Bytes) (txs : List Bytes) :
    bytesOf (tx :: txs) = tx.length + bytesOf txs := by
  simp [bytesOf]

@[simp] theorem bytesOf_append (txs txs' : List Bytes) :
    bytesOf (txs ++ txs') = bytesOf txs + bytesOf txs' := by
  simp [bytesOf]

variable {l r : List Bytes}

/-- INTERNAL: counters that are right for a list are right after one of its transactions is counted
off. -/
theorem counted_off {c : TxCounters} {tx : Bytes} (hcount : c.txCount.toNat = (l ++ tx :: r).length)
    (hbytes : c.txsBytesTotal.toNat = bytesOf (l ++ tx :: r)) :
    (c.txCount - 1).toNat = (l ++ r).length
      ∧ (c.txsBytesTotal - UInt64.ofNat tx.length).toNat = bytesOf (l ++ r) := by
  rw [List.length_append, List.length_cons, ← Nat.add_assoc, ← List.length_append] at hcount
  rw [bytesOf_append, bytesOf_cons, Nat.add_comm tx.length, ← Nat.add_assoc,
    ← bytesOf_append] at hbytes
  exact ⟨toNat_sub_one hcount, toNat_sub_ofNat hbytes⟩

/-- A mempool with the transactions that `AddTx` took, in order. -/
structure TrackedMempool where
  pool : TxMempool
  added : List Bytes

namespace TrackedMempool

def start : TrackedMempool := ⟨.empty, []⟩

def step (o : FifoSetOptions String Bytes TxCounters) (w : TrackedMempool) (c : MempoolCall) :
    TrackedMempool where
  pool := w.pool.call o c
  added := match c with
    | .addTx tx => if (w.pool.push o tx).isSome then w.added ++ [tx] else w.added
    | _ => w.added

end TrackedMempool

/-- The counters are right, no hash comes twice, the set of hashes is that of the queue, and the queue
is in the order in which `AddTx` last took its transactions. -/
structure Bookkept (txHash : Bytes → String) (w : TrackedMempool) : Prop where
  count : w.pool.txCount.toNat = w.pool.getAll.length
  bytes : w.pool.txsBytesTotal.toNat = bytesOf w.pool.getAll
  distinct : (w.pool.getAll.map txHash).Nodup
  contains : ∀ hash, w.pool.containsIndex hash = true ↔ hash ∈ w.pool.getAll.map txHash
  inOrder : w.pool.getAll.Sublist w.added.dedup

/-- The step leaves the counters right: a transaction that makes the mempool overflow is as long as the
one that leaves, and one that does not is counted without wrapping. -/
def KeepsBooks (txHash : Bytes → String) (maxTxsBytesTotal : UInt64) (maxTxs : UInt32)
    (w : TrackedMempool) : MempoolCall → Prop
  | .addTx tx =>
    let o := txFifoOptions txHash maxTxsBytesTotal maxTxs
    txHash tx ∉ w.pool.set →
      if o.isOverflowing (w.pool.queue ++ [tx]) (o.onAdd tx w.pool.counters) then
        ∀ front ∈ w.pool.queue.head?, front.length = tx.length
      else w.pool.queue.length + 1 < 2 ^ 32 ∧ bytesOf w.pool.queue + tx.length < 2 ^ 64
  | _ => True

instance (txHash : Bytes → String) (maxTxsBytesTotal : UInt64) (maxTxs : UInt32)
    (w : TrackedMempool) : ∀ c, Decidable (KeepsBooks txHash maxTxsBytesTotal maxTxs w c)
  | .addTx tx => by
    dsimp only [KeepsBooks]
    infer_instance
  | .popTx => inferInstanceAs (Decidable True)
  | .removeTx _ => inferInstanceAs (Decidable True)
  | .clear => inferInstanceAs (Decidable True)

section Steps

variable {txHash : Bytes → String} {maxTxsBytesTotal : UInt64} {maxTxs : UInt32} {w : TrackedMempool}

theorem Bookkept.mirrored (h : Bookkept txHash w) (maxTxsBytesTotal : UInt64) (maxTxs : UInt32) :
    w.pool.Mirrored (txFifoOptions txHash maxTxsBytesTotal maxTxs) :=
  ⟨h.distinct, fun hash => containsIndex_iff.symm.trans (h.contains hash)⟩

theorem bookkept_iff {pool : TxMempool} {added : List Bytes}
    (hmirrored : pool.Mirrored (txFifoOptions txHash maxTxsBytesTotal maxTxs))
    (horder : pool.queue.Sublist added.dedup) :
    Bookkept txHash ⟨pool, added⟩ ↔ pool.txCount.toNat = pool.queue.length
      ∧ pool.txsBytesTotal.toNat = bytesOf pool.queue := by
  constructor
  · intro h
    exact ⟨h.count, h.bytes⟩
  · rintro ⟨hcount, hbytes⟩
    exact ⟨hcount, hbytes, hmirrored.nodup,
      fun hash => containsIndex_iff.trans (hmirrored.mem_iff hash), horder⟩

theorem Bookkept.append_sublist (h : Bookkept txHash w) {tx : Bytes} (hnew : txHash tx ∉ w.pool.set) :
    (w.pool.queue ++ [tx]).Sublist (w.added ++ [tx]).dedup := by
  refine append_sublist_dedup h.inOrder fun hmem => hnew ?_
  exact containsIndex_iff.mp ((h.contains _).mpr (List.mem_map_of_mem hmem))

theorem Bookkept.addTx_iff (h : Bookkept txHash w) (tx : Bytes) :
    Bookkept txHash (w.step (txFifoOptions txHash maxTxsBytesTotal maxTxs) (.addTx tx))
      ↔ KeepsBooks txHash maxTxsBytesTotal maxTxs w (.addTx tx) := by
  have hcount : w.pool.counters.txCount.toNat = w.pool.queue.length := h.count
  have hbytes : w.pool.counters.txsBytesTotal.toNat = bytesOf w.pool.queue := h.bytes
  have hmirrored := h.mirrored maxTxsBytesTotal maxTxs
  cases hpush : w.pool.push (txFifoOptions txHash maxTxsBytesTotal maxTxs) tx with
  | none =>
    have hsame : w.step (txFifoOptions txHash maxTxsBytesTotal maxTxs) (.addTx tx) = w := by
      simp [TrackedMempool.step, call, hpush]
    have hin : txHash tx ∈ w.pool.set := push_eq_none_iff.mp hpush
    rw [hsame]
    exact ⟨fun _ hnew => absurd hin hnew, fun _ => h⟩
  | some pool =>
    have hstep : w.step (txFifoOptions txHash maxTxsBytesTotal maxTxs) (.addTx tx)
        = ⟨pool, w.added ++ [tx]⟩ := by
      simp [TrackedMempool.step, call, hpush]
    obtain ⟨hnew, hcases⟩ := push_cases hpush
    have horder := h.append_sublist hnew
    rw [hstep]
    rcases hcases with ⟨hroom, rfl⟩ | ⟨hover, front, rest, hqueue, rfl⟩
    · rw [bookkept_iff (hmirrored.push hpush) horder]
      have hguard : KeepsBooks txHash maxTxsBytesTotal maxTxs w (.addTx tx)
          ↔ w.pool.queue.length + 1 < 2 ^ 32 ∧ bytesOf w.pool.queue + tx.length < 2 ^ 64 := by
        simp [KeepsBooks, hroom, show txHash tx ∉ w.pool.set from hnew]
      rw [hguard]
      simp only [txCount, txsBytesTotal, txFifoOptions,
        UInt32.toNat_add, UInt32.toNat_one, UInt64.toNat_add, UInt64.toNat_ofNat', hcount, hbytes,
        List.length_append, List.length_singleton, bytesOf_append, bytesOf_cons, bytesOf_nil]
      omega
    · -- the counters are as before, and so is the number of transactions
      have hsub : rest.Sublist (w.added ++ [tx]).dedup := by
        rw [hqueue] at horder
        exact (List.sublist_cons_self front rest).trans horder
      rw [bookkept_iff (hmirrored.push hpush) hsub]
      have hfront : (∀ first ∈ w.pool.queue.head?, first.length = tx.length)
          ↔ front.length = tx.length := by
        cases hheld : w.pool.queue with
        | nil =>
          rw [hheld, List.nil_append, List.cons.injEq] at hqueue
          simp [← hqueue.1]
        | cons first held =>
          rw [hheld, List.cons_append, List.cons.injEq] at hqueue
          simp [← hqueue.1]
      have hguard : KeepsBooks txHash maxTxsBytesTotal maxTxs w (.addTx tx)
          ↔ front.length = tx.length := by
        simp only [KeepsBooks, hover, if_true, hfront, show txHash tx ∉ w.pool.set from hnew,
          not_false_eq_true, forall_const]
      have hlength := congrArg List.length hqueue
      have htotal := congrArg bytesOf hqueue
      rw [hguard]
      simp only [txCount, txsBytesTotal, txFifoOptions,
        UInt32.add_sub_cancel, UInt64.add_sub_cancel, hcount, hbytes]
      simp only [List.length_append, List.length_cons, List.length_nil, bytesOf_append, bytesOf_cons,
        bytesOf_nil] at hlength htotal
      omega

theorem Bookkept.popTx (h : Bookkept txHash w) :
    Bookkept txHash (w.step (txFifoOptions txHash maxTxsBytesTotal maxTxs) .popTx) := by
  have hcount : w.pool.counters.txCount.toNat = w.pool.queue.length := h.count
  have hbytes : w.pool.counters.txsBytesTotal.toNat = bytesOf w.pool.queue := h.bytes
  have horder : w.pool.queue.Sublist w.added.dedup := h.inOrder
  cases hpop : w.pool.pop (txFifoOptions txHash maxTxsBytesTotal maxTxs) with
  | none =>
    have hsame : w.step (txFifoOptions txHash maxTxsBytesTotal maxTxs) .popTx = w := by
      simp [TrackedMempool.step, call, hpop]
    rw [hsame]
    exact h
  | some popped =>
    have hstep : w.step (txFifoOptions txHash maxTxsBytesTotal maxTxs) .popTx
        = ⟨popped.2, w.added⟩ := by
      simp [TrackedMempool.step, call, hpop]
    obtain ⟨tx, pool⟩ := popped
    have hmirrored := (h.mirrored maxTxsBytesTotal maxTxs).pop hpop
    obtain ⟨rest, hqueue, rfl⟩ := pop_cases hpop
    rw [hqueue] at hcount hbytes horder
    rw [hstep, bookkept_iff hmirrored ((List.sublist_cons_self tx rest).trans horder)]
    exact counted_off (l := []) hcount hbytes

theorem Bookkept.removeTx (hash_injective : Function.Injective txHash) (h : Bookkept txHash w)
    (tx : Bytes) :
    Bookkept txHash (w.step (txFifoOptions txHash maxTxsBytesTotal maxTxs) (.removeTx tx)) := by
  have hcount : w.pool.counters.txCount.toNat = w.pool.queue.length := h.count
  have hbytes : w.pool.counters.txsBytesTotal.toNat = bytesOf w.pool.queue := h.bytes
  have horder : w.pool.queue.Sublist w.added.dedup := h.inOrder
  have hmirrored := h.mirrored maxTxsBytesTotal maxTxs
  have hafter := hmirrored.remove tx
  rcases remove_cases hmirrored tx with ⟨-, hsame⟩ | ⟨-, l, held, r, hqueue, hindex, heq⟩
  · have hstep : w.step (txFifoOptions txHash maxTxsBytesTotal maxTxs) (.removeTx tx) = w := by
      simp [TrackedMempool.step, call, hsame]
    rw [hstep]
    exact h
  · obtain rfl : held = tx := hash_injective hindex
    rw [heq] at hafter
    rw [hqueue] at hcount hbytes horder
    have hstep : w.step (txFifoOptions txHash maxTxsBytesTotal maxTxs) (.removeTx held)
        = ⟨w.pool.remove (txFifoOptions txHash maxTxsBytesTotal maxTxs) held, w.added⟩ := rfl
    have hsub : (l ++ r).Sublist (l ++ held :: r) :=
      (List.sublist_cons_self held r).append_left l
    rw [hstep, heq, bookkept_iff hafter (hsub.trans horder)]
    exact counted_off hcount hbytes

theorem bookkept_of_empty {pool : TxMempool} {added : List Bytes} (hset : pool.set = ∅)
    (hqueue : pool.queue = []) (hcounters : pool.counters = ⟨0, 0⟩) : Bookkept txHash ⟨pool, added⟩ where
  count := by simp [txCount, getAll, hqueue, hcounters]
  bytes := by simp [txsBytesTotal, getAll, hqueue, hcounters]
  distinct := by simp [getAll, hqueue]
  contains := by simp [getAll, containsIndex, hqueue, hset]
  inOrder := by simp [getAll, hqueue]

end Steps

/-- **When the books are right**: after all calls of a run exactly when each call counts right. -/
theorem books_right_iff {txHash : Bytes → String} (hash_injective : Function.Injective txHash)
    (maxTxsBytesTotal : UInt64) (maxTxs : UInt32) (calls : List MempoolCall) :
    (∀ calls', calls' <+: calls → Bookkept txHash
        (Runs.run (TrackedMempool.step (txFifoOptions txHash maxTxsBytesTotal maxTxs)) .start calls'))
      ↔ Runs.Guarded (TrackedMempool.step (txFifoOptions txHash maxTxsBytesTotal maxTxs))
          (KeepsBooks txHash maxTxsBytesTotal maxTxs) .start calls := by
  refine Runs.forall_prefix_iff_guarded (fun _ h => h) ?_ ?_ (bookkept_of_empty rfl rfl rfl) calls
  · intro w c h hguard
    cases c with
    | addTx tx => exact (h.addTx_iff tx).mpr hguard
    | popTx => exact h.popTx
    | removeTx tx => exact h.removeTx hash_injective tx
    | clear => exact bookkept_of_empty rfl rfl rfl
  · intro w c h hafter
    cases c with
    | addTx tx => exact (h.addTx_iff tx).mp hafter
    | popTx | removeTx tx | clear => trivial

/-- The hashes of a few short transactions, which is what SHA3-256 gives for them. -/
def shortTxHashes : List (Bytes × String) :=
  [([1], "2767f15c8af2f2c7225d5273fdd683edc714110a987d1054697c348aed4e6cc7"),
   ([2], "0a1e2736777f80a62beb2df72b649878481c0ca10194b832b5136befbae54017"),
   ([2, 2], "becd6fac613a442b49eeec3e9f958df072340de4e74c001a816dcca22ddbf33d"),
   ([3, 3, 3], "1073dbed511c9c8b75f84c1acfbb0743bece19ff91b77478c0a922ca7096953a")]

/-- A hash without collisions that agrees with SHA3-256 on the short transactions. -/
def shortTxHash (tx : Bytes) : String :=
  match shortTxHashes.find? fun p => p.1 = tx with
  | some p => p.2
  | none => "-" ++ Text.hexEncode tx

theorem shortTxHash_injective : Function.Injective shortTxHash := by
  have htable : ∀ p ∈ shortTxHashes, ∀ p' ∈ shortTxHashes, p.2 = p'.2 → p.1 = p'.1 := by decide
  have hdigit : ∀ p ∈ shortTxHashes, ∀ text : String, p.2 ≠ "-" ++ text := by
    intro p hp text heq
    have hhead : ∀ p ∈ shortTxHashes, p.2.toList.head? ≠ some '-' := by decide
    exact hhead p hp (by rw [heq, String.toList_append]; rfl)
  intro tx tx' h
  unfold shortTxHash at h
  cases hfind : shortTxHashes.find? (fun p => p.1 = tx) with
  | some p =>
    have hp := List.mem_of_find?_eq_some hfind
    obtain rfl : p.1 = tx := by simpa using List.find?_some hfind
    cases hfind' : shortTxHashes.find? (fun p => p.1 = tx') with
    | some p' =>
      obtain rfl : p'.1 = tx' := by simpa using List.find?_some hfind'
      simp only [hfind, hfind'] at h
      exact htable p hp p' (List.mem_of_find?_eq_some hfind') h
    | none =>
      simp only [hfind, hfind'] at h
      exact absurd h (hdigit p hp _)
  | none =>
    cases hfind' : shortTxHashes.find? (fun p => p.1 = tx') with
    | some p' =>
      simp only [hfind, hfind'] at h
      exact absurd h.symm (hdigit p' (List.mem_of_find?_eq_some hfind') _)
    | none =>
      simp only [hfind, hfind'] at h
      exact Text.hexEncode_injective (String.append_right_inj _ |>.mp h)

/-- A longer transaction takes the place of a shorter one, and the mempool counts one byte where it
holds two. -/
theorem longer_transaction_miscounted :
    let w := Runs.run (TrackedMempool.step (txFifoOptions shortTxHash 100 1)) .start
      [.addTx [1], .addTx [2, 2]]
    w.pool.getAll = [[2, 2]] ∧ w.pool.txsBytesTotal = 1 ∧ ¬ Bookkept shortTxHash w := by
  intro w
  have hall : w.pool.getAll = [[2, 2]] := by decide
  have htotal : w.pool.txsBytesTotal = 1 := by decide
  refine ⟨hall, htotal, fun h => ?_⟩
  have hbytes := h.bytes
  rw [hall, htotal] at hbytes
  exact absurd hbytes (by decide)

/-- A transaction that takes the place of one of its length is counted right. -/
theorem equal_transaction_counted :
    let calls : List MempoolCall := [.addTx [1], .addTx [2], .popTx, .addTx [1], .removeTx [1]]
    ∀ calls', calls' <+: calls → Bookkept shortTxHash
      (Runs.run (TrackedMempool.step (txFifoOptions shortTxHash 100 1)) .start calls') := by
  intro calls
  refine (books_right_iff shortTxHash_injective 100 1 calls).mpr ?_
  decide

/-! ## Limits -/

/-- The counters say at least what is held, and what is held keeps the limits. -/
structure Limited (txHash : Bytes → String) (maxTxsBytesTotal : UInt64) (maxTxs : UInt32)
    (t : TxMempool) : Prop where
  mirrored : t.Mirrored (txFifoOptions txHash maxTxsBytesTotal maxTxs)
  count : t.counters.txCount.toNat = t.queue.length
  counted : bytesOf t.queue ≤ t.counters.txsBytesTotal.toNat
  fewTxs : t.queue.length ≤ maxTxs.toNat
  fewBytes : bytesOf t.queue ≤ maxTxsBytesTotal.toNat

/-- No transaction leaves for a longer one, and no counter wraps. -/
def KeepsLimits (txHash : Bytes → String) (maxTxsBytesTotal : UInt64) (maxTxs : UInt32)
    (t : TxMempool) : MempoolCall → Prop
  | .addTx tx =>
    let o := txFifoOptions txHash maxTxsBytesTotal maxTxs
    txHash tx ∉ t.set →
      if o.isOverflowing (t.queue ++ [tx]) (o.onAdd tx t.counters) then
        ∀ front ∈ t.queue.head?, tx.length ≤ front.length
      else t.queue.length + 1 < 2 ^ 32 ∧ t.counters.txsBytesTotal.toNat + tx.length < 2 ^ 64
  | .removeTx tx => ∀ held ∈ t.queue, txHash held = txHash tx → tx.length ≤ held.length
  | _ => True

instance (txHash : Bytes → String) (maxTxsBytesTotal : UInt64) (maxTxs : UInt32) (t : TxMempool) :
    ∀ c, Decidable (KeepsLimits txHash maxTxsBytesTotal maxTxs t c)
  | .addTx tx => by
    dsimp only [KeepsLimits]
    infer_instance
  | .popTx => inferInstanceAs (Decidable True)
  | .removeTx _ => by
    dsimp only [KeepsLimits]
    infer_instance
  | .clear => inferInstanceAs (Decidable True)

section Limits

variable {txHash : Bytes → String} {maxTxsBytesTotal : UInt64} {maxTxs : UInt32} {t : TxMempool}

theorem limited_of_empty (hset : t.set = ∅) (hqueue : t.queue = []) (hcounters : t.counters = ⟨0, 0⟩) :
    Limited txHash maxTxsBytesTotal maxTxs t where
  mirrored := by
    unfold FifoSet.Mirrored
    rw [hset, hqueue]
    exact Mirrors.empty
  count := by simp [hqueue, hcounters]
  counted := by simp [hqueue]
  fewTxs := by simp [hqueue]
  fewBytes := by simp [hqueue]

section

variable (h : Limited txHash maxTxsBytesTotal maxTxs t)
include h

theorem Limited.addTx {tx : Bytes}
    (hguard : KeepsLimits txHash maxTxsBytesTotal maxTxs t (.addTx tx)) :
    Limited txHash maxTxsBytesTotal maxTxs
      (t.call (txFifoOptions txHash maxTxsBytesTotal maxTxs) (.addTx tx)) := by
  cases hpush : t.push (txFifoOptions txHash maxTxsBytesTotal maxTxs) tx with
  | none =>
    simp only [call, hpush, Option.getD_none]
    exact h
  | some pool =>
    simp only [call, hpush, Option.getD_some]
    have hmirrored := h.mirrored.push hpush
    obtain ⟨hnew, hcases⟩ := push_cases hpush
    have hguard := hguard hnew
    have hcount := h.count
    have hcounted := h.counted
    have hfewTxs := h.fewTxs
    have hfewBytes := h.fewBytes
    rcases hcases with ⟨hroom, rfl⟩ | ⟨hover, front, rest, hqueue, rfl⟩
    · rw [if_neg (by simp [hroom])] at hguard
      have hlimits : (t.counters.txCount + 1).toNat ≤ maxTxs.toNat
          ∧ (t.counters.txsBytesTotal + UInt64.ofNat tx.length).toNat ≤ maxTxsBytesTotal.toNat := by
        simpa [txFifoOptions, UInt32.le_iff_toNat_le, UInt64.le_iff_toNat_le] using hroom
      have hone : (t.counters.txCount + 1).toNat = t.queue.length + 1 := by
        rw [UInt32.toNat_add, UInt32.toNat_one]
        omega
      have htotal : (t.counters.txsBytesTotal + UInt64.ofNat tx.length).toNat
          = t.counters.txsBytesTotal.toNat + tx.length := by
        rw [UInt64.toNat_add, UInt64.toNat_ofNat']
        omega
      constructor
      · exact hmirrored
      · simpa [txFifoOptions] using hone
      · simp only [txFifoOptions, htotal, bytesOf_append, bytesOf_cons, bytesOf_nil]
        omega
      · simp only [List.length_append, List.length_singleton]
        omega
      · simp only [bytesOf_append, bytesOf_cons, bytesOf_nil]
        omega
    · rw [if_pos hover] at hguard
      have hfront : tx.length ≤ front.length := by
        cases hheld : t.queue with
        | nil =>
          rw [hheld, List.nil_append, List.cons.injEq] at hqueue
          rw [hqueue.1]
        | cons first held =>
          rw [hheld, List.cons_append, List.cons.injEq] at hqueue
          rw [← hqueue.1]
          exact hguard first (by simp [hheld])
      have hlength := congrArg List.length hqueue
      have htotal := congrArg bytesOf hqueue
      simp only [List.length_append, List.length_cons, List.length_nil, bytesOf_append, bytesOf_cons,
        bytesOf_nil] at hlength htotal
      constructor
      · exact hmirrored
      · simp only [txFifoOptions, UInt32.add_sub_cancel]
        omega
      · simp only [txFifoOptions, UInt64.add_sub_cancel]
        omega
      · show rest.length ≤ maxTxs.toNat
        omega
      · show bytesOf rest ≤ maxTxsBytesTotal.toNat
        omega

theorem Limited.counted_off {held tx : Bytes} (hqueue : t.queue = l ++ held :: r)
    (hlen : tx.length ≤ held.length)
    (hmirrored : FifoSet.Mirrored (txFifoOptions txHash maxTxsBytesTotal maxTxs)
      ⟨t.set.erase (txHash held), l ++ r,
        (txFifoOptions txHash maxTxsBytesTotal maxTxs).onRemove tx t.counters⟩) :
    Limited txHash maxTxsBytesTotal maxTxs ⟨t.set.erase (txHash held), l ++ r,
      (txFifoOptions txHash maxTxsBytesTotal maxTxs).onRemove tx t.counters⟩ := by
  have hcount := h.count
  have hcounted := h.counted
  have hfewTxs := h.fewTxs
  have hfewBytes := h.fewBytes
  rw [hqueue] at hcount hcounted hfewTxs hfewBytes
  simp only [List.length_append, List.length_cons] at hcount hfewTxs
  simp only [bytesOf_append, bytesOf_cons] at hcounted hfewBytes
  have hlt := t.counters.txsBytesTotal.toNat_lt
  have hone : (t.counters.txCount - 1).toNat = l.length + r.length := toNat_sub_one (by omega)
  have htotal : (t.counters.txsBytesTotal - UInt64.ofNat tx.length).toNat
      = t.counters.txsBytesTotal.toNat - tx.length := toNat_sub_ofNat (by omega)
  constructor
  · exact hmirrored
  · simpa [txFifoOptions] using hone
  · simp only [txFifoOptions, htotal, bytesOf_append]
    omega
  · simp only [List.length_append]
    omega
  · simp only [bytesOf_append]
    omega

theorem Limited.popTx :
    Limited txHash maxTxsBytesTotal maxTxs
      (t.call (txFifoOptions txHash maxTxsBytesTotal maxTxs) .popTx) := by
  cases hpop : t.pop (txFifoOptions txHash maxTxsBytesTotal maxTxs) with
  | none =>
    simp only [call, hpop, Option.map_none, Option.getD_none]
    exact h
  | some popped =>
    obtain ⟨tx, pool⟩ := popped
    simp only [call, hpop, Option.map_some, Option.getD_some]
    have hmirrored := h.mirrored.pop hpop
    obtain ⟨rest, hqueue, rfl⟩ := pop_cases hpop
    exact h.counted_off (l := []) hqueue le_rfl hmirrored

theorem Limited.removeTx {tx : Bytes}
    (hguard : KeepsLimits txHash maxTxsBytesTotal maxTxs t (.removeTx tx)) :
    Limited txHash maxTxsBytesTotal maxTxs
      (t.call (txFifoOptions txHash maxTxsBytesTotal maxTxs) (.removeTx tx)) := by
  have hmirrored := h.mirrored.remove tx
  rcases remove_cases h.mirrored tx with ⟨-, hsame⟩ | ⟨-, l, held, r, hqueue, hindex, heq⟩
  · simp only [call, hsame]
    exact h
  · have hlen : tx.length ≤ held.length := hguard held (by simp [hqueue]) hindex
    simp only [call, heq] at hmirrored ⊢
    exact h.counted_off hqueue hlen hmirrored

end

end Limits

/-- **The limits are kept** along every run in which no transaction leaves for a longer one and no
counter wraps. -/
theorem limits_kept (txHash : Bytes → String) (maxTxsBytesTotal : UInt64) (maxTxs : UInt32)
    (calls : List MempoolCall)
    (hguard : Runs.Guarded (TxMempool.call (txFifoOptions txHash maxTxsBytesTotal maxTxs))
      (KeepsLimits txHash maxTxsBytesTotal maxTxs) .empty calls) :
    ∀ calls', calls' <+: calls →
      let t := Runs.run (TxMempool.call (txFifoOptions txHash maxTxsBytesTotal maxTxs)) .empty calls'
      t.getAll.length ≤ maxTxs.toNat ∧ bytesOf t.getAll ≤ maxTxsBytesTotal.toNat := by
  rintro calls' ⟨rest, rfl⟩
  have hstep : ∀ t c, Limited txHash maxTxsBytesTotal maxTxs t →
      KeepsLimits txHash maxTxsBytesTotal maxTxs t c →
      Limited txHash maxTxsBytesTotal maxTxs
        (t.call (txFifoOptions txHash maxTxsBytesTotal maxTxs) c) := by
    intro t c h hc
    cases c with
    | addTx tx => exact h.addTx hc
    | popTx => exact h.popTx
    | removeTx tx => exact h.removeTx hc
    | clear => exact limited_of_empty rfl rfl rfl
  have hlimited := Runs.invariant_run hstep (limited_of_empty rfl rfl rfl)
    (Runs.guarded_append_iff.mp hguard).1
  exact ⟨hlimited.fewTxs, hlimited.fewBytes⟩

/-- A transaction of three bytes makes one of one byte leave: the mempool then holds four bytes where
three are allowed. -/
theorem long_transaction_exceeds_limit :
    let t := Runs.run (TxMempool.call (txFifoOptions shortTxHash 3 10)) .empty
      [.addTx [1], .addTx [2], .addTx [3, 3, 3]]
    t.getAll = [[2], [3, 3, 3]] ∧ ¬ bytesOf t.getAll ≤ (3 : UInt64).toNat := by
  decide

/-- A transaction that makes a longer one leave keeps the limits. -/
theorem short_transaction_keeps_limit :
    let calls : List MempoolCall := [.addTx [2, 2], .addTx [1], .addTx [2], .removeTx [2], .popTx]
    ∀ calls', calls' <+: calls →
      let t := Runs.run (TxMempool.call (txFifoOptions shortTxHash 3 2)) .empty calls'
      t.getAll.length ≤ (2 : UInt32).toNat ∧ bytesOf t.getAll ≤ (3 : UInt64).toNat := by
  intro calls
  exact limits_kept shortTxHash 3 2 calls (by decide)

end Pocket.Utility
