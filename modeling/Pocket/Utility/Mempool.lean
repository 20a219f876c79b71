import Mathlib.Data.Finset.Basic
import Pocket.Model.Types

/-!
# The mempool of transactions

A first-in first-out queue without duplicates: a set of the indexes of its items beside the
queue itself, and counters that callbacks keep.  The mempool of transactions is indexed by the
hash of the bytes as they came and counts transactions and bytes.
-/

set_option autoImplicit false

namespace Pocket.Utility

open Model (Bytes)

/-! ## First-in first-out sets -/

/-- SOURCE: shared/mempool/generic_fifo_set.go:10-22 -/
structure FifoSet (ι α σ : Type) where
  set : Finset ι
  queue : List α
  counters : σ

/-- SOURCE: shared/mempool/generic_fifo_set.go:15-21 -/
structure FifoSetOptions (ι α σ : Type) where
  indexerFn : α → ι
  isOverflowing : List α → σ → Bool
  onAdd : α → σ → σ
  onRemove : α → σ → σ

namespace FifoSet

variable {ι α σ : Type} [DecidableEq ι] (o : FifoSetOptions ι α σ)

/-- `none` is a collision.  When the queue overflows its front leaves, but the callback is
given the item that came.
SOURCE: shared/mempool/generic_fifo_set.go:43-66 -/
def push (item : α) (g : FifoSet ι α σ) : Option (FifoSet ι α σ) :=
  if o.indexerFn item ∈ g.set then none
  else
    let set := insert (o.indexerFn item) g.set
    let queue := g.queue ++ [item]
    let counters := o.onAdd item g.counters
    if o.isOverflowing queue counters then
      some ⟨(queue.head?.map o.indexerFn).elim set set.erase, queue.tail, o.onRemove item counters⟩
    else some ⟨set, queue, counters⟩

/-- SOURCE: shared/mempool/generic_fifo_set.go:68-82 -/
def pop (g : FifoSet ι α σ) : Option (α × FifoSet ι α σ) :=
  match g.queue with
  | [] => none
  | item :: queue => some (item, ⟨g.set.erase (o.indexerFn item), queue, o.onRemove item g.counters⟩)

/-- SOURCE: shared/mempool/generic_fifo_set.go:84-99 -/
def remove (item : α) (g : FifoSet ι α σ) : FifoSet ι α σ :=
  let index := o.indexerFn item
  if index ∈ g.set then
    let found := g.queue.any fun other => o.indexerFn other = index
    { set := g.set.erase index
      queue := g.queue.eraseP fun other => o.indexerFn other = index
      counters := if found then o.onRemove item g.counters else g.counters }
  else g

/-- SOURCE: shared/mempool/generic_fifo_set.go:101-111 -/
def getAll (g : FifoSet ι α σ) : List α := g.queue

/-- The counters are not the set's own.
SOURCE: shared/mempool/generic_fifo_set.go:133-139 -/
def clear (g : FifoSet ι α σ) : FifoSet ι α σ := { g with set := ∅, queue := [] }

/-- SOURCE: shared/mempool/generic_fifo_set.go:141-146 -/
def isEmpty (g : FifoSet ι α σ) : Bool := g.queue.length = 0

/-- SOURCE: shared/mempool/generic_fifo_set.go:156-162 -/
def containsIndex (index : ι) (g : FifoSet ι α σ) : Bool := index ∈ g.set

end FifoSet

/-! ## Transactions -/

structure TxCounters where
  txCount : UInt32
  txsBytesTotal : UInt64

abbrev TxMempool := FifoSet String Bytes TxCounters

/-- SOURCE: utility/types/tx_fifo_mempool.go:88-124 -/
def txFifoOptions (txHash : Bytes → String) (maxTxsBytesTotal : UInt64) (maxTxs : UInt32) :
    FifoSetOptions String Bytes TxCounters where
  indexerFn := txHash
  isOverflowing := fun _ counters =>
    maxTxs < counters.txCount || maxTxsBytesTotal < counters.txsBytesTotal
  onAdd := fun item counters =>
    ⟨counters.txCount + 1, counters.txsBytesTotal + UInt64.ofNat item.length⟩
  onRemove := fun item counters =>
    ⟨counters.txCount - 1, counters.txsBytesTotal - UInt64.ofNat item.length⟩

def TxMempool.empty : TxMempool := ⟨∅, [], ⟨0, 0⟩⟩

namespace TxMempool

/-- SOURCE: utility/types/tx_fifo_mempool.go:29-41 -/
def clear (t : TxMempool) : TxMempool := { FifoSet.clear t with counters := ⟨0, 0⟩ }

/-- SOURCE: utility/types/tx_fifo_mempool.go:64-69 -/
def txCount (t : TxMempool) : UInt32 := t.counters.txCount

/-- SOURCE: utility/types/tx_fifo_mempool.go:71-76 -/
def txsBytesTotal (t : TxMempool) : UInt64 := t.counters.txsBytesTotal

end TxMempool

/-! ## Calls -/

inductive MempoolCall
  | addTx (tx : Bytes)
  | popTx
  | removeTx (tx : Bytes)
  | clear

/-- The mempool after a call; one that returns an error leaves it as it is.
SOURCE: utility/types/tx_fifo_mempool.go:21-62 -/
def TxMempool.call (o : FifoSetOptions String Bytes TxCounters) (t : TxMempool) :
    MempoolCall → TxMempool
  | .addTx tx => (t.push o tx).getD t
  | .popTx => ((t.pop o).map Prod.snd).getD t
  | .removeTx tx => t.remove o tx
  | .clear => t.clear

end Pocket.Utility
