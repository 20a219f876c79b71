import Pocket.Library.Text
import Pocket.Model.NodeState

/-!
# The message pools of a leader, with their counters

The list with callbacks that a pool is built on, and the callbacks: beside the number and the bytes of the
messages they keep a counter for each hash, by which `Contains` answers.  The handlers of consensus do
not read the hash counters, so their model leaves them out; `toHotstuffFIFOMempool` forgets them.

A message that cannot be marshalled ends the process when it is pushed (`log.Fatalf`), so `marshal` is
total on the messages of a pool.
-/

set_option autoImplicit false

namespace Pocket.Model

open Text (hexEncode)

/-! ## First-in first-out lists -/

/-- SOURCE: shared/mempool/list/generic_fifo_list.go:9-19 -/
structure GenericFIFOList (α σ : Type) where
  queue : List α
  counters : σ

/-- SOURCE: shared/mempool/list/generic_fifo_list.go:14-18 -/
structure FIFOListOptions (α σ : Type) where
  isEqual : α → α → Bool
  isOverflowing : σ → Bool
  onAdd : α → σ → σ
  onRemove : α → σ → σ

namespace GenericFIFOList

variable {α σ : Type} (o : FIFOListOptions α σ)

/-- When the list overflows its front leaves, but the callback is given the item that came.
SOURCE: shared/mempool/list/generic_fifo_list.go:42-55 -/
def push (item : α) (g : GenericFIFOList α σ) : GenericFIFOList α σ :=
  let queue := g.queue ++ [item]
  let counters := o.onAdd item g.counters
  if o.isOverflowing counters then ⟨queue.tail, o.onRemove item counters⟩ else ⟨queue, counters⟩

/-- SOURCE: shared/mempool/list/generic_fifo_list.go:57-70 -/
def pop (g : GenericFIFOList α σ) : Option (α × GenericFIFOList α σ) :=
  match g.queue with
  | [] => none
  | item :: queue => some (item, ⟨queue, o.onRemove item g.counters⟩)

/-- The first item that is equal leaves, and the callback is given the item that was asked for.
SOURCE: shared/mempool/list/generic_fifo_list.go:72-83 -/
def remove (item : α) (g : GenericFIFOList α σ) : GenericFIFOList α σ :=
  if g.queue.any fun other => o.isEqual other item then
    ⟨g.queue.eraseP fun other => o.isEqual other item, o.onRemove item g.counters⟩
  else g

/-- SOURCE: shared/mempool/list/generic_fifo_list.go:92-97 -/
def clear (g : GenericFIFOList α σ) : GenericFIFOList α σ := { g with queue := [] }

/-- SOURCE: shared/mempool/list/generic_fifo_list.go:119-128 -/
def getAll (g : GenericFIFOList α σ) : List α := g.queue

end GenericFIFOList

/-! ## Pools -/

/-- The codec and the hash of messages. -/
structure MessageCodec where
  marshal : HotstuffMessage → Bytes
  sha3 : Bytes → Bytes

/-- SOURCE: consensus/hotstuff_mempool.go:150-156, shared/crypto/sha3.go:20-23 -/
def MessageCodec.hashMsg (K : MessageCodec) (msg : HotstuffMessage) : String :=
  hexEncode (K.sha3 (K.marshal msg))

/-- SOURCE: consensus/hotstuff_mempool.go:18-25 -/
structure HotstuffCounters where
  size : UInt32
  totalMsgBytes : UInt64
  hashCounterSet : String → Option UInt8

namespace HotstuffCounters

variable (K : MessageCodec)

/-- SOURCE: consensus/hotstuff_mempool.go:130-138 -/
def incrementCounters (item : HotstuffMessage) (c : HotstuffCounters) : HotstuffCounters :=
  { c with
    size := c.size + 1
    totalMsgBytes := c.totalMsgBytes + UInt64.ofNat (K.marshal item).length }

/-- SOURCE: consensus/hotstuff_mempool.go:140-148 -/
def decrementCounters (item : HotstuffMessage) (c : HotstuffCounters) : HotstuffCounters :=
  { c with
    size := c.size - 1
    totalMsgBytes := c.totalMsgBytes - UInt64.ofNat (K.marshal item).length }

/-- SOURCE: consensus/hotstuff_mempool.go:47-57 -/
def onAdd (item : HotstuffMessage) (c : HotstuffCounters) : HotstuffCounters :=
  let hash := K.hashMsg item
  let hashCounterSet :=
    Function.update c.hashCounterSet hash (some ((c.hashCounterSet hash).getD 0 + 1))
  incrementCounters K item { c with hashCounterSet }

/-- SOURCE: consensus/hotstuff_mempool.go:58-70 -/
def onRemove (item : HotstuffMessage) (c : HotstuffCounters) : HotstuffCounters :=
  let hash := K.hashMsg item
  let hashCounterSet := match c.hashCounterSet hash with
    | none => c.hashCounterSet
    | some prevHashCount => Function.update c.hashCounterSet hash
        (if prevHashCount = 1 then none else some (prevHashCount - 1))
  decrementCounters K item { c with hashCounterSet }

end HotstuffCounters

/-- A pool with all of its counters. -/
abbrev CountedPool := GenericFIFOList HotstuffMessage HotstuffCounters

/-- SOURCE: consensus/hotstuff_mempool.go:36-71 -/
def MessageCodec.poolOptions (K : MessageCodec) (maxTotalMsgBytes : UInt64) :
    FIFOListOptions HotstuffMessage HotstuffCounters where
  isEqual := fun a b => K.hashMsg a = K.hashMsg b
  isOverflowing := fun c => maxTotalMsgBytes ≤ c.totalMsgBytes
  onAdd := HotstuffCounters.onAdd K
  onRemove := HotstuffCounters.onRemove K

namespace CountedPool

/-- SOURCE: consensus/hotstuff_mempool.go:27-34 -/
def newHotstuffFIFOMempool : CountedPool := ⟨[], ⟨0, 0, fun _ => none⟩⟩

/-- The hash counters stay.
SOURCE: consensus/hotstuff_mempool.go:80-91 -/
def clear (mp : CountedPool) : CountedPool :=
  { GenericFIFOList.clear mp with
    counters := { mp.counters with size := 0, totalMsgBytes := 0 } }

/-- SOURCE: consensus/hotstuff_mempool.go:106-110 -/
def size (mp : CountedPool) : ℕ := mp.counters.size.toNat

/-- SOURCE: consensus/hotstuff_mempool.go:112-116 -/
def totalMsgBytes (mp : CountedPool) : UInt64 := mp.counters.totalMsgBytes

/-- SOURCE: consensus/hotstuff_mempool.go:122-128 -/
def contains (K : MessageCodec) (msg : HotstuffMessage) (mp : CountedPool) : Bool :=
  (mp.counters.hashCounterSet (K.hashMsg msg)).isSome

/-- What the handlers of consensus see of a pool. -/
def toHotstuffFIFOMempool (mp : CountedPool) : HotstuffFIFOMempool :=
  ⟨mp.queue, mp.size, mp.totalMsgBytes.toNat⟩

end CountedPool

inductive PoolCall
  | push (msg : HotstuffMessage)
  | pop
  | remove (msg : HotstuffMessage)
  | clear

/-- SOURCE: consensus/hotstuff_mempool.go:76-104 -/
def CountedPool.call (K : MessageCodec) (maxTotalMsgBytes : UInt64) (mp : CountedPool) :
    PoolCall → CountedPool
  | .push msg => GenericFIFOList.push (K.poolOptions maxTotalMsgBytes) msg mp
  | .pop => ((GenericFIFOList.pop (K.poolOptions maxTotalMsgBytes) mp).map Prod.snd).getD mp
  | .remove msg => GenericFIFOList.remove (K.poolOptions maxTotalMsgBytes) msg mp
  | .clear => CountedPool.clear mp

end Pocket.Model
