import Pocket.Library.Runs
import Pocket.Library.TalliedQueue
import Pocket.Model.HotstuffMempool

/-!
# The books of a message pool

`Size`, `TotalMsgBytes` and `Contains` answer from counters that the callbacks of the list keep.  They go
wrong in four ways: a push that evicts counts off the message that came and not the one that left, `Clear`
leaves the hash counters, the counter of a hash is a byte and its entry is deleted when the counter
comes down from one, and the counters of messages and bytes may wrap.  `KeepsPool` says which calls avoid
all of these, and the books are right along every run of such calls.
-/

set_option autoImplicit false

namespace Pocket.Analysis

open Pocket.Model CountedPool
open TalliedQueue

variable {K : MessageCodec} {maxTotalMsgBytes : UInt64} {mp : CountedPool}

/-! ## What the calls of a list do -/

namespace GenericFIFOList

variable {α σ : Type} (o : FIFOListOptions α σ) (g : GenericFIFOList α σ)

theorem push_cases (item : α) :
    o.isOverflowing (o.onAdd item g.counters) = false
        ∧ g.push o item = ⟨g.queue ++ [item], o.onAdd item g.counters⟩ ∨
      o.isOverflowing (o.onAdd item g.counters) = true
        ∧ ∃ front rest, g.queue ++ [item] = front :: rest
          ∧ g.push o item = ⟨rest, o.onRemove item (o.onAdd item g.counters)⟩ := by
  unfold GenericFIFOList.push
  cases hover : o.isOverflowing (o.onAdd item g.counters) with
  | false => exact .inl ⟨rfl, by simp [hover]⟩
  | true =>
    obtain ⟨front, rest, hqueue⟩ := List.exists_cons_of_ne_nil (List.append_ne_nil_of_right_ne_nil
      g.queue (List.cons_ne_nil item []))
    exact .inr ⟨rfl, front, rest, hqueue, by simp [hover, hqueue]⟩

theorem remove_cases (item : α) :
    g.queue.find? (fun other => o.isEqual other item) = none ∧ g.remove o item = g ∨
      ∃ l held r, g.queue = l ++ held :: r
        ∧ g.queue.find? (fun other => o.isEqual other item) = some held
        ∧ g.remove o item = ⟨l ++ r, o.onRemove item g.counters⟩ := by
  unfold GenericFIFOList.remove
  cases hfind : g.queue.find? (fun other => o.isEqual other item) with
  | none =>
    have hnone : (g.queue.any fun other => o.isEqual other item) = false := by simpa using hfind
    exact .inl ⟨rfl, by simp [hnone]⟩
  | some held =>
    obtain ⟨hheld, l, r, hqueue, hbefore⟩ := List.find?_eq_some_iff_append.mp hfind
    have hany : (g.queue.any fun other => o.isEqual other item) = true := by
      rw [List.any_eq_true]
      exact ⟨held, by simp [hqueue], hheld⟩
    have herase : g.queue.eraseP (fun other => o.isEqual other item) = l ++ r := by
      rw [hqueue, List.eraseP_append_right _ (by simpa using hbefore)]
      simp [hheld]
    exact .inr ⟨l, held, r, hqueue, rfl, by rw [if_pos hany, herase]⟩

end GenericFIFOList

/-! ## Right books -/

/-- The marshalled lengths of the messages together. -/
def msgBytes (K : MessageCodec) (msgs : List HotstuffMessage) : ℕ :=
  (msgs.map fun msg => (K.marshal msg).length).sum

@[simp] theorem msgBytes_nil : msgBytes K [] = 0 := rfl

@[simp] theorem msgBytes_cons (msg : HotstuffMessage) (msgs : List HotstuffMessage) :
    msgBytes K (msg :: msgs) = (K.marshal msg).length + msgBytes K msgs := by
  simp [msgBytes]

@[simp] theorem msgBytes_append (msgs msgs' : List HotstuffMessage) :
    msgBytes K (msgs ++ msgs') = msgBytes K msgs + msgBytes K msgs' := by
  simp [msgBytes]

/-- What the pool answers is so of the messages that it holds. -/
structure PoolBooks (K : MessageCodec) (mp : CountedPool) : Prop where
  size : mp.size = mp.getAll.length
  bytes : mp.totalMsgBytes.toNat = msgBytes K mp.getAll
  contains : ∀ msg, mp.contains K msg = true ↔ ∃ held ∈ mp.getAll, K.hashMsg held = K.hashMsg msg

/-- The invariant: each hash has the counter of its messages, and there is room in a pool that is not
empty. -/
structure PoolCounted (K : MessageCodec) (maxTotalMsgBytes : UInt64) (mp : CountedPool) : Prop where
  size : mp.counters.size.toNat = mp.queue.length
  bytes : mp.counters.totalMsgBytes.toNat = msgBytes K mp.queue
  tallies : Tallies K.hashMsg mp.counters.hashCounterSet mp.queue
  room : msgBytes K mp.queue = 0 ∨ msgBytes K mp.queue < maxTotalMsgBytes.toNat

theorem PoolCounted.books (h : PoolCounted K maxTotalMsgBytes mp) :
    PoolBooks K mp where
  size := h.size
  bytes := h.bytes
  contains := fun msg => by
    rw [contains, h.tallies.isSome_iff, List.mem_map]
    rfl

/-! ## Callbacks -/

section

variable (msg : HotstuffMessage) (c : HotstuffCounters)

theorem hashCounterSet_onAdd :
    (c.onAdd K msg).hashCounterSet
      = Function.update c.hashCounterSet (K.hashMsg msg) (raise (c.hashCounterSet (K.hashMsg msg))) :=
  rfl

theorem hashCounterSet_onRemove :
    (c.onRemove K msg).hashCounterSet
      = Function.update c.hashCounterSet (K.hashMsg msg)
          (lower (c.hashCounterSet (K.hashMsg msg))) := by
  simp only [HotstuffCounters.onRemove, HotstuffCounters.decrementCounters]
  cases hcount : c.hashCounterSet (K.hashMsg msg) with
  | none =>
    rw [lower, ← hcount, Function.update_eq_self]
    simp only [hcount]
  | some count => rfl

theorem size_onRemove : (c.onRemove K msg).size = c.size - 1 := rfl

theorem totalMsgBytes_onRemove :
    (c.onRemove K msg).totalMsgBytes = c.totalMsgBytes - UInt64.ofNat (K.marshal msg).length := rfl

end

/-! ## Calls -/

/-- How many messages of the pool have the hash of a message. -/
def occurrences (K : MessageCodec) (msg : HotstuffMessage) (msgs : List HotstuffMessage) : ℕ :=
  (msgs.map K.hashMsg).count (K.hashMsg msg)

/-- The messages are counted alike. -/
def CountedAlike (K : MessageCodec) (msg msg' : HotstuffMessage) : Prop :=
  K.hashMsg msg = K.hashMsg msg' ∧ (K.marshal msg).length = (K.marshal msg').length

instance (msg msg' : HotstuffMessage) : Decidable (CountedAlike K msg msg') :=
  inferInstanceAs (Decidable (_ ∧ _))

/-- The calls that keep the books.
* A message that is pushed has room, and the counters do not wrap; or it evicts one that is counted alike,
  which may be itself, from a pool that may hold something.
* What is taken out is counted as the message that was asked for, and its hash is not there 257 times,
  513 times and so on.
* A pool that is cleared is empty. -/
def KeepsPool (K : MessageCodec) (maxTotalMsgBytes : UInt64) (mp : CountedPool) : PoolCall → Prop
  | .push msg =>
    if maxTotalMsgBytes.toNat ≤ (msgBytes K mp.queue + (K.marshal msg).length) % 2 ^ 64 then
      0 < maxTotalMsgBytes ∧ (∀ front ∈ (mp.queue ++ [msg]).head?, CountedAlike K front msg)
        ∧ Lowerable (occurrences K msg (mp.queue ++ [msg]))
    else
      mp.queue.length + 1 < 2 ^ 32 ∧ msgBytes K mp.queue + (K.marshal msg).length < 2 ^ 64
  | .pop => ∀ front ∈ mp.queue.head?, Lowerable (occurrences K front mp.queue)
  | .remove msg => ∀ held ∈ mp.queue.find? (fun other => K.hashMsg other = K.hashMsg msg),
      CountedAlike K held msg ∧ Lowerable (occurrences K msg mp.queue)
  | .clear => mp.queue = []

instance decidableKeepsPool (K : MessageCodec) (maxTotalMsgBytes : UInt64) (mp : CountedPool) :
    ∀ c, Decidable (KeepsPool K maxTotalMsgBytes mp c)
  | .push msg => inferInstanceAs (Decidable (if maxTotalMsgBytes.toNat
        ≤ (msgBytes K mp.queue + (K.marshal msg).length) % 2 ^ 64
      then 0 < maxTotalMsgBytes ∧ (∀ front ∈ (mp.queue ++ [msg]).head?, CountedAlike K front msg) ∧ _
      else _ ∧ _))
  | .pop => inferInstanceAs (Decidable (∀ front ∈ mp.queue.head?, _))
  | .remove msg => inferInstanceAs
      (Decidable (∀ held ∈ mp.queue.find? (fun other => K.hashMsg other = K.hashMsg msg), _))
  | .clear => inferInstanceAs (Decidable (mp.queue = []))

namespace PoolCounted

theorem start : PoolCounted K maxTotalMsgBytes .newHotstuffFIFOMempool where
  size := rfl
  bytes := rfl
  tallies := .empty
  room := .inl rfl

section

variable (h : PoolCounted K maxTotalMsgBytes mp)
include h

theorem removed {msg held : HotstuffMessage} {l r : List HotstuffMessage}
    (hqueue : mp.queue = l ++ held :: r) (halike : CountedAlike K held msg)
    (hlower : Lowerable (occurrences K msg mp.queue)) :
    PoolCounted K maxTotalMsgBytes ⟨l ++ r, mp.counters.onRemove K msg⟩ := by
  have hsize := h.size
  have hbytes := h.bytes
  have hroom := h.room
  have htallies := h.tallies
  rw [hqueue, List.length_append, List.length_cons, ← Nat.add_assoc, ← List.length_append] at hsize
  rw [hqueue, msgBytes_append, msgBytes_cons, halike.2, Nat.add_left_comm, Nat.add_comm] at hbytes
  rw [hqueue, msgBytes_append, msgBytes_cons] at hroom
  rw [hqueue] at htallies
  rw [occurrences, ← halike.1, hqueue] at hlower
  constructor
  · exact toNat_sub_one hsize
  · rw [msgBytes_append]
    exact toNat_sub_ofNat hbytes
  · rw [hashCounterSet_onRemove, ← halike.1]
    exact htallies.erase hlower
  · rw [msgBytes_append]
    omega

theorem added {msg : HotstuffMessage} (hcount : mp.queue.length + 1 < 2 ^ 32)
    (hroom : msgBytes K mp.queue + (K.marshal msg).length < maxTotalMsgBytes.toNat) :
    PoolCounted K maxTotalMsgBytes ⟨mp.queue ++ [msg], mp.counters.onAdd K msg⟩ := by
  have hlt := maxTotalMsgBytes.toNat_lt
  constructor
  · rw [List.length_append, List.length_singleton]
    exact toNat_add_one h.size hcount
  · rw [msgBytes_append, msgBytes_cons, msgBytes_nil, Nat.add_zero]
    exact toNat_add_ofNat h.bytes (by omega)
  · rw [hashCounterSet_onAdd]
    exact h.tallies.append msg
  · simpa using .inr hroom

theorem evicted {msg front : HotstuffMessage} {rest : List HotstuffMessage}
    (hqueue : mp.queue ++ [msg] = front :: rest) (halike : CountedAlike K front msg)
    (hlower : Lowerable (occurrences K msg (mp.queue ++ [msg]))) :
    PoolCounted K maxTotalMsgBytes ⟨rest, (mp.counters.onAdd K msg).onRemove K msg⟩ := by
  have hlength : mp.queue.length = rest.length := by
    simpa using congrArg List.length hqueue
  have hsum : msgBytes K mp.queue = msgBytes K rest := by
    have hboth := congrArg (msgBytes K) hqueue
    simp only [msgBytes_append, msgBytes_cons, msgBytes_nil, halike.2] at hboth
    omega
  have hroom := h.room
  constructor
  · have hsize : ((mp.counters.onAdd K msg).onRemove K msg).size = mp.counters.size :=
      UInt32.add_sub_cancel ..
    rw [hsize, h.size, hlength]
  · have htotal : ((mp.counters.onAdd K msg).onRemove K msg).totalMsgBytes
        = mp.counters.totalMsgBytes := UInt64.add_sub_cancel ..
    rw [htotal, h.bytes, hsum]
  · have hadded := h.tallies.append msg
    rw [hqueue] at hadded
    rw [occurrences, hqueue, ← halike.1] at hlower
    rw [hashCounterSet_onRemove, hashCounterSet_onAdd, ← halike.1]
    rw [← halike.1] at hadded
    exact hadded.erase (l := []) hlower
  · rwa [hsum] at hroom

theorem overflowing_iff (msg : HotstuffMessage) :
    (K.poolOptions maxTotalMsgBytes).isOverflowing
        ((K.poolOptions maxTotalMsgBytes).onAdd msg mp.counters) = true
      ↔ maxTotalMsgBytes.toNat ≤ (msgBytes K mp.queue + (K.marshal msg).length) % 2 ^ 64 := by
  have htotal : (mp.counters.onAdd K msg).totalMsgBytes.toNat
      = (msgBytes K mp.queue + (K.marshal msg).length) % 2 ^ 64 := by
    have hbytes := h.bytes
    change (mp.counters.totalMsgBytes + UInt64.ofNat (K.marshal msg).length).toNat = _
    rw [UInt64.toNat_add, UInt64.toNat_ofNat', hbytes, Nat.add_mod_mod]
  rw [← htotal, ← UInt64.le_iff_toNat_le]
  exact decide_eq_true_iff

theorem push {msg : HotstuffMessage} (hkeeps : KeepsPool K maxTotalMsgBytes mp (.push msg)) :
    let mp' := mp.call K maxTotalMsgBytes (.push msg)
    PoolCounted K maxTotalMsgBytes mp' ∧ msgBytes K mp'.queue < maxTotalMsgBytes.toNat := by
  simp only [KeepsPool, ← h.overflowing_iff] at hkeeps
  rcases GenericFIFOList.push_cases (K.poolOptions maxTotalMsgBytes) mp msg with
    ⟨hover, hpush⟩ | ⟨hover, front, rest, hqueue, hpush⟩
  · rw [← Bool.not_eq_true] at hover
    rw [if_neg hover] at hkeeps
    have hroom : msgBytes K mp.queue + (K.marshal msg).length < maxTotalMsgBytes.toNat := by
      rw [h.overflowing_iff, Nat.mod_eq_of_lt hkeeps.2] at hover
      omega
    rw [call, hpush]
    exact ⟨h.added hkeeps.1 hroom, by simpa using hroom⟩
  · rw [if_pos hover] at hkeeps
    obtain ⟨hpositive, hfront, hlower⟩ := hkeeps
    have hcounted := h.evicted hqueue (hfront front (by rw [hqueue]; rfl)) hlower
    have hroom : msgBytes K rest = 0 ∨ msgBytes K rest < maxTotalMsgBytes.toNat := hcounted.room
    have hbelow : msgBytes K rest < maxTotalMsgBytes.toNat := by
      rw [UInt64.lt_iff_toNat_lt, UInt64.toNat_zero] at hpositive
      omega
    rw [call, hpush]
    exact ⟨hcounted, hbelow⟩

theorem pop (hkeeps : KeepsPool K maxTotalMsgBytes mp .pop) :
    PoolCounted K maxTotalMsgBytes (mp.call K maxTotalMsgBytes .pop) := by
  simp only [call, GenericFIFOList.pop]
  cases hqueue : mp.queue with
  | nil => simpa [hqueue] using h
  | cons front rest =>
    simp only [KeepsPool, hqueue, List.head?_cons, Option.mem_def, Option.some.injEq,
      forall_eq'] at hkeeps
    exact h.removed (l := []) hqueue ⟨rfl, rfl⟩ (hqueue ▸ hkeeps)

theorem remove {msg : HotstuffMessage} (hkeeps : KeepsPool K maxTotalMsgBytes mp (.remove msg)) :
    PoolCounted K maxTotalMsgBytes (mp.call K maxTotalMsgBytes (.remove msg)) := by
  rw [call]
  rcases GenericFIFOList.remove_cases (K.poolOptions maxTotalMsgBytes) mp msg with
    ⟨-, hsame⟩ | ⟨l, held, r, hqueue, hfind, hremove⟩
  · rw [hsame]
    exact h
  · obtain ⟨halike, hlower⟩ := hkeeps held hfind
    rw [hremove]
    exact h.removed hqueue halike hlower

theorem clear (hkeeps : KeepsPool K maxTotalMsgBytes mp .clear) :
    PoolCounted K maxTotalMsgBytes (mp.call K maxTotalMsgBytes .clear) := by
  have htallies := h.tallies
  rw [show mp.queue = [] from hkeeps] at htallies
  exact ⟨rfl, rfl, htallies, .inl rfl⟩

theorem call {c : PoolCall} (hkeeps : KeepsPool K maxTotalMsgBytes mp c) :
    PoolCounted K maxTotalMsgBytes (mp.call K maxTotalMsgBytes c) := by
  cases c with
  | push msg => exact (h.push hkeeps).1
  | pop => exact h.pop hkeeps
  | remove msg => exact h.remove hkeeps
  | clear => exact h.clear hkeeps

end

end PoolCounted

/-! ## Runs -/

/-- **The books along a run.**  If every call keeps the books, then after each of them the pool answers
right, and after each push the total is below the limit. -/
theorem pool_books_kept (K : MessageCodec) (maxTotalMsgBytes : UInt64) (calls : List PoolCall)
    (hkeeps : Runs.Guarded (CountedPool.call K maxTotalMsgBytes) (KeepsPool K maxTotalMsgBytes)
      .newHotstuffFIFOMempool calls) :
    ∀ calls', calls' <+: calls →
      let mp := Runs.run (CountedPool.call K maxTotalMsgBytes) .newHotstuffFIFOMempool calls'
      PoolBooks K mp ∧
        ∀ before msg, calls' = before ++ [.push msg] → mp.totalMsgBytes < maxTotalMsgBytes := by
  rintro calls' ⟨rest, rfl⟩
  have hprefix := (Runs.guarded_append_iff.mp hkeeps).1
  have hstep : ∀ mp c, PoolCounted K maxTotalMsgBytes mp → KeepsPool K maxTotalMsgBytes mp c →
      PoolCounted K maxTotalMsgBytes (mp.call K maxTotalMsgBytes c) := fun _ _ h hc => h.call hc
  refine ⟨(Runs.invariant_run hstep .start hprefix).books, ?_⟩
  rintro before msg rfl
  obtain ⟨hbefore, hlast, -⟩ := Runs.guarded_append_iff.mp hprefix
  have hpush := (Runs.invariant_run hstep .start hbefore).push hlast
  rw [Runs.run_append, UInt64.lt_iff_toNat_lt]
  exact hpush.1.bytes ▸ hpush.2

/-- A vote in the first round, and one in the second, which is two bytes longer. -/
def voteAt (round : ℕ) : HotstuffMessage := ⟨Vote, 1, Prepare, round, none, .none⟩

/-- The protobuf encodings of the two votes, and what SHA3-256 gives for them. -/
def voteCodec : MessageCodec where
  marshal := fun msg =>
    if msg = voteAt 0 then [8, 2, 16, 1, 24, 2]
    else if msg = voteAt 1 then [8, 2, 16, 1, 24, 2, 32, 1]
    else []
  sha3 := fun bz =>
    if bz = [8, 2, 16, 1, 24, 2] then
      [174, 41, 92, 248, 167, 221, 11, 155, 149, 233, 96, 52, 153, 116, 191, 197, 104, 150, 45, 2, 88,
        121, 174, 52, 79, 179, 25, 47, 61, 9, 124, 93]
    else if bz = [8, 2, 16, 1, 24, 2, 32, 1] then
      [8, 121, 230, 174, 156, 130, 5, 7, 254, 88, 95, 37, 95, 167, 197, 204, 159, 148, 207, 45, 57,
        254, 184, 49, 167, 35, 236, 189, 58, 245, 67, 52]
    else bz

/-- A pool that is cleared still contains its message; and a pool with room for one vote that gets a
second one holds that, contains the first one, and counts the bytes of the first one. -/
theorem cleared_pool_contains :
    let cleared := Runs.run (CountedPool.call voteCodec 1000) .newHotstuffFIFOMempool
      [.push (voteAt 0), .clear]
    let evicted := Runs.run (CountedPool.call voteCodec 10) .newHotstuffFIFOMempool
      [.push (voteAt 0), .push (voteAt 1)]
    cleared.getAll = [] ∧ cleared.contains voteCodec (voteAt 0) = true ∧ ¬ PoolBooks voteCodec cleared ∧
    evicted.getAll = [voteAt 1] ∧ evicted.contains voteCodec (voteAt 0) = true ∧
    evicted.contains voteCodec (voteAt 1) = false ∧ evicted.totalMsgBytes = 6 ∧
    ¬ PoolBooks voteCodec evicted := by
  intro cleared evicted
  have hempty : cleared.getAll = [] := by decide
  have hstays : cleared.contains voteCodec (voteAt 0) = true := by decide
  have hlast : evicted.getAll = [voteAt 1] := by decide
  have htotal : evicted.totalMsgBytes = 6 := by decide
  refine ⟨hempty, hstays, fun h => ?_, hlast, by decide, by decide, htotal, fun h => ?_⟩
  · have hheld := (h.contains (voteAt 0)).mp hstays
    simp [hempty] at hheld
  · have hbytes := h.bytes
    rw [hlast, htotal] at hbytes
    exact absurd hbytes (by decide)

/-- A pool with room for one vote, to which the same vote comes twice, and which is cleared when it is
empty. -/
theorem same_vote_books_kept :
    let calls : List PoolCall := [.push (voteAt 0), .push (voteAt 0), .remove (voteAt 1), .pop, .clear,
      .push (voteAt 1), .remove (voteAt 1)]
    ∀ calls', calls' <+: calls →
      let mp := Runs.run (CountedPool.call voteCodec 10) .newHotstuffFIFOMempool calls'
      PoolBooks voteCodec mp ∧
        ∀ before msg, calls' = before ++ [.push msg] → mp.totalMsgBytes < 10 := by
  intro calls
  exact pool_books_kept voteCodec 10 calls (by decide)

/-! ## The pool that the handlers see -/

section Handlers

variable {P : Platform} (hsize : ∀ msg, P.msgSize msg = (K.marshal msg).length)
include hsize

section

variable (msg : HotstuffMessage) (queue : List HotstuffMessage) (c : HotstuffCounters)

theorem toHotstuffFIFOMempool_onAdd :
    toHotstuffFIFOMempool ⟨queue, c.onAdd K msg⟩
      = HotstuffFIFOMempool.incrementCounters P msg (toHotstuffFIFOMempool ⟨queue, c⟩) := by
  simp [toHotstuffFIFOMempool, size, totalMsgBytes,
    HotstuffCounters.onAdd, HotstuffCounters.incrementCounters,
    HotstuffFIFOMempool.incrementCounters, hsize]

theorem toHotstuffFIFOMempool_onRemove :
    toHotstuffFIFOMempool ⟨queue, c.onRemove K msg⟩
      = HotstuffFIFOMempool.decrementCounters P msg (toHotstuffFIFOMempool ⟨queue, c⟩) := by
  simp only [toHotstuffFIFOMempool, size, totalMsgBytes,
    size_onRemove, totalMsgBytes_onRemove, HotstuffFIFOMempool.decrementCounters, hsize,
    HotstuffFIFOMempool.mk.injEq, true_and]
  constructor
  · rw [UInt32.toNat_sub, UInt32.toNat_one]
    omega
  · rw [UInt64.toNat_sub, UInt64.toNat_ofNat']
    omega

end

/-- **A pop, as the handlers see it.** -/
theorem toHotstuffFIFOMempool_pop (maxTotalMsgBytes : UInt64) (mp : CountedPool) :
    (mp.pop (K.poolOptions maxTotalMsgBytes)).map (Prod.map id toHotstuffFIFOMempool)
      = mp.toHotstuffFIFOMempool.pop P := by
  unfold GenericFIFOList.pop HotstuffFIFOMempool.pop
  obtain ⟨queue, counters⟩ := mp
  cases queue with
  | nil => rfl
  | cons front rest =>
    have hremoved := toHotstuffFIFOMempool_onRemove hsize front rest counters
    exact congrArg (fun pool => some (front, pool)) hremoved

/-- **A push, as the handlers see it.** -/
theorem toHotstuffFIFOMempool_push (maxTotalMsgBytes : UInt64) (msg : HotstuffMessage)
    (mp : CountedPool) :
    toHotstuffFIFOMempool (mp.push (K.poolOptions maxTotalMsgBytes) msg)
      = mp.toHotstuffFIFOMempool.push P maxTotalMsgBytes.toNat msg := by
  have hadded := toHotstuffFIFOMempool_onAdd hsize msg (mp.queue ++ [msg]) mp.counters
  have hover : (K.poolOptions maxTotalMsgBytes).isOverflowing
        ((K.poolOptions maxTotalMsgBytes).onAdd msg mp.counters) = true
      ↔ maxTotalMsgBytes.toNat ≤ (toHotstuffFIFOMempool
          ⟨mp.queue ++ [msg], mp.counters.onAdd K msg⟩).totalMsgBytes := by
    exact decide_eq_true_iff.trans UInt64.le_iff_toNat_le
  rw [hadded] at hover
  unfold HotstuffFIFOMempool.push
  rcases GenericFIFOList.push_cases (K.poolOptions maxTotalMsgBytes) mp msg with
    ⟨hfits, hpush⟩ | ⟨hevicts, front, rest, hqueue, hpush⟩
  · rw [← Bool.not_eq_true, hover] at hfits
    rw [hpush]
    exact hadded.trans (if_neg hfits).symm
  · rw [hover] at hevicts
    obtain rfl : (mp.queue ++ [msg]).tail = rest := by rw [hqueue, List.tail_cons]
    have hremoved := toHotstuffFIFOMempool_onRemove hsize msg (mp.queue ++ [msg]).tail
      (mp.counters.onAdd K msg)
    rw [toHotstuffFIFOMempool_onAdd hsize] at hremoved
    rw [hpush]
    exact hremoved.trans (if_pos hevicts).symm

end Handlers

theorem toHotstuffFIFOMempool_push_vote :
    let P : Platform := ⟨fun _ _ _ => true, fun _ _ => [], fun m => (voteCodec.marshal m).length, fun _ => [], 0⟩
    toHotstuffFIFOMempool (newHotstuffFIFOMempool.push (voteCodec.poolOptions 10) (voteAt 0))
      = newHotstuffFIFOMempool.toHotstuffFIFOMempool.push P 10 (voteAt 0) :=
  toHotstuffFIFOMempool_push (fun _ => rfl) 10 _ _

end Pocket.Analysis
