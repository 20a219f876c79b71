import Mathlib.Data.Countable.Basic
import Mathlib.Logic.Equiv.List
import Pocket.Analysis.StateHash

/-!
# The state hash after a restart

A module that is created on the stores of a stopped one finds the rows, the blocks and the index,
but sets its trees up anew.  The next block sets the same leaves in both, so the hashes are the
same exactly when it sets every leaf that the trees of the stopped module held.
-/

set_option autoImplicit false

namespace Pocket.Persistence.PersistenceModule

open Model (Bytes)
open Utility (TxIndex IndexedTransaction)
open LeafMap (AgreeOff keysOf)

variable {B : Backend} {m m' : PersistenceModule} {cs : List Call}

/-! ## A block that only writes and indexes -/

def Call.computes : Call → Bool
  | .computeStateHash _ _ => true
  | _ => false

/-- The rows after the statements among the calls. -/
def written (cs : List Call) (sql : SqlState) : SqlState :=
  cs.foldl (fun sql c => match c with
    | .write statement => statement sql
    | _ => sql) sql

/-- The index after the transactions among the calls. -/
def indexed (B : Backend) (cs : List Call) (index : TxIndex) : TxIndex :=
  cs.foldl (fun index c => match c with
    | .indexTransaction idxTx => index.index B.toHost idxTx
    | _ => index) index

theorem calls_of_plain (hcs : ∀ c ∈ cs, c.computes = false) (m : PersistenceModule) :
    m.calls B cs = some { m with
      index := indexed B cs m.index
      writeContext := m.writeContext.map fun ctx => { ctx with sql := written cs ctx.sql } } := by
  induction cs generalizing m with
  | nil =>
    cases hctx : m.writeContext with
    | none =>
      rw [Option.map_none, ← hctx]
      rfl
    | some ctx =>
      rw [Option.map_some]
      refine congrArg some ?_
      have hsame : some { ctx with sql := written [] ctx.sql } = m.writeContext := hctx.symm
      rw [hsame]
      rfl
  | cons c cs ih =>
    have hrest := ih fun c' hc' => hcs c' (List.mem_cons_of_mem _ hc')
    cases c with
    | write statement =>
      refine (hrest _).trans (congrArg some ?_)
      cases m.writeContext <;> rfl
    | indexTransaction idxTx => exact hrest _
    | computeStateHash o₁ o₂ => cases hcs _ List.mem_cons_self

/-- The hash of such a block is that of the trees with the leaves of the block. -/
theorem stateHashOf_of_plain (hclosed : m.writeContext = none) (hcs : ∀ c ∈ cs, c.computes = false)
    (height : ℤ) (o₁ o₂ : TreeOrder) :
    m.stateHashOf B height cs o₁ o₂
      = (m.trees.update B (written cs m.sql) (indexed B cs m.index) height o₁ o₂).map Prod.fst := by
  rw [stateHashOf, newRWContext, hclosed]
  simp only
  rw [calls_of_plain hcs, Option.bind_some, computeStateHash, Option.map_some, Option.bind_some,
    Option.map_map]
  rfl

/-! ## Stopped and created again -/

/-- A module without anything in its stores. -/
def blank : PersistenceModule where
  sql := ⟨⟨.empty, .empty, .empty, fun _ => .empty, fun _ => []⟩, .empty⟩
  blocks := []
  blockStore := fun _ => none
  trees := .setupTrees
  index := .empty
  writeContext := none

/-- The module was created on empty stores, and then had the write contexts of the sessions. -/
def History (B : Backend) (genesis : SqlState → SqlState) (ss : List Session)
    (m : PersistenceModule) : Prop :=
  ∃ o₁ o₂ now m₀, blank.create B genesis o₁ o₂ now = some m₀ ∧ m₀.sessions B ss = some m

/-- A module with nothing in its stores is sound. -/
theorem sound_blank : blank.Sound := ⟨TreeStore.rootsOnly_setupTrees, nofun⟩

theorem History.sound {genesis : SqlState → SqlState} {ss : List Session}
    (h : History B genesis ss m) : m.Sound ∧ m.writeContext = none := by
  obtain ⟨o₁, o₂, now, m₀, hcreate, hss⟩ := h
  have hgenesis : blank.sessions B [⟨0, [.write genesis, .computeStateHash o₁ o₂], .commit [] [] now⟩]
      = some m₀ := by
    have hsession : blank.session B ⟨0, [.write genesis, .computeStateHash o₁ o₂],
        .commit [] [] now⟩ = some m₀ := hcreate
    rw [sessions, hsession]
    rfl
  obtain ⟨hm₀, hclosed⟩ := sound_sessions sound_blank rfl hgenesis
  exact sound_sessions hm₀ hclosed hss

theorem create_of_blocks {H : ℤ} (hmax : m.getMaximumBlockHeight = some H) (hH : 1 ≤ H)
    (genesis : SqlState → SqlState) (o₁ o₂ : TreeOrder) (now : ℤ × ℤ) :
    m.create B genesis o₁ o₂ now
      = some { m with trees := .setupTrees, writeContext := none } := by
  have hmax' : getMaximumBlockHeight { m with trees := .setupTrees, writeContext := none } = some H :=
    hmax
  rw [create]
  simp only [hmax']
  rw [if_pos (by omega)]

/-- **Restart transparency** holds for the blocks that set every leaf which the trees held. -/
theorem stateHash_after_restart_iff {genesis genesis' : SqlState → SqlState} {ss : List Session}
    (hm : History B genesis ss m) {H : ℤ} (hmax : m.getMaximumBlockHeight = some H) (hH : 1 ≤ H)
    {o₁ o₂ : TreeOrder} {now : ℤ × ℤ} (hcreate : m.create B genesis' o₁ o₂ now = some m')
    {cs : List Call} (hcs : ∀ c ∈ cs, c.computes = false) {o₃ o₄ o₅ o₆ : TreeOrder} {hash : String}
    (hhash : m.stateHashOf B (H + 1) cs o₃ o₄ = some hash) :
    m'.stateHashOf B (H + 1) cs o₅ o₆ = some hash ↔
      ∀ T k, (m.trees.merkleTrees T).lookup k ≠ none →
        (T, k) ∈ keysOf (leaves B (written cs m.sql) (indexed B cs m.index) (H + 1)) := by
  obtain ⟨hsound, hclosed⟩ := hm.sound
  rw [create_of_blocks hmax hH] at hcreate
  cases hcreate
  rw [stateHashOf_of_plain hclosed hcs] at hhash
  rw [stateHashOf_of_plain rfl hcs]
  obtain ⟨⟨hash', ts⟩, hupdate, rfl⟩ := Option.map_eq_some_iff.1 hhash
  obtain ⟨hash'', ts', hupdate'⟩ := TreeStore.exists_update (TreeStore.exists_leaves hupdate)
    .setupTrees o₅ o₆
  have hiff := TreeStore.update_hash_eq_iff hsound.roots TreeStore.rootsOnly_setupTrees hupdate hupdate'
  rw [hupdate', Option.map_some, Option.some.injEq, eq_comm, hiff]
  refine forall₂_congr fun T k => ?_
  have hempty : (TreeStore.setupTrees.merkleTrees T).lookup k = none := Finmap.lookup_empty k
  rw [hempty]
  exact not_imp_comm

/-! ## Three blocks -/

def treeOrder : TreeOrder := ⟨TreeName.all, List.Perm.refl _⟩

/-- A committed block without transactions. -/
def rowsBlock (height : ℤ) (statement : SqlState → SqlState) : Session :=
  ⟨height, [.write statement, .computeStateHash treeOrder treeOrder], .commit [] [] (0, 0)⟩

/-- A statement and the hash after it set the leaves of the rows. -/
theorem exists_calls_rows (m : PersistenceModule) (height : ℤ) (f : SqlState → SqlState)
    (hleaves : ∀ T, ∃ ls, leaves B (f m.sql) m.index height T = some ls) :
    ∃ hash ts, calls B { m with writeContext := some ⟨height, m.sql, ""⟩ }
        [.write f, .computeStateHash treeOrder treeOrder]
          = some { m with trees := ts, writeContext := some ⟨height, f m.sql, hash⟩ } ∧
      LeafMap.updateEach (leaves B (f m.sql) m.index height) TreeName.all m.trees.merkleTrees
        = some ts.merkleTrees := by
  obtain ⟨hash, ts, hupdate⟩ := TreeStore.exists_update hleaves m.trees treeOrder treeOrder
  refine ⟨hash, ts, ?_, TreeStore.updateEach_of_update hupdate⟩
  rw [calls, call, Option.bind_some, calls, call, computeStateHash, Option.map_some,
    Option.bind_some, hupdate]
  rfl

/-- Such a block is committed with the leaves of its rows. -/
theorem session_rowsBlock (hclosed : m.writeContext = none) (hindex : IndexSound m.index)
    (height : ℤ) (f : SqlState → SqlState)
    (hleaves : ∀ T, ∃ ls, leaves B (f m.sql) m.index height T = some ls)
    (hprevious : height = 0 ∨ height - 1 ∈ m.blocks.map Prod.fst)
    (hnew : height ∉ m.blocks.map Prod.fst) :
    ∃ m', m.session B (rowsBlock height f) = some m' ∧ m'.sql = f m.sql ∧ m'.index = m.index ∧
      (∃ hash, m'.blocks = m.blocks ++ [(height, hash)]) ∧
      LeafMap.updateEach (leaves B (f m.sql) m.index height) TreeName.all m.trees.merkleTrees
        = some m'.trees.merkleTrees := by
  obtain ⟨hash, ts, hcalls, htrees⟩ := exists_calls_rows m height f hleaves
  let m₁ : PersistenceModule := { m with trees := ts, writeContext := some ⟨height, f m.sql, hash⟩ }
  have hctx : m₁.writeContext = some ⟨height, f m.sql, hash⟩ := rfl
  obtain ⟨block, -, -, -, hcommit⟩ :=
    exists_commit (B := B) hctx hindex hprevious hnew [] [] (0, 0)
  exact ⟨_, (session_eq_some_iff hclosed).2 ⟨m₁, hcalls, finish_commit_eq_some_iff.2 hcommit⟩, rfl,
    rfl, ⟨hash, rfl⟩, htrees⟩

theorem exists_injective_root : ∃ root : Tree → Bytes, Function.Injective root := by
  have hbyte : Countable UInt8 := Function.Injective.countable fun _ _ h => UInt8.toNat_inj.1 h
  have htree : Countable Tree :=
    Function.Injective.countable fun (t t' : Tree) (h : t.entries = t'.entries) => Finmap.ext h
  obtain ⟨number, hnumber⟩ := htree.exists_injective_nat
  refine ⟨fun tree => List.replicate (number tree) 0, fun tree tree' h => hnumber ?_⟩
  have hlength := congrArg List.length h
  rwa [List.length_replicate, List.length_replicate] at hlength

/-- A backend with an injective commitment. -/
noncomputable def sampleBackend : Backend where
  toPlatform := Utility.sendSixty
  unmarshal := fun _ => .error ""
  sha3 := id
  maxTxsBytesTotal := 1000
  maxTxs := 10
  networkId := "localnet"
  marshalActor := fun _ => [1]
  marshalAccount := fun account => account.amount.toUTF8.data.toList
  marshalParam := fun _ => [1]
  marshalFlag := fun _ => [1]
  root := exists_injective_root.choose
  root_injective := exists_injective_root.choose_spec

/-- The row of an account, at the height. -/
def payTo (height : ℤ) (address : String) (sql : SqlState) : SqlState :=
  { sql with db := sql.db.setAccount height address 1 }

/-- After genesis paid the account `01` and the block at 1 the account `02`. -/
def twoPayments : SqlState := payTo 1 "02" (payTo 0 "01" blank.sql)

theorem transactionLeaves_empty (height : ℤ) : transactionLeaves B .empty height = some [] := by
  have hkeys : hashKeysAt .empty height = [] := by
    rw [hashKeysAt, List.filterMap_eq_nil_iff]
    exact fun _ _ => rfl
  rw [transactionLeaves, getByHeight, hkeys]
  rfl

/-- Rows of accounts give leaves to their tree only. -/
theorem leaves_of_payments {sql : SqlState} {height : ℤ} {ls : List Leaf}
    (hactors : sql.db.actors = fun _ => .empty) (hpools : sql.db.pools = .empty)
    (hparams : sql.db.params = .empty) (hflags : sql.flags = .empty)
    (haccounts : accountLeaves B height sql.db.accounts = some ls) (T : TreeName) :
    leaves B sql .empty height T = some (if T = .account then ls else []) := by
  cases T with
  | account => exact haccounts
  | transactions => exact transactionLeaves_empty height
  | pool =>
    rw [leaves, hpools]
    rfl
  | params =>
    rw [leaves, paramLeaves, hparams]
    rfl
  | flags =>
    rw [leaves, flagLeaves, hflags]
    rfl
  | _ =>
    rw [leaves, actorLeaves, hactors]
    rfl

theorem leaves_firstPayment (T : TreeName) : leaves B (payTo 0 "01" blank.sql) .empty 0 T
    = some (if T = .account then [([1], B.marshalAccount ⟨"01", "1"⟩)] else []) :=
  leaves_of_payments rfl rfl rfl rfl rfl T

theorem leaves_twoPayments (T : TreeName) : leaves B twoPayments .empty 1 T
    = some (if T = .account then [([2], B.marshalAccount ⟨"02", "1"⟩)] else []) :=
  leaves_of_payments rfl rfl rfl rfl rfl T

/-- The two blocks leave the leaves of the two accounts in the trees. -/
theorem exists_twoPayments (B : Backend) :
    ∃ m, History B (payTo 0 "01") [rowsBlock 1 (payTo 1 "02")] m ∧ m.sql = twoPayments ∧
      m.index = .empty ∧ m.getMaximumBlockHeight = some 1 ∧
      ∀ T k, (m.trees.merkleTrees T).lookup k ≠ none ↔ T = .account ∧ (k = [1] ∨ k = [2]) := by
  obtain ⟨m₀, hm₀, hsql₀, hindex₀, ⟨hash₀, hblocks₀⟩, htrees₀⟩ :=
    session_rowsBlock rfl sound_blank.index 0 (payTo 0 "01") (fun T => ⟨_, leaves_firstPayment T⟩) (.inl rfl)
      nofun
  have hclosed₀ : m₀.writeContext = none := by
    obtain ⟨_, _, hfinish⟩ := (session_eq_some_iff rfl).1 hm₀
    exact closed_of_finish hfinish
  obtain ⟨m₁, hm₁, hsql₁, hindex₁, ⟨hash₁, hblocks₁⟩, htrees₁⟩ :=
    session_rowsBlock (B := B) hclosed₀ (hindex₀ ▸ sound_blank.index) 1 (payTo 1 "02")
      (fun T => ⟨_, by rw [hsql₀, hindex₀]; exact leaves_twoPayments T⟩)
      (.inr (by rw [hblocks₀]; exact List.mem_cons_self)) (by rw [hblocks₀]; exact (by decide : (1 : ℤ) ∉ [0]))
  refine ⟨m₁, ⟨treeOrder, treeOrder, (0, 0), m₀, hm₀, ?_⟩, ?_, hindex₁.trans hindex₀, ?_, ?_⟩
  · rw [sessions, hm₁]
    rfl
  · rw [hsql₁, hsql₀]
    rfl
  · rw [getMaximumBlockHeight, hblocks₁, hblocks₀]
    rfl
  · intro T k
    rw [hsql₀, hindex₀] at htrees₁
    obtain ⟨ls₀, hls₀, hT₀⟩ := ((LeafMap.updateEach_eq_some_iff _ (by decide)).1 htrees₀).1 T T.mem_all
    obtain ⟨ls₁, hls₁, hT₁⟩ := ((LeafMap.updateEach_eq_some_iff _ (by decide)).1 htrees₁).1 T T.mem_all
    have hset₀ : ls₀ = _ := Option.some.inj (hls₀.symm.trans (leaves_firstPayment T))
    have hset₁ : ls₁ = _ := Option.some.inj (hls₁.symm.trans (leaves_twoPayments T))
    have hempty : (blank.trees.merkleTrees T).lookup k = none := Finmap.lookup_empty k
    rw [hT₁, hT₀, hset₀, hset₁, LeafMap.lookup_setAll_ne_none_iff, LeafMap.lookup_setAll_ne_none_iff,
      hempty]
    by_cases hT : T = .account
    · simp [hT, or_comm]
    · simp [hT]

theorem exists_hash_of_leaves (height : ℤ) (f : SqlState → SqlState) (hclosed : m.writeContext = none)
    (hleaves : ∀ T, ∃ ls, leaves B (f m.sql) m.index height T = some ls) :
    ∃ hash ts, m.trees.update B (f m.sql) m.index height treeOrder treeOrder = some (hash, ts) ∧
      m.stateHashOf B height [.write f] treeOrder treeOrder = some hash := by
  obtain ⟨hash, ts, hupdate⟩ := TreeStore.exists_update hleaves m.trees treeOrder treeOrder
  have hplain : ∀ c ∈ [Call.write f], c.computes = false := List.forall_mem_singleton.2 rfl
  refine ⟨hash, ts, hupdate, ?_⟩
  rw [stateHashOf_of_plain hclosed hplain]
  exact congrArg (Option.map Prod.fst) hupdate

/-- A payment to the account `03` does not hide that another account is in the trees of one of two
modules only. -/
theorem exists_hashes_ne (hsound : m.Sound) (hclosed : m.writeContext = none) (hsound' : m'.Sound)
    (hclosed' : m'.writeContext = none) (hsql : m'.sql = m.sql) (hindex : m'.index = m.index)
    (height : ℤ) (hleaves : ∀ T, leaves B (payTo height "03" m.sql) m.index height T
      = some (if T = .account then [([3], B.marshalAccount ⟨"03", "1"⟩)] else []))
    {k : Bytes} (hk : k ≠ [3])
    (hne : (m.trees.merkleTrees .account).lookup k ≠ (m'.trees.merkleTrees .account).lookup k) :
    ∃ hash hash',
      m.stateHashOf B height [.write (payTo height "03")] treeOrder treeOrder = some hash ∧
      m'.stateHashOf B height [.write (payTo height "03")] treeOrder treeOrder = some hash' ∧
      hash ≠ hash' := by
  obtain ⟨hash, ts, hupdate, hhash⟩ := exists_hash_of_leaves height _ hclosed fun T => ⟨_, hleaves T⟩
  obtain ⟨hash', ts', hupdate', hhash'⟩ := exists_hash_of_leaves (B := B) height
    (payTo height "03") hclosed' (by rw [hsql, hindex]; exact fun T => ⟨_, hleaves T⟩)
  refine ⟨hash, hash', hhash, hhash', fun heq => hne ?_⟩
  rw [hsql, hindex] at hupdate'
  refine (TreeStore.update_hash_eq_iff hsound.roots hsound'.roots hupdate hupdate').1 heq .account k ?_
  rw [LeafMap.mem_keysOf_iff (hleaves .account)]
  simpa using hk

/-- The block at 2 pays the account `03`: without the leaves of the two earlier accounts its hash
is another one. -/
theorem third_payment_restart_differs :
    ∃ m m' hash hash', History sampleBackend (payTo 0 "01") [rowsBlock 1 (payTo 1 "02")] m ∧
      m.getMaximumBlockHeight = some 1 ∧
      m.create sampleBackend (payTo 0 "01") treeOrder treeOrder (0, 0) = some m' ∧
      m.stateHashOf sampleBackend 2 [.write (payTo 2 "03")] treeOrder treeOrder = some hash ∧
      m'.stateHashOf sampleBackend 2 [.write (payTo 2 "03")] treeOrder treeOrder = some hash' ∧
      hash ≠ hash' := by
  obtain ⟨m, hm, hsql, hindex, hmax, htrees⟩ := exists_twoPayments sampleBackend
  obtain ⟨hsound, hclosed⟩ := hm.sound
  have hset := (htrees .account [1]).2 ⟨rfl, .inl rfl⟩
  have hsound' : ({ m with trees := .setupTrees, writeContext := none } : PersistenceModule).Sound :=
    ⟨TreeStore.rootsOnly_setupTrees, hsound.index⟩
  obtain ⟨hash, hash', hhash, hhash', hne⟩ := exists_hashes_ne (B := sampleBackend) (k := [1]) hsound
    hclosed hsound' rfl rfl rfl 2
    (by rw [hsql, hindex]; exact leaves_of_payments rfl rfl rfl rfl rfl) (by decide)
    fun heq => hset (heq.trans (Finmap.lookup_empty _))
  exact ⟨m, _, hash, hash', hm, hmax, create_of_blocks hmax le_rfl _ _ _ _, hhash, hhash', hne⟩

/-- The block at 2 pays the two accounts again: its hash does not depend on the restart. -/
theorem repeated_payments_restart_agrees :
    ∃ m m' hash, History sampleBackend (payTo 0 "01") [rowsBlock 1 (payTo 1 "02")] m ∧
      m.getMaximumBlockHeight = some 1 ∧
      m.create sampleBackend (payTo 0 "01") treeOrder treeOrder (0, 0) = some m' ∧
      m.stateHashOf sampleBackend (1 + 1) [.write (payTo 2 "01"), .write (payTo 2 "02")] treeOrder
        treeOrder = some hash ∧
      m'.stateHashOf sampleBackend (1 + 1) [.write (payTo 2 "01"), .write (payTo 2 "02")] treeOrder
        treeOrder = some hash := by
  obtain ⟨m, hm, hsql, hindex, hmax, htrees⟩ := exists_twoPayments sampleBackend
  obtain ⟨hsound, hclosed⟩ := hm.sound
  have hleaves : ∀ T, leaves sampleBackend (payTo 2 "02" (payTo 2 "01" twoPayments)) .empty (1 + 1) T
      = some (if T = .account then [([1], sampleBackend.marshalAccount ⟨"01", "1"⟩),
        ([2], sampleBackend.marshalAccount ⟨"02", "1"⟩)] else []) :=
    leaves_of_payments rfl rfl rfl rfl rfl
  have hplain : ∀ c ∈ [Call.write (payTo 2 "01"), Call.write (payTo 2 "02")], c.computes = false := by
    intro c hc
    rcases List.mem_pair.1 hc with rfl | rfl <;> rfl
  obtain ⟨hash, ts, hupdate⟩ := TreeStore.exists_update (fun T => ⟨_, hleaves T⟩) m.trees
    treeOrder treeOrder
  have hhash : m.stateHashOf sampleBackend (1 + 1) [.write (payTo 2 "01"), .write (payTo 2 "02")]
      treeOrder treeOrder = some hash := by
    rw [stateHashOf_of_plain hclosed hplain, hsql, hindex]
    exact congrArg (Option.map Prod.fst) hupdate
  have hcreate := create_of_blocks (B := sampleBackend) hmax le_rfl (payTo 0 "01") treeOrder treeOrder
    (0, 0)
  refine ⟨m, _, hash, hm, hmax, hcreate, hhash, ?_⟩
  refine (stateHash_after_restart_iff hm hmax le_rfl hcreate hplain hhash).2 fun T k hk => ?_
  obtain ⟨rfl, hk'⟩ := (htrees T k).1 hk
  rw [hsql, hindex]
  refine (LeafMap.mem_keysOf_iff (hleaves .account)).2 ?_
  rcases hk' with rfl | rfl
  · simp
  · simp

end Pocket.Persistence.PersistenceModule
