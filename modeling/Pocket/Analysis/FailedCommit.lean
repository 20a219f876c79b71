import Pocket.Analysis.Restart

/-!
# Commits that fail

A commit prepares the block, stores it in the block store, inserts it into the SQL database and
commits the SQL transaction.  When one of these fails and the context is released, the rows of the
context are gone.  Everything else that was written stays: the block, if it was stored before the
failure, and what the context had put into the index and into the trees.

So the stores are as they were exactly when nothing of that was new
(`failed_commit_keeps_stores_iff`).
-/

set_option autoImplicit false

namespace Pocket.Persistence.PersistenceModule

open Model (Bytes)
open Utility (TxIndex IndexedTransaction)

variable {B : Backend} {m m₀ m₁ m₂ : PersistenceModule} {cs : List Call} {ctx : Context}

/-- The two modules have the same in their stores. -/
structure SameStores (m m' : PersistenceModule) : Prop where
  sql : m'.sql = m.sql
  blocks : m'.blocks = m.blocks
  blockStore : m'.blockStore = m.blockStore
  index : m'.index = m.index
  trees : m'.trees = m.trees

/-! ## The commit -/

/-- Without a failure it is the commit. -/
theorem commitFailing_none (m : PersistenceModule) (proposerAddr quorumCert : Bytes)
    (now : ℤ × ℤ) :
    m.commitFailing B ⟨none, none, none, none⟩ proposerAddr quorumCert now
      = m.commit B proposerAddr quorumCert now := by
  rw [commitFailing, commit]
  cases m.writeContext with
  | none => rfl
  | some ctx =>
    simp only
    cases m.prepareBlock B ctx proposerAddr quorumCert now with
    | error err | ok block => rfl

/-- The block that a commit stores before it can fail in SQL. -/
def storedBlock (B : Backend) (m : PersistenceModule) (failures : CommitFailures)
    (proposerAddr quorumCert : Bytes) (now : ℤ × ℤ) : Option (ℤ × Model.Block) :=
  m.writeContext.bind fun ctx =>
    match failures.prepareBlock, m.prepareBlock B ctx proposerAddr quorumCert now,
        failures.storeBlock with
    | none, .ok block, none => some (ctx.height, block)
    | _, _, _ => none

/-- A commit that fails has written its block to the block store, or nothing. -/
theorem stores_of_commitFailing_error {failures : CommitFailures} {proposerAddr quorumCert : Bytes}
    {now : ℤ × ℤ} {err : String}
    (h : m.commitFailing B failures proposerAddr quorumCert now = (.error err, m₂)) :
    m₂.sql = m.sql ∧ m₂.blocks = m.blocks ∧ m₂.index = m.index ∧ m₂.trees = m.trees ∧
      m₂.blockStore = (storedBlock B m failures proposerAddr quorumCert now).elim m.blockStore
        fun stored => Function.update m.blockStore stored.1 (some stored.2) := by
  have hsame : ∀ {r : Except String Unit} {m' : PersistenceModule}, (r, m') = (.error err, m₂) →
      m₂ = m' := fun heq => (congrArg Prod.snd heq).symm
  rw [commitFailing] at h
  rw [storedBlock]
  cases hctx : m.writeContext with
  | none =>
    rw [hctx] at h
    rw [hsame h]
    exact ⟨rfl, rfl, rfl, rfl, rfl⟩
  | some ctx =>
    simp only [hctx] at h
    rw [Option.bind_some]
    cases hprepare : failures.prepareBlock with
    | some err' =>
      simp only [hprepare] at h
      rw [hsame h]
      exact ⟨rfl, rfl, rfl, rfl, rfl⟩
    | none =>
      cases hblock : m.prepareBlock B ctx proposerAddr quorumCert now with
      | error err' =>
        simp only [hprepare, hblock] at h
        rw [hsame h]
        exact ⟨rfl, rfl, rfl, rfl, rfl⟩
      | ok block =>
        cases hstore : failures.storeBlock with
        | some err' =>
          simp only [hprepare, hblock, hstore] at h
          rw [hsame h]
          exact ⟨rfl, rfl, rfl, rfl, rfl⟩
        | none =>
          simp only [hprepare, hblock, hstore] at h
          -- from here on every exit has the block in the store
          cases hinsert : failures.insertBlock with
          | some err' =>
            simp only [hinsert] at h
            rw [hsame h]
            exact ⟨rfl, rfl, rfl, rfl, rfl⟩
          | none =>
            simp only [hinsert] at h
            split at h
            · rw [hsame h]
              exact ⟨rfl, rfl, rfl, rfl, rfl⟩
            · cases hcommit : failures.txCommit with
              | some err' =>
                simp only [hcommit] at h
                rw [hsame h]
                exact ⟨rfl, rfl, rfl, rfl, rfl⟩
              | none =>
                simp only [hcommit] at h
                cases congrArg Prod.fst h

/-! ## What a context has put into the index -/

section Index

variable {index : TxIndex}

/-- What is indexed hides what was there. -/
theorem byHash_index_eq_or (index : TxIndex) (idxTx : IndexedTransaction) (hash : String) :
    (index.index B.toHost idxTx).byHash hash
      = ((TxIndex.empty.index B.toHost idxTx).byHash hash).or (index.byHash hash) := by
  rw [byHash_index, byHash_index]
  by_cases h : hash = Text.hexEncode (B.sha3 idxTx.tx)
  · rw [h, Function.update_self, Function.update_self]
    rfl
  · rw [Function.update_of_ne h, Function.update_of_ne h]
    rfl

theorem update_eq_or {κ α : Type} [DecidableEq κ] (f g : κ → Option α) (k k' : κ) (v : α) :
    (Function.update f k (some v) k').or (g k') = Function.update (fun k => (f k).or (g k)) k (some v) k' := by
  by_cases h : k' = k
  · rw [h, Function.update_self, Function.update_self]
    rfl
  · rw [Function.update_of_ne h, Function.update_of_ne h]

theorem refs_index_eq_or (index : TxIndex) (idxTx : IndexedTransaction) (ref : Utility.IndexRef) :
    (index.index B.toHost idxTx).refs ref
      = ((TxIndex.empty.index B.toHost idxTx).refs ref).or (index.refs ref) := by
  simp only [TxIndex.index, TxIndex.empty]
  split <;> split <;> simp only [update_eq_or, Option.none_or]

theorem indexed_eq_or (cs : List Call) (index : TxIndex) :
    (∀ hash, (indexed B cs index).byHash hash
        = ((indexed B cs .empty).byHash hash).or (index.byHash hash)) ∧
      ∀ ref, (indexed B cs index).refs ref
        = ((indexed B cs .empty).refs ref).or (index.refs ref) := by
  induction cs generalizing index with
  | nil => exact ⟨fun _ => rfl, fun _ => rfl⟩
  | cons c cs ih =>
    cases c with
    | write statement | computeStateHash o₁ o₂ => exact ih index
    | indexTransaction idxTx =>
      have hafter := ih (index.index B.toHost idxTx)
      have hempty := ih (TxIndex.empty.index B.toHost idxTx)
      refine ⟨fun hash => ?_, fun ref => ?_⟩
      · refine (hafter.1 hash).trans ?_
        rw [byHash_index_eq_or, ← Option.or_assoc]
        exact congrArg (Option.or · _) (hempty.1 hash).symm
      · refine (hafter.2 ref).trans ?_
        rw [refs_index_eq_or, ← Option.or_assoc]
        exact congrArg (Option.or · _) (hempty.2 ref).symm

/-- All that the one index holds is in the other. -/
def IndexWithin (index index' : TxIndex) : Prop :=
  (∀ hash idxTx, index.byHash hash = some idxTx → index'.byHash hash = some idxTx) ∧
    ∀ ref hash, index.refs ref = some hash → index'.refs ref = some hash

/-- The index is unchanged exactly when all that was indexed was in it. -/
theorem indexed_eq_self_iff {index : TxIndex} :
    indexed B cs index = index ↔ IndexWithin (indexed B cs .empty) index := by
  obtain ⟨hbyHash, hrefs⟩ := indexed_eq_or (B := B) cs index
  constructor
  · intro h
    rw [h] at hbyHash hrefs
    refine ⟨fun hash idxTx hsome => ?_, fun ref hash hsome => ?_⟩
    · rw [hbyHash, hsome]
      rfl
    · rw [hrefs, hsome]
      rfl
  · rintro ⟨hfound, href⟩
    have hsame : (indexed B cs index).byHash = index.byHash := by
      funext hash
      rw [hbyHash]
      cases hsome : (indexed B cs .empty).byHash hash with
      | none => exact Option.none_or
      | some idxTx => exact (hfound hash idxTx hsome).symm
    have hsame' : (indexed B cs index).refs = index.refs := by
      funext ref
      rw [hrefs]
      cases hsome : (indexed B cs .empty).refs ref with
      | none => exact Option.none_or
      | some hash => exact (href ref hash hsome).symm
    cases hindexed : indexed B cs index with
    | mk byHash refs =>
      rw [hindexed] at hsame hsame'
      cases index
      congr

end Index

/-! ## What a context has put into the trees -/

/-- The leaves that the computations of the hash among the calls set, in their order. -/
def leavesSet (B : Backend) (height : ℤ) : List Call → SqlState → TxIndex → TreeName → List Leaf
  | [], _, _, _ => []
  | .write statement :: cs, sql, index, T => leavesSet B height cs (statement sql) index T
  | .indexTransaction idxTx :: cs, sql, index, T =>
    leavesSet B height cs sql (index.index B.toHost idxTx) T
  | .computeStateHash _ _ :: cs, sql, index, T =>
    (leaves B sql index height T).getD [] ++ leavesSet B height cs sql index T

/-- What the calls of a context do to the stores. -/
theorem stores_of_calls (hctx : m.writeContext = some ctx) (h : m.calls B cs = some m₁) :
    m₁.sql = m.sql ∧ m₁.blocks = m.blocks ∧ m₁.blockStore = m.blockStore ∧
      m₁.index = indexed B cs m.index ∧
      ∀ T, m₁.trees.merkleTrees T = LeafMap.setAll (m.trees.merkleTrees T)
        (leavesSet B ctx.height cs ctx.sql m.index T) := by
  induction cs generalizing m ctx with
  | nil =>
    cases h
    exact ⟨rfl, rfl, rfl, rfl, fun _ => rfl⟩
  | cons c cs ih =>
    obtain ⟨m', hcall, hrest⟩ := Option.bind_eq_some_iff.1 h
    cases c with
    | write statement =>
      cases hcall
      exact ih (congrArg (Option.map _) hctx) hrest
    | indexTransaction idxTx =>
      cases hcall
      have hctx' : (m.indexTransaction B idxTx).writeContext = some ctx := hctx
      exact ih hctx' hrest
    | computeStateHash o₁ o₂ =>
      obtain ⟨⟨hash, m₂⟩, hcompute, rfl⟩ := Option.map_eq_some_iff.1 hcall
      obtain ⟨ctx', ts, hctx', hupdate, rfl⟩ := computeStateHash_eq_some_iff.1 hcompute
      cases hctx.symm.trans hctx'
      obtain ⟨hsql, hblocks, hstore, hindex, htrees⟩ := ih rfl hrest
      refine ⟨hsql, hblocks, hstore, hindex, fun T => ?_⟩
      have heach := TreeStore.updateEach_of_update hupdate
      obtain ⟨ls, hls, hset⟩ := ((LeafMap.updateEach_eq_some_iff _ o₁.nodup).1 heach).1 T (o₁.mem T)
      rw [htrees T, hset, leavesSet, hls, Option.getD_some, LeafMap.setAll_append]

/-- The root tree has the roots of the trees, if a hash was computed, and is the same as before
otherwise; it has no other leaves than before. -/
theorem rootTree_of_calls (h : m.calls B cs = some m₁) :
    (∀ k, (∀ T, TreeName.path T ≠ k) →
        m₁.trees.rootTree.lookup k = m.trees.rootTree.lookup k) ∧
      ((∃ c ∈ cs, c.computes = true) →
        ∀ T, m₁.trees.rootTree.lookup T.path = some (B.root (m₁.trees.merkleTrees T))) ∧
      ((∀ c ∈ cs, c.computes = false) → m₁.trees = m.trees) := by
  induction cs generalizing m with
  | nil =>
    cases h
    refine ⟨fun _ _ => rfl, ?_, fun _ => rfl⟩
    rintro ⟨c, hc, -⟩
    cases hc
  | cons c cs ih =>
    obtain ⟨m', hcall, hrest⟩ := Option.bind_eq_some_iff.1 h
    obtain ⟨hother, hroots, hnone⟩ := ih hrest
    cases c with
    | write statement | indexTransaction idxTx =>
      cases hcall
      refine ⟨hother, fun ⟨c, hc, hcomputes⟩ => ?_, fun hall => hnone (List.forall_mem_cons.1 hall).2⟩
      refine hroots ⟨c, (List.mem_cons.1 hc).resolve_left fun heq => ?_, hcomputes⟩
      rw [heq] at hcomputes
      cases hcomputes
    | computeStateHash o₁ o₂ =>
      obtain ⟨⟨hash, m₂⟩, hcompute, rfl⟩ := Option.map_eq_some_iff.1 hcall
      obtain ⟨ctx, ts, -, hupdate, rfl⟩ := computeStateHash_eq_some_iff.1 hcompute
      obtain ⟨merkleTrees, -, hhash⟩ := TreeStore.update_eq_some_iff.1 hupdate
      cases hhash
      refine ⟨fun k hk => (hother k hk).trans (LeafMap.lookup_setAll_of_not_mem ?_), fun _ T => ?_,
        fun hall => nomatch (List.forall_mem_cons.1 hall).1⟩
      · rw [List.map_map, List.mem_map]
        rintro ⟨T, -, hT⟩
        exact hk T hT
      · by_cases hlater : ∃ c ∈ cs, c.computes = true
        · exact hroots hlater T
        -- this is the last computation, and nothing changes the trees after it
        · have hlast : ∀ c ∈ cs, c.computes = false := by
            intro c hc
            exact Bool.eq_false_iff.2 fun hcomputes => hlater ⟨c, hc, hcomputes⟩
          rw [hnone hlast]
          exact LeafMap.lookup_setAll_map TreeName.path_injective _ (o₂.mem T) _

/-- The trees are unchanged exactly when the leaves that were set were there, and the root tree was
up to date if a hash was computed. -/
theorem trees_of_calls_eq_self_iff (hctx : m.writeContext = some ctx) (h : m.calls B cs = some m₁) :
    m₁.trees = m.trees ↔
      (∀ T k v, (LeafMap.setAll ∅ (leavesSet B ctx.height cs ctx.sql m.index T)).lookup k = some v →
        (m.trees.merkleTrees T).lookup k = some v) ∧
      ((∃ c ∈ cs, c.computes = true) →
        ∀ T, m.trees.rootTree.lookup T.path = some (B.root (m.trees.merkleTrees T))) := by
  obtain ⟨-, -, -, -, htrees⟩ := stores_of_calls hctx h
  obtain ⟨hother, hroots, hnone⟩ := rootTree_of_calls h
  constructor
  · intro hsame
    rw [hsame] at htrees hroots
    exact ⟨fun T => LeafMap.setAll_eq_self_iff.1 (htrees T).symm, hroots⟩
  · rintro ⟨hleaves, hupToDate⟩
    have hmerkle : m₁.trees.merkleTrees = m.trees.merkleTrees := by
      funext T
      rw [htrees T, LeafMap.setAll_eq_self_iff]
      exact hleaves T
    by_cases hcomputes : ∃ c ∈ cs, c.computes = true
    · have hroot : m₁.trees.rootTree = m.trees.rootTree := by
        refine Finmap.ext_lookup fun k => ?_
        by_cases hk : ∃ T, TreeName.path T = k
        · obtain ⟨T, rfl⟩ := hk
          rw [hroots hcomputes T, hupToDate hcomputes T, hmerkle]
        · exact hother k fun T hT => hk ⟨T, hT⟩
      cases htrees₁ : m₁.trees with
      | mk rootTree merkleTrees =>
        rw [htrees₁] at hroot hmerkle
        cases hm : m.trees with
        | mk rootTree' merkleTrees' =>
          rw [hm] at hroot hmerkle
          congr
    · refine hnone fun c hc => ?_
      exact Bool.eq_false_iff.2 fun hc' => hcomputes ⟨c, hc, hc'⟩

/-! ## All or nothing -/

/-- **A failed commit leaves the stores as they were** exactly when the context had nothing new for
the index and the trees, and no new block was stored before the failure. -/
theorem failed_commit_keeps_stores_iff {height : ℤ} (hopen : m₀.newRWContext height = .ok m)
    {cs : List Call} (hcalls : m.calls B cs = some m₁) {failures : CommitFailures}
    {proposerAddr quorumCert : Bytes} {now : ℤ × ℤ} {err : String}
    (hcommit : m₁.commitFailing B failures proposerAddr quorumCert now = (.error err, m₂)) :
    SameStores m₀ m₂.release ↔
      IndexWithin (indexed B cs .empty) m₀.index ∧
      (∀ T k v, (LeafMap.setAll ∅ (leavesSet B height cs m₀.sql m₀.index T)).lookup k = some v →
        (m₀.trees.merkleTrees T).lookup k = some v) ∧
      ((∃ c ∈ cs, c.computes = true) →
        ∀ T, m₀.trees.rootTree.lookup T.path = some (B.root (m₀.trees.merkleTrees T))) ∧
      ∀ stored, storedBlock B m₁ failures proposerAddr quorumCert now = some stored →
        m₀.blockStore stored.1 = some stored.2 := by
  have hm : m = { m₀ with writeContext := some ⟨height, m₀.sql, ""⟩ } := by
    rw [newRWContext] at hopen
    split at hopen
    · cases hopen
    · exact (Except.ok.inj hopen).symm
  have hctx : m.writeContext = some ⟨height, m₀.sql, ""⟩ := by rw [hm]
  obtain ⟨hsql, hblocks, hstore, hindex, -⟩ := stores_of_calls hctx hcalls
  obtain ⟨hsql', hblocks', hindex', htrees', hstore'⟩ := stores_of_commitFailing_error hcommit
  have htrees := trees_of_calls_eq_self_iff hctx hcalls
  rw [hm] at hsql hblocks hstore hindex htrees
  have hstored : m₂.blockStore = m₀.blockStore ↔
      ∀ stored, storedBlock B m₁ failures proposerAddr quorumCert now = some stored →
        m₀.blockStore stored.1 = some stored.2 := by
    rw [hstore', hstore]
    cases storedBlock B m₁ failures proposerAddr quorumCert now with
    | none => exact iff_of_true rfl fun _ h => by cases h
    | some stored =>
      rw [Option.elim_some, Function.update_eq_self_iff]
      exact ⟨fun h _ h' => Option.some.inj h' ▸ h.symm, fun h => (h stored rfl).symm⟩
  constructor
  · rintro ⟨-, -, hkept, hkeptIndex, hkeptTrees⟩
    have hindexed : indexed B cs m₀.index = m₀.index :=
      hindex.symm.trans (hindex'.symm.trans hkeptIndex)
    obtain ⟨hleaves, hroots⟩ := htrees.1 (htrees'.symm.trans hkeptTrees)
    exact ⟨indexed_eq_self_iff.1 hindexed, hleaves, hroots, hstored.1 hkept⟩
  · rintro ⟨hwithin, hleaves, hroots, hblock⟩
    refine ⟨hsql'.trans hsql, hblocks'.trans hblocks, hstored.2 hblock, ?_, ?_⟩
    · exact hindex'.trans (hindex.trans (indexed_eq_self_iff.2 hwithin))
    · exact htrees'.trans (htrees.2 ⟨hleaves, hroots⟩)

section Prepared

variable {block : Model.Block} {proposerAddr quorumCert : Bytes} {now : ℤ × ℤ}

section

variable (hctx : m.writeContext = some ctx)
  (hblock : m.prepareBlock B ctx proposerAddr quorumCert now = .ok block)
include hctx hblock

theorem commitFailing_txCommit (hfree : (m.blocks.any fun stored => stored.1 = ctx.height) = false)
    (err : String) :
    m.commitFailing B ⟨none, none, none, some err⟩ proposerAddr quorumCert now
      = (.error err, { m with
          blockStore := Function.update m.blockStore ctx.height (some block) }) := by
  rw [commitFailing, hctx]
  simp only [hblock, hfree, Bool.false_eq_true, if_false]

theorem commitFailing_storeBlock (err : String) :
    m.commitFailing B ⟨none, some err, none, none⟩ proposerAddr quorumCert now = (.error err, m) := by
  rw [commitFailing, hctx]
  simp only [hblock]

theorem storedBlock_of_storeBlock (err : String) :
    storedBlock B m ⟨none, some err, none, none⟩ proposerAddr quorumCert now = none := by
  rw [storedBlock, hctx, Option.bind_some, hblock]

end

end Prepared

/-! ## The first block -/

/-- A module with nothing in its stores and a context for the first block. -/
def firstContext : PersistenceModule := { blank with writeContext := some ⟨0, blank.sql, ""⟩ }

theorem exists_prepareBlock_firstContext (B : Backend) :
    ∃ block, firstContext.prepareBlock B ⟨0, blank.sql, ""⟩ [] [] (0, 0) = .ok block := by
  obtain ⟨idxTxs, hidxTxs⟩ := exists_getByHeight sound_blank.index 0
  exact ⟨_, prepareBlock_eq_ok_iff.2 ⟨"", idxTxs, rfl, hidxTxs, rfl⟩⟩

/-- The first block is stored, and then the SQL transaction cannot be committed: the block store
has a block that the SQL database has not. -/
theorem failed_sql_commit_keeps_block :
    ∃ m₂ block, blank.newRWContext 0 = .ok firstContext ∧
      firstContext.commitFailing sampleBackend ⟨none, none, none, some "commit failed"⟩ [] [] (0, 0)
        = (.error "commit failed", m₂) ∧
      blank.blockStore 0 = none ∧ m₂.release.blockStore 0 = some block ∧ m₂.release.blocks = [] := by
  obtain ⟨block, hblock⟩ := exists_prepareBlock_firstContext sampleBackend
  have hctx : firstContext.writeContext = some ⟨0, blank.sql, ""⟩ := rfl
  have hfree : (firstContext.blocks.any fun stored => stored.1 = 0) = false := rfl
  have hcommit := commitFailing_txCommit hctx hblock hfree "commit failed"
  have hstored : Function.update firstContext.blockStore 0 (some block) 0 = some block :=
    Function.update_self _ _ _
  exact ⟨_, block, rfl, hcommit, rfl, hstored, rfl⟩

/-! ## The same block again -/

/-- The block store takes no block. -/
def noSpace : CommitFailures := ⟨none, some "no space left", none, none⟩

/-- A context that writes a row, indexes the transaction and computes the hash. -/
def attempt : List Call :=
  [.write (payTo 0 "01"), .indexTransaction ⟨[7], 0, 0, 0, "", "01", "02", "send"⟩,
    .computeStateHash treeOrder treeOrder]

theorem exists_leaves_of_payment {index : TxIndex} (hindex : IndexSound index) (T : TreeName) :
    ∃ ls, leaves B (payTo 0 "01" blank.sql) index 0 T = some ls := by
  obtain ⟨idxTxs, hidxTxs⟩ := exists_getByHeight hindex 0
  have hleaves := leaves_firstPayment (B := B) T
  cases T with
  | transactions => exact ⟨_, by rw [leaves, transactionLeaves, hidxTxs]; rfl⟩
  | _ => exact ⟨_, hleaves⟩

/-- The attempt gets as far as the block store. -/
theorem exists_failed_attempt (hsql : m.sql = blank.sql) (hindex : IndexSound m.index) :
    ∃ m₁, calls B { m with writeContext := some ⟨0, m.sql, ""⟩ } attempt = some m₁ ∧
      m₁.commitFailing B noSpace [1] [2] (0, 0) = (.error "no space left", m₁) ∧
      storedBlock B m₁ noSpace [1] [2] (0, 0) = none := by
  have hindexed := indexSound_index (B := B) hindex ⟨[7], 0, 0, 0, "", "01", "02", "send"⟩
  have hleaves := exists_leaves_of_payment (B := B) hindexed
  rw [← hsql] at hleaves
  obtain ⟨hash, ts, hupdate⟩ := TreeStore.exists_update hleaves m.trees treeOrder treeOrder
  let m₁ : PersistenceModule := { m with
    index := m.index.index B.toHost ⟨[7], 0, 0, 0, "", "01", "02", "send"⟩
    trees := ts
    writeContext := some ⟨0, payTo 0 "01" m.sql, hash⟩ }
  obtain ⟨idxTxs, hidxTxs⟩ := exists_getByHeight hindexed 0
  have hctx : m₁.writeContext = some ⟨0, payTo 0 "01" m.sql, hash⟩ := rfl
  have hblock : m₁.prepareBlock B ⟨0, payTo 0 "01" m.sql, hash⟩ [1] [2] (0, 0) = .ok _ :=
    prepareBlock_eq_ok_iff.2 ⟨"", idxTxs, rfl, hidxTxs, rfl⟩
  refine ⟨m₁, ?_, commitFailing_storeBlock hctx hblock _, storedBlock_of_storeBlock hctx hblock _⟩
  rw [attempt, calls, call, Option.bind_some, calls, call, Option.bind_some, calls, call,
    computeStateHash, indexTransaction, Option.map_some, Option.bind_some, hupdate]
  rfl

/-- After an attempt whose block could not be stored, another one of the same block that fails in
the same way leaves the rows, the index, the trees and the blocks as they were. -/
theorem repeated_attempt_keeps_stores :
    ∃ m₀ m₁ m₂, firstContext.calls sampleBackend attempt = some m₀ ∧
      m₀.release.newRWContext 0
        = .ok { m₀.release with writeContext := some ⟨0, m₀.release.sql, ""⟩ } ∧
      calls sampleBackend { m₀.release with writeContext := some ⟨0, m₀.release.sql, ""⟩ } attempt
        = some m₁ ∧
      m₁.commitFailing sampleBackend noSpace [1] [2] (0, 0) = (.error "no space left", m₂) ∧
      SameStores m₀.release m₂.release := by
  obtain ⟨m₀, hfirst, -, -⟩ := exists_failed_attempt (B := sampleBackend) (m := blank) rfl sound_blank.index
  obtain ⟨hsql, -, -, hindex, htrees⟩ := stores_of_calls rfl hfirst
  have hsound : IndexSound m₀.release.index :=
    hindex ▸ indexSound_index (B := sampleBackend) sound_blank.index _
  obtain ⟨m₁, hcalls, hcommit, hstored⟩ :=
    exists_failed_attempt (B := sampleBackend) (m := m₀.release) hsql hsound
  have hopen : m₀.release.newRWContext 0
      = .ok { m₀.release with writeContext := some ⟨0, m₀.release.sql, ""⟩ } := rfl
  have hiff := failed_commit_keeps_stores_iff hopen hcalls hcommit
  have hwithin : IndexWithin (indexed sampleBackend attempt .empty) m₀.release.index :=
    ⟨fun _ _ h => hindex ▸ h, fun _ _ h => hindex ▸ h⟩
  refine ⟨m₀, m₁, m₁, hfirst, hopen, hcalls, hcommit,
    hiff.2 ⟨hwithin, fun T k v h => ?_, fun _ => ?_, ?_⟩⟩
  · -- indexed again, the transaction leaves the index as it is, so the leaves are the same
    have hsame : leavesSet sampleBackend 0 attempt m₀.release.sql m₀.release.index T
        = leavesSet sampleBackend 0 attempt blank.sql blank.index T := by
      have hkept : m₀.release.index.index _ _ = _ := indexed_eq_self_iff.2 hwithin
      rw [attempt, leavesSet, leavesSet, leavesSet, hkept, show m₀.release.sql = _ from hsql]
      exact hindex ▸ rfl
    rw [hsame] at h
    exact (htrees T).symm ▸ h
  · exact (rootTree_of_calls hfirst).2.1 ⟨_, List.mem_of_getLast? rfl, rfl⟩
  · intro stored h
    cases hstored.symm.trans h

end Pocket.Persistence.PersistenceModule
