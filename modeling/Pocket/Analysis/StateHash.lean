import Pocket.Persistence.Module

/-!
# What the state hash depends on

The state hash commits to the nine trees (`getStateHash_eq_iff`), and the trees are what they were
before with the leaves of the block set.  So two modules that set the same leaves get the same
hash exactly when their trees agreed on everything else (`update_hash_eq_iff`).

Which leaves a block sets depends on the rows that its context sees and on the transactions that
the index holds for its height.
-/

set_option autoImplicit false

namespace Pocket.Persistence

open Model (Bytes)
open Utility (TxIndex IndexedTransaction)
open LeafMap (AgreeOff keysOf)

variable {B : Backend}

/-! ## The hash of the trees -/

namespace TreeStore

variable {ts ts' : TreeStore}

/-- What the trees hold is not in the root tree until the hash is computed. -/
theorem RootsOnly.with_trees (h : ts.RootsOnly) (merkleTrees : TreeName → Tree) :
    RootsOnly { ts with merkleTrees } := h

theorem rootsOnly_getStateHash (h : ts.RootsOnly) (order : TreeOrder) :
    (getStateHash B ts order).2.RootsOnly := by
  intro k hk
  refine (LeafMap.lookup_setAll_of_not_mem ?_).trans (h k hk)
  rw [List.map_map, List.mem_map]
  rintro ⟨T, -, hT⟩
  exact hk T hT

/-- **The state hash commits to the trees**, in whatever order their roots are collected. -/
theorem getStateHash_eq_iff (h : ts.RootsOnly) (h' : ts'.RootsOnly) (order order' : TreeOrder) :
    (getStateHash B ts order).1 = (getStateHash B ts' order').1 ↔
      ts.merkleTrees = ts'.merkleTrees := by
  have hroot : ∀ (ts : TreeStore) (order : TreeOrder) T,
      (LeafMap.setAll ts.rootTree (order.1.map fun T => (T.path, B.root (ts.merkleTrees T)))).lookup
        T.path = some (B.root (ts.merkleTrees T)) :=
    fun ts order T => LeafMap.lookup_setAll_map TreeName.path_injective _ (order.mem T) _
  constructor
  · intro hhash
    have htrees := B.root_injective (Text.hexEncode_injective hhash)
    funext T
    refine B.root_injective (Option.some.inj ?_)
    rw [← hroot ts order T, ← hroot ts' order' T, htrees]
  · intro htrees
    refine congrArg (fun tree => Text.hexEncode (B.root tree)) (Finmap.ext_lookup fun k => ?_)
    by_cases hk : ∃ T, TreeName.path T = k
    · obtain ⟨T, rfl⟩ := hk
      rw [hroot, hroot, htrees]
    · have hother : ∀ T, TreeName.path T ≠ k := fun T hT => hk ⟨T, hT⟩
      have hnone := rootsOnly_getStateHash (B := B) h order k hother
      have hnone' := rootsOnly_getStateHash (B := B) h' order' k hother
      exact hnone.trans hnone'.symm

variable {sql : SqlState} {index : TxIndex} {height : ℤ} {o₁ o₂ o₁' o₂' : TreeOrder}
  {hash hash' : String} {ts₁ ts₁' : TreeStore}

theorem update_eq_some_iff :
    ts.update B sql index height o₁ o₂ = some (hash, ts₁) ↔
      ∃ merkleTrees, LeafMap.updateEach (leaves B sql index height) o₁.1 ts.merkleTrees
          = some merkleTrees ∧
        getStateHash B { ts with merkleTrees } o₂ = (hash, ts₁) :=
  Option.map_eq_some_iff

theorem rootsOnly_update (h : ts.RootsOnly)
    (hu : ts.update B sql index height o₁ o₂ = some (hash, ts₁)) : ts₁.RootsOnly := by
  obtain ⟨merkleTrees, -, hhash⟩ := update_eq_some_iff.1 hu
  have hts₁ : (getStateHash B { ts with merkleTrees } o₂).2 = ts₁ := congrArg Prod.snd hhash
  rw [← hts₁]
  exact rootsOnly_getStateHash (h.with_trees _) o₂

theorem updateEach_of_update (hu : ts.update B sql index height o₁ o₂ = some (hash, ts₁)) :
    LeafMap.updateEach (leaves B sql index height) o₁.1 ts.merkleTrees = some ts₁.merkleTrees := by
  obtain ⟨merkleTrees, hupdate, hhash⟩ := update_eq_some_iff.1 hu
  have htrees : merkleTrees = ts₁.merkleTrees := congrArg (fun r => r.2.merkleTrees) hhash
  rw [hupdate, htrees]

/-- **The same leaves** give the same hash exactly when the trees agreed on everything else. -/
theorem update_hash_eq_iff (h : ts.RootsOnly) (h' : ts'.RootsOnly)
    (hu : ts.update B sql index height o₁ o₂ = some (hash, ts₁))
    (hu' : ts'.update B sql index height o₁' o₂' = some (hash', ts₁')) :
    hash = hash' ↔ AgreeOff (keysOf (leaves B sql index height)) ts.merkleTrees ts'.merkleTrees := by
  obtain ⟨trees, hupdate, hhash⟩ := update_eq_some_iff.1 hu
  obtain ⟨trees', hupdate', hhash'⟩ := update_eq_some_iff.1 hu'
  have hfst : (getStateHash B { ts with merkleTrees := trees } o₂).1 = hash := congrArg Prod.fst hhash
  have hfst' : (getStateHash B { ts' with merkleTrees := trees' } o₂').1 = hash' :=
    congrArg Prod.fst hhash'
  rw [← hfst, ← hfst', getStateHash_eq_iff (h.with_trees _) (h'.with_trees _)]
  exact LeafMap.updateEach_eq_iff o₁.nodup o₁'.nodup o₁.mem o₁'.mem hupdate hupdate'

/-- Whether the trees can be updated depends on the leaves only. -/
theorem exists_update (h : ∀ T, ∃ ls, leaves B sql index height T = some ls) (ts : TreeStore)
    (o₁ o₂ : TreeOrder) : ∃ hash ts₁, ts.update B sql index height o₁ o₂ = some (hash, ts₁) := by
  obtain ⟨trees, htrees⟩ := LeafMap.exists_updateEach_of_leaves _ o₁.1 ts.merkleTrees fun T _ => h T
  rw [update, htrees]
  exact ⟨_, _, rfl⟩

theorem exists_leaves (hu : ts.update B sql index height o₁ o₂ = some (hash, ts₁)) (T : TreeName) :
    ∃ ls, leaves B sql index height T = some ls := by
  have hupdate := updateEach_of_update hu
  obtain ⟨ls, hls, -⟩ := ((LeafMap.updateEach_eq_some_iff _ o₁.nodup).1 hupdate).1 T (o₁.mem T)
  exact ⟨ls, hls⟩

end TreeStore

/-! ## Transactions in the index -/

section Index

variable {index index' : TxIndex} {height : ℤ}

/-- What is found under a height leads to a transaction. -/
def IndexSound (index : TxIndex) : Prop :=
  ∀ height i hash, index.refs (.height height i) = some hash → (index.byHash hash).isSome

theorem refs_index (index : TxIndex) (idxTx : IndexedTransaction) (height i : ℤ) :
    (index.index B.toHost idxTx).refs (.height height i)
      = if height = idxTx.height ∧ i = idxTx.index then some (Text.hexEncode (B.sha3 idxTx.tx))
        else index.refs (.height height i) := by
  -- the entries of the sender and the recipient are under other keys
  have hother : ∀ (addr : String) (key : Utility.IndexRef) (refs : _ → Option String),
      key ≠ .height height i → (if addr = "" then refs else Function.update refs key
        (some (Text.hexEncode (B.sha3 idxTx.tx)))) (.height height i) = refs (.height height i) := by
    intro addr key refs hkey
    split
    · rfl
    · exact Function.update_of_ne hkey.symm _ _
  refine (hother _ (.recipient _ _ _) _ nofun).trans ((hother _ (.sender _ _ _) _ nofun).trans ?_)
  by_cases hslot : height = idxTx.height ∧ i = idxTx.index
  · rw [if_pos hslot, hslot.1, hslot.2, Function.update_self]
  · rw [if_neg hslot, Function.update_of_ne]
    intro h
    injection h with hheight hi
    exact hslot ⟨hheight, hi⟩

theorem byHash_index (index : TxIndex) (idxTx : IndexedTransaction) :
    (index.index B.toHost idxTx).byHash
      = Function.update index.byHash (Text.hexEncode (B.sha3 idxTx.tx)) (some idxTx) := rfl

theorem indexSound_index (h : IndexSound index) (idxTx : IndexedTransaction) :
    IndexSound (index.index B.toHost idxTx) := by
  intro height i hash hhash
  rw [byHash_index]
  by_cases heq : hash = Text.hexEncode (B.sha3 idxTx.tx)
  · rw [heq, Function.update_self]
    rfl
  · rw [Function.update_of_ne heq]
    rw [refs_index] at hhash
    split at hhash
    · exact absurd (Option.some.inj hhash).symm heq
    · exact h height i hash hhash

theorem mem_hashKeysAt {hash : String} (h : hash ∈ hashKeysAt index height) :
    ∃ i : ℕ, index.refs (.height height i) = some hash := by
  obtain ⟨i, -, hi⟩ := List.mem_filterMap.1 h
  exact ⟨i, hi⟩

/-- A sound index can be read. -/
theorem exists_getByHeight (h : IndexSound index) (height : ℤ) :
    ∃ idxTxs, getByHeight index height = .ok idxTxs := by
  refine StoreProgram.exists_mapM_eq_ok fun hash hmem => ?_
  obtain ⟨i, hi⟩ := mem_hashKeysAt hmem
  obtain ⟨idxTx, hidx⟩ := Option.isSome_iff_exists.1 (h height i hash hi)
  exact ⟨idxTx, by rw [hidx]⟩

/-- Two indices that agree on what is under the height are read alike. -/
theorem getByHeight_congr
    (hrefs : ∀ i : ℕ, index.refs (.height height i) = index'.refs (.height height i))
    (hhashes : ∀ (i : ℕ) hash, index.refs (.height height i) = some hash →
      index.byHash hash = index'.byHash hash) :
    getByHeight index height = getByHeight index' height := by
  have hkeys : hashKeysAt index height = hashKeysAt index' height :=
    List.filterMap_congr fun i _ => hrefs i
  rw [getByHeight, getByHeight, ← hkeys]
  have hall : ∀ hash ∈ hashKeysAt index height, index.byHash hash = index'.byHash hash := by
    intro hash hmem
    obtain ⟨i, hi⟩ := mem_hashKeysAt hmem
    exact hhashes i hash hi
  generalize hashKeysAt index height = hashes at hall
  induction hashes with
  | nil => rfl
  | cons hash hashes ih =>
    rw [List.mapM_cons, List.mapM_cons, hall hash List.mem_cons_self,
      ih fun hash' hmem => hall hash' (List.mem_cons_of_mem _ hmem)]

theorem leaves_congr {sql : SqlState} (h : getByHeight index height = getByHeight index' height) :
    leaves B sql index height = leaves B sql index' height := by
  funext T
  cases T with
  | transactions =>
    rw [leaves, leaves, transactionLeaves, transactionLeaves, h]
  | _ => rfl

end Index

/-! ## Modules that were created -/

namespace PersistenceModule

variable {m m' : PersistenceModule} {ctx : Context} {e : Ending}

/-- What every module that was created keeps. -/
structure Sound (m : PersistenceModule) : Prop where
  roots : m.trees.RootsOnly
  index : IndexSound m.index

theorem computeStateHash_eq_some_iff {o₁ o₂ : TreeOrder} {hash : String} :
    m.computeStateHash B o₁ o₂ = some (hash, m') ↔
      ∃ ctx ts, m.writeContext = some ctx ∧
        m.trees.update B ctx.sql m.index ctx.height o₁ o₂ = some (hash, ts) ∧
        m' = { m with trees := ts, writeContext := some { ctx with stateHash := hash } } := by
  rw [computeStateHash, Option.bind_eq_some_iff]
  constructor
  · rintro ⟨ctx, hctx, hmap⟩
    obtain ⟨⟨hash', ts⟩, hupdate, heq⟩ := Option.map_eq_some_iff.1 hmap
    cases heq
    exact ⟨ctx, ts, hctx, hupdate, rfl⟩
  · rintro ⟨ctx, ts, hctx, hupdate, rfl⟩
    refine ⟨ctx, hctx, ?_⟩
    rw [hupdate]
    rfl

theorem sound_call {c : Call} (h : m.Sound) (hc : m.call B c = some m') : m'.Sound := by
  cases c with
  | write statement =>
    cases hc
    exact ⟨h.roots, h.index⟩
  | indexTransaction idxTx =>
    cases hc
    exact ⟨h.roots, indexSound_index h.index idxTx⟩
  | computeStateHash o₁ o₂ =>
    obtain ⟨⟨hash, m₁⟩, hcompute, heq⟩ := Option.map_eq_some_iff.1 hc
    obtain ⟨ctx, ts, -, hupdate, rfl⟩ := computeStateHash_eq_some_iff.1 hcompute
    cases heq
    exact ⟨TreeStore.rootsOnly_update h.roots hupdate, h.index⟩

theorem sound_calls {cs : List Call} (h : m.Sound) (hcs : m.calls B cs = some m') : m'.Sound := by
  induction cs generalizing m with
  | nil =>
    cases hcs
    exact h
  | cons c cs ih =>
    obtain ⟨m₁, hc, hrest⟩ := Option.bind_eq_some_iff.1 hcs
    exact ih (sound_call h hc) hrest

/-- A block is prepared when the one before is there; its transactions are those of the index. -/
theorem prepareBlock_eq_ok_iff {proposerAddr quorumCert : Bytes} {now : ℤ × ℤ} {block : Model.Block} :
    m.prepareBlock B ctx proposerAddr quorumCert now = .ok block ↔
      ∃ previous idxTxs, m.prevBlockHash ctx.height = .ok previous ∧
        getByHeight m.index ctx.height = .ok idxTxs ∧
        block = ⟨some ⟨ctx.height.toNat, B.networkId, ctx.stateHash, previous, proposerAddr,
          quorumCert, some now⟩, idxTxs.map IndexedTransaction.tx⟩ := by
  rw [prepareBlock]
  cases m.prevBlockHash ctx.height with
  | error e =>
    refine iff_of_false nofun ?_
    rintro ⟨previous, idxTxs, h, -⟩
    cases h
  | ok previous =>
    cases getByHeight m.index ctx.height with
    | error e =>
      refine iff_of_false nofun ?_
      rintro ⟨previous, idxTxs, -, h, -⟩
      cases h
    | ok idxTxs =>
      constructor
      · intro h
        exact ⟨previous, idxTxs, rfl, rfl, (Except.ok.inj h).symm⟩
      · rintro ⟨previous', idxTxs', h, h', rfl⟩
        cases h
        cases h'
        rfl

/-- A commit that succeeds closes the context and keeps its rows. -/
theorem commit_eq_ok_iff {proposerAddr quorumCert : Bytes} {now : ℤ × ℤ} :
    m.commit B proposerAddr quorumCert now = (.ok (), m') ↔
      ∃ ctx block, m.writeContext = some ctx ∧
        m.prepareBlock B ctx proposerAddr quorumCert now = .ok block ∧
        (m.blocks.any fun stored => stored.1 = ctx.height) = false ∧
        m' = { m with
          blockStore := Function.update m.blockStore ctx.height (some block)
          sql := ctx.sql
          blocks := m.blocks ++ [(ctx.height, ctx.stateHash)]
          writeContext := none } := by
  rw [commit]
  cases hctx : m.writeContext with
  | none =>
    refine iff_of_false (fun h => by cases congrArg Prod.fst h) ?_
    rintro ⟨ctx, -, h, -⟩
    cases h
  | some ctx =>
    simp only
    cases hblock : m.prepareBlock B ctx proposerAddr quorumCert now with
    | error err =>
      refine iff_of_false (fun h => by cases congrArg Prod.fst h) ?_
      rintro ⟨ctx', block, hctx', hblock', -⟩
      cases hctx'
      rw [hblock] at hblock'
      cases hblock'
    | ok block =>
      simp only
      cases hstored : m.blocks.any fun stored => stored.1 = ctx.height with
      | true =>
        rw [if_pos rfl]
        refine iff_of_false (fun h => by cases congrArg Prod.fst h) ?_
        rintro ⟨ctx', block', hctx', -, hstored', -⟩
        cases hctx'
        rw [hstored] at hstored'
        cases hstored'
      | false =>
        rw [if_neg Bool.false_ne_true]
        constructor
        · intro h
          exact ⟨ctx, block, rfl, hblock, hstored, (congrArg Prod.snd h).symm⟩
        · rintro ⟨ctx', block', hctx', hblock', -, rfl⟩
          cases hctx'
          rw [hblock] at hblock'
          cases hblock'
          rfl

theorem exists_prevBlockHash_iff {height : ℤ} :
    (∃ previous, m.prevBlockHash height = .ok previous) ↔
      height = 0 ∨ height - 1 ∈ m.blocks.map Prod.fst := by
  rw [prevBlockHash]
  by_cases hzero : height = 0
  · rw [if_neg (not_not_intro hzero)]
    exact iff_of_true ⟨"", rfl⟩ (.inl hzero)
  · rw [if_pos hzero, or_iff_right hzero, getBlockHash]
    cases hfind : m.blocks.find? fun block => block.1 = height - 1 with
    | some block =>
      have hheight : block.1 = height - 1 := by simpa using List.find?_some hfind
      refine iff_of_true ⟨block.2, rfl⟩ (List.mem_map.2 ⟨block, ?_, hheight⟩)
      exact List.mem_of_find?_eq_some hfind
    | none =>
      refine iff_of_false (fun ⟨_, h⟩ => by cases h) fun hmem => ?_
      obtain ⟨block, hblock, hheight⟩ := List.mem_map.1 hmem
      exact List.find?_eq_none.1 hfind block hblock (decide_eq_true hheight)

theorem any_height_eq {height : ℤ} :
    (m.blocks.any fun stored => stored.1 = height) = decide (height ∈ m.blocks.map Prod.fst) := by
  rw [Bool.eq_iff_iff, List.any_eq_true, decide_eq_true_iff, List.mem_map]
  simp

/-- A context commits if the block before its height is there and none at its height. -/
theorem exists_commit (hctx : m.writeContext = some ctx) (hindex : IndexSound m.index)
    (hprevious : ctx.height = 0 ∨ ctx.height - 1 ∈ m.blocks.map Prod.fst)
    (hnew : ctx.height ∉ m.blocks.map Prod.fst) (proposerAddr quorumCert : Bytes) (now : ℤ × ℤ) :
    ∃ block idxTxs, getByHeight m.index ctx.height = .ok idxTxs ∧
      block.transactions = idxTxs.map IndexedTransaction.tx ∧
      m.commit B proposerAddr quorumCert now = (.ok (), { m with
        blockStore := Function.update m.blockStore ctx.height (some block)
        sql := ctx.sql
        blocks := m.blocks ++ [(ctx.height, ctx.stateHash)]
        writeContext := none }) := by
  obtain ⟨idxTxs, hidxTxs⟩ := exists_getByHeight hindex ctx.height
  obtain ⟨previous, hprevious⟩ := exists_prevBlockHash_iff.2 hprevious
  have hblock : ∃ block, m.prepareBlock B ctx proposerAddr quorumCert now = .ok block ∧
      block.transactions = idxTxs.map IndexedTransaction.tx :=
    ⟨_, prepareBlock_eq_ok_iff.2 ⟨previous, idxTxs, hprevious, hidxTxs, rfl⟩, rfl⟩
  obtain ⟨block, hblock, htxs⟩ := hblock
  have hfree : (m.blocks.any fun stored => stored.1 = ctx.height) = false := by
    rw [any_height_eq, decide_eq_false_iff_not]
    exact hnew
  exact ⟨block, idxTxs, hidxTxs, htxs, commit_eq_ok_iff.2 ⟨ctx, block, hctx, hblock, hfree, rfl⟩⟩

theorem finish_commit_eq_some_iff {proposerAddr quorumCert : Bytes} {now : ℤ × ℤ} :
    m.finish B (.commit proposerAddr quorumCert now) = some m' ↔
      m.commit B proposerAddr quorumCert now = (.ok (), m') := by
  rw [finish]
  cases m.commit B proposerAddr quorumCert now with
  | mk r m₁ =>
    cases r with
    | error e => exact iff_of_false nofun fun h => by cases congrArg Prod.fst h
    | ok u =>
      constructor
      · intro h
        rw [Option.some.inj h]
      · intro h
        exact congrArg some (congrArg Prod.snd h)

theorem sound_finish (h : m.Sound) (he : m.finish B e = some m') : m'.Sound := by
  cases e with
  | release =>
    cases he
    exact ⟨h.roots, h.index⟩
  | commit proposerAddr quorumCert now =>
    obtain ⟨ctx, block, -, -, -, rfl⟩ := commit_eq_ok_iff.1 (finish_commit_eq_some_iff.1 he)
    exact ⟨h.roots, h.index⟩

/-- After a session no context is open. -/
theorem closed_of_finish (he : m.finish B e = some m') : m'.writeContext = none := by
  cases e with
  | release =>
    cases he
    rfl
  | commit proposerAddr quorumCert now =>
    obtain ⟨ctx, block, -, -, -, rfl⟩ := commit_eq_ok_iff.1 (finish_commit_eq_some_iff.1 he)
    rfl

theorem session_eq_some_iff {s : Session} (hclosed : m.writeContext = none) :
    m.session B s = some m' ↔
      ∃ m₁, calls B { m with writeContext := some ⟨s.height, m.sql, ""⟩ } s.calls = some m₁ ∧
        m₁.finish B s.ending = some m' := by
  rw [session, newRWContext, hclosed]
  exact Option.bind_eq_some_iff

theorem sound_sessions {ss : List Session} (h : m.Sound) (hclosed : m.writeContext = none)
    (hss : m.sessions B ss = some m') : m'.Sound ∧ m'.writeContext = none := by
  induction ss generalizing m with
  | nil =>
    cases hss
    exact ⟨h, hclosed⟩
  | cons s ss ih =>
    obtain ⟨m₁, hs, hrest⟩ := Option.bind_eq_some_iff.1 hss
    obtain ⟨m₂, hcalls, hfinish⟩ := (session_eq_some_iff hclosed).1 hs
    have hopened : Sound { m with writeContext := some ⟨s.height, m.sql, ""⟩ } := ⟨h.roots, h.index⟩
    exact ih (sound_finish (sound_calls hopened hcalls) hfinish) (closed_of_finish hfinish) hrest

end PersistenceModule

end Pocket.Persistence
