import Pocket.Analysis.ProposalReplay
import Pocket.Analysis.Restart

/-!
# Leader and replica agree on the state

A replica that applies a leader's block has the leader's rows, but for the order of the rows of
accounts and pools that the end of the block wrote.  These rows have different addresses, so their
leaves have different paths and may be set in any order; hence the trees and the state hash are the
leader's, in whatever orders the two of them visit the trees (`update_of_reordered`).

A proposal without a proposer is the exception.  `CreateProposalBlock` makes one for it, and
`ApplyBlock` takes it for a proposal that was never set.
-/

set_option autoImplicit false

namespace Pocket.Persistence

open Model (Bytes)
open Utility PersistenceModule
open StoreProgram StoreProgram.Prog VersionedTable
open Text (hexEncode)

variable {B : Backend} {height : ℤ} {t : Table String ℤ ℤ} {db : Database} {o₁ o₂ : TreeOrder}
  {hash : String}

/-! ## The leaves of reordered rows -/

/-- The leaf of an account or a pool. -/
def accountLeaf (B : Backend) (row : Row String ℤ ℤ) : Option Leaf := do
  let bzAddr ← addressPath row.key
  return (bzAddr, B.marshalAccount ⟨row.key, toString row.value⟩)

theorem addressPath_hexEncode (address : Bytes) : addressPath (hexEncode address) = some address := by
  rw [addressPath, Text.hexDecode_hexEncode]
  rfl

/-- Rows at one height whose keys are the texts of addresses have leaves with different paths. -/
theorem leaves_of_hex_rows {rows : List (Row String ℤ ℤ)} (hslots : (rows.map Row.slot).Nodup)
    (hheight : ∀ row ∈ rows, row.height = height)
    (hhex : ∀ row ∈ rows, ∃ address, row.key = hexEncode address) :
    ∃ leaf : Row String ℤ ℤ → Leaf, (∀ row ∈ rows, accountLeaf B row = some (leaf row)) ∧
      ((rows.map leaf).map Prod.fst).Nodup := by
  have hpath : ∀ row ∈ rows, ∃ address, row.key = hexEncode address ∧
      addressPath row.key = some address := by
    intro row hrow
    obtain ⟨address, hkey⟩ := hhex row hrow
    exact ⟨address, hkey, by rw [hkey, addressPath_hexEncode]⟩
  refine ⟨fun row => ((addressPath row.key).getD [], B.marshalAccount ⟨row.key, toString row.value⟩),
    fun row hrow => ?_, ?_⟩
  · obtain ⟨address, -, hsome⟩ := hpath row hrow
    simp [accountLeaf, hsome]
  · rw [List.map_map]
    refine hslots.of_map.map_on fun row hrow row' hrow' hsame => ?_
    obtain ⟨address, hkey, hsome⟩ := hpath row hrow
    obtain ⟨address', hkey', hsome'⟩ := hpath row' hrow'
    simp only [Function.comp_apply, hsome, hsome', Option.getD_some] at hsame
    refine List.inj_on_of_nodup_map hslots hrow hrow' ?_
    rw [Row.slot, Row.slot, hkey, hkey', hsame, hheight row hrow, hheight row' hrow']

/-- Accounts whose rows were reordered give their tree the same leaves. -/
theorem accountLeaves_of_reordered {t' : Table String ℤ ℤ}
    (h : t.Reordered (∃ address, · = hexEncode address) t') {ls : List Leaf} (tree : Tree)
    (hls : accountLeaves B height t = some ls) :
    ∃ ls', accountLeaves B height t' = some ls' ∧ LeafMap.setAll tree ls' = LeafMap.setAll tree ls := by
  obtain ⟨front, back, back', hrows, hrows', hperm, hhex⟩ := h
  have hnow := hperm.filter fun row => decide (row.height = height)
  obtain ⟨leaf, hleaf, hpaths⟩ := @leaves_of_hex_rows B height
    (back.filter fun row => row.height = height)
    ((Table.nodup_of_rows_eq hrows).sublist (List.filter_sublist.map _))
    (fun row hrow => of_decide_eq_true (List.mem_filter.1 hrow).2)
    (fun row hrow => hhex row (List.mem_filter.1 hrow).1)
  have hleaf' : ∀ row ∈ back'.filter (fun row => row.height = height),
      accountLeaf B row = some (leaf row) := fun row hrow => hleaf row (hnow.mem_iff.2 hrow)
  have happly : accountLeaves B height t
      = (front.filter (fun row => row.height = height) ++
          back.filter fun row => row.height = height).mapM (accountLeaf B) := by
    rw [← List.filter_append, ← hrows]
    rfl
  have happly' : accountLeaves B height t'
      = (front.filter (fun row => row.height = height) ++
          back'.filter fun row => row.height = height).mapM (accountLeaf B) := by
    rw [← List.filter_append, ← hrows']
    rfl
  rw [happly, List.mapM_append, mapM_eq_some_map hleaf] at hls
  rw [happly', List.mapM_append, mapM_eq_some_map hleaf']
  cases hfront : (front.filter fun row => row.height = height).mapM (accountLeaf B) with
  | none =>
    rw [hfront] at hls
    cases hls
  | some lsFront =>
    rw [hfront] at hls
    cases hls
    refine ⟨_, rfl, ?_⟩
    rw [LeafMap.setAll_append, LeafMap.setAll_append]
    exact (LeafMap.setAll_perm _ (hnow.map leaf) hpaths).symm

/-! ## The state hash -/

namespace TreeStore

variable {flags : Table String ℤ FlagRow} {index : TxIndex}

/-- The roots may be collected in any order. -/
theorem getStateHash_order (ts : TreeStore) (order order' : TreeOrder) :
    getStateHash B ts order = getStateHash B ts order' := by
  have hpaths : ((order.1.map fun T => (T.path, B.root (ts.merkleTrees T))).map Prod.fst).Nodup := by
    rw [List.map_map]
    exact order.nodup.map TreeName.path_injective
  have hperm := (order.2.trans order'.2.symm).map fun T => (T.path, B.root (ts.merkleTrees T))
  rw [getStateHash, getStateHash, LeafMap.setAll_perm _ hperm hpaths]

/-- **Reordered rows give the same state hash**, in whatever orders the trees are visited. -/
theorem update_of_reordered {db' : Database} (h : Reordered db db') {ts ts' : TreeStore}
    (o₁' o₂' : TreeOrder) (hu : ts.update B ⟨db, flags⟩ index height o₁ o₂ = some (hash, ts')) :
    ts.update B ⟨db', flags⟩ index height o₁' o₂' = some (hash, ts') := by
  obtain ⟨merkleTrees, hupdate, hhash⟩ := update_eq_some_iff.1 hu
  refine update_eq_some_iff.2 ⟨merkleTrees, ?_, (getStateHash_order _ o₂' o₂).trans hhash⟩
  refine LeafMap.updateEach_of_setAll_eq o₁.nodup o₁'.nodup (o₁.2.trans o₁'.2.symm) ?_ hupdate
  intro T ls hls
  cases T with
  | account => exact accountLeaves_of_reordered h.accounts _ hls
  | pool => exact accountLeaves_of_reordered h.pools _ hls
  | transactions | flags => exact ⟨ls, hls, rfl⟩
  | params =>
    refine ⟨ls, ?_, rfl⟩
    rw [← hls, leaves, leaves, paramLeaves, paramLeaves, h.params]
  | _ =>
    have hmessage : actorMessage ⟨db', flags⟩ = actorMessage ⟨db, flags⟩ := by
      funext t row
      simp only [actorMessage, h.chains]
    refine ⟨ls, ?_, rfl⟩
    rw [← hls]
    simp only [leaves, actorLeaves, getActor, h.actors, hmessage]

end TreeStore

/-- What `ComputeStateHash` returns for the state that a block came to. -/
def blockStateHash (B : Backend) (trees : TreeStore) (flags : Table String ℤ FlagRow) (height : ℤ)
    (updateOrder hashOrder : TreeOrder) (s : BlockState) : Option String :=
  (trees.update B ⟨s.db, flags⟩ s.index height updateOrder hashOrder).map Prod.fst

theorem blockStateHash_ne_empty (hroot : ∀ tree, B.root tree ≠ []) {trees : TreeStore}
    {flags : Table String ℤ FlagRow} {s : BlockState}
    (h : blockStateHash B trees flags height o₁ o₂ s = some hash) : hash ≠ "" := by
  obtain ⟨⟨hash', ts⟩, hupdate, rfl⟩ := Option.map_eq_some_iff.1 h
  obtain ⟨merkleTrees, -, hhash⟩ := TreeStore.update_eq_some_iff.1 hupdate
  have hhex : hexEncode (B.root (TreeStore.getStateHash B { trees with merkleTrees } o₂).2.rootTree)
      = hash' := congrArg Prod.fst hhash
  intro hempty
  refine hroot _ (Text.hexEncode_injective (hhex.trans hempty))

/-! ## Leader and replica -/

/-- **A replica reproduces the leader's block**: whatever the leader's mempool held and whatever
the replica's holds, in whatever orders the two visit the kinds of actors and the trees, applying
what `CreateProposalBlock` returned succeeds, with the same rows, the same index of transactions
and the same state hash. -/
theorem replica_reproduces_block (B : Backend) (hroot : ∀ tree, B.root tree ≠ [])
    (hmarshal : ∀ bz tx, B.unmarshal bz = .ok tx → ∃ bz', B.marshal tx = .ok bz')
    (height : ℤ) (committed : Database) (flags : Table String ℤ FlagRow) (index : TxIndex)
    (trees : TreeStore) (mempool mempool' : TxMempool) (hvalid : ValidMempool B.toHost mempool)
    (orders orders' : MapOrders) (horders : orders.Complete) (horders' : orders'.Complete)
    (o₁ o₂ o₁' o₂' : TreeOrder) (proposer : Bytes) (hproposer : proposer ≠ []) (maxTxBytes : UInt64)
    (hash : String) (txs : List Bytes) (leader : BlockState)
    (hleader : createProposalBlock B.toHost height committed
      (unfailingCalls orders (blockStateHash B trees flags height o₁ o₂ leader)) proposer maxTxBytes
      ⟨committed, [], mempool, index⟩ = some (.ok (hash, txs), leader)) :
    ∃ replica, applyBlock B.toHost height committed
        (unfailingCalls orders' (blockStateHash B trees flags height o₁' o₂' replica))
        ⟨hash, proposer, txs⟩ ⟨committed, [], mempool', index⟩ = some (.ok (), replica) ∧
      SameRows leader.db replica.db ∧ replica.index = leader.index ∧
      blockStateHash B trees flags height o₁' o₂' replica = some hash := by
  have hsame : SameWork ⟨committed, [], mempool, index⟩ ⟨committed, [], mempool', index⟩ :=
    ⟨rfl, rfl, rfl⟩
  obtain ⟨hhash, replica, hrows, -, hindex, happly⟩ :=
    exists_applyBlock_of_createProposalBlock hmarshal horders horders' hvalid hsame hleader
  obtain ⟨⟨found, ts⟩, hupdate, hfound⟩ := Option.map_eq_some_iff.1 hhash
  have hhash' : blockStateHash B trees flags height o₁' o₂' replica = some hash := by
    rw [blockStateHash, hindex, TreeStore.update_of_reordered hrows o₁' o₂' hupdate, ← hfound]
    rfl
  refine ⟨replica, ?_, hrows.sameRows, hindex, hhash'⟩
  rw [hhash']
  exact happly (blockStateHash_ne_empty hroot hhash) hproposer

/-! ## When there is a state hash -/

/-- Accounts and pools are under the texts of addresses, and there are no actors. -/
structure Addressed (db : Database) : Prop where
  accounts : ∀ row ∈ db.accounts.rows, ∃ address, row.key = hexEncode address
  pools : ∀ row ∈ db.pools.rows, ∃ address, row.key = hexEncode address
  actors : ∀ t, (db.actors t).rows = []

/-- Updates of accounts and pools under the text of an address, and of the actors there are. -/
inductive Addresses : Update → Prop
  | setAccount (address : Bytes) (amount : ℤ) : Addresses (.setAccount (hexEncode address) amount)
  | addAccount (address : Bytes) (amount : ℤ) : Addresses (.addAccount (hexEncode address) amount)
  | setPool (address : Bytes) (amount : ℤ) : Addresses (.setPool (hexEncode address) amount)
  | addPool (address : Bytes) (amount : ℤ) : Addresses (.addPool (hexEncode address) amount)
  | subPool (address : Bytes) (amount : ℤ) : Addresses (.subPool (hexEncode address) amount)
  | pause (t : ActorType) (pausedBeforeHeight unstakingHeight : ℤ) :
    Addresses (.unstakePausedBefore t pausedBeforeHeight unstakingHeight)

theorem hex_upsert {amount : ℤ} (h : ∀ row ∈ t.rows, ∃ address, row.key = hexEncode address)
    (address : Bytes) :
    ∀ row ∈ (t.upsert (hexEncode address) height amount).rows,
      ∃ address, row.key = hexEncode address := by
  intro row hrow
  rcases List.mem_append.1 hrow with hold | hnew
  · exact h row (Table.mem_others.1 hold).1
  · exact ⟨address, congrArg Row.key (List.mem_singleton.1 hnew)⟩

theorem Addressed.apply (h : Addressed db) {w : Update} (hw : Addresses w) :
    Addressed (apply height db w) := by
  cases hw with
  | setAccount address amount | addAccount address amount =>
    exact ⟨hex_upsert h.accounts address, h.pools, h.actors⟩
  | setPool address amount | addPool address amount | subPool address amount =>
    exact ⟨h.accounts, hex_upsert h.pools address, h.actors⟩
  | pause t pausedBeforeHeight unstakingHeight =>
    refine ⟨h.accounts, h.pools, fun t' => ?_⟩
    simp [Utility.apply, Database.unstakePausedBefore, Database.setActors, h.actors]

theorem Addressed.foldl (h : Addressed db) {ws : List Update} (hws : ∀ w ∈ ws, Addresses w) :
    Addressed (ws.foldl (Utility.apply height) db) := by
  induction ws generalizing db with
  | nil => exact h
  | cons w ws ih =>
    rw [List.forall_mem_cons] at hws
    exact ih (h.apply hws.1) hws.2

theorem every_endBlock (orders : MapOrders) (proposer : Bytes) :
    (endBlock height orders proposer).run.Every Addresses fun _ => True := by
  refine meets_then ?_ fun _ => meets_then ?_ fun _ => ?_
  · simp [handleProposerRewards, getPoolAmount, setPoolAmount, getIntParam, getStringParam,
      addAccountAmount, addPoolAmount, Addresses.setPool, Addresses.addAccount, Addresses.addPool]
  · refine meets_forM fun t _ => Prog.every_mono_updates (every_unbond t) fun w hw => ?_
    cases hw with
    | fromPool address amount => exact .subPool address amount
    | toAccount address amount => exact .addAccount address amount
  · refine meets_forM fun t _ => Prog.every_mono_updates (every_pause t) fun w hw => ?_
    obtain ⟨pausedBeforeHeight, unstakingHeight, rfl⟩ := hw
    exact .pause t pausedBeforeHeight unstakingHeight

theorem exists_accountLeaves (h : ∀ row ∈ t.rows, ∃ address, row.key = hexEncode address) :
    ∃ ls, accountLeaves B height t = some ls := by
  refine ⟨_, mapM_eq_some_map
    (g := fun row => ((addressPath row.key).getD [], B.marshalAccount ⟨row.key, toString row.value⟩))
    fun row hrow => ?_⟩
  obtain ⟨address, hkey⟩ := h row (List.mem_filter.1 hrow).1
  simp [hkey, addressPath_hexEncode]

/-- The leaves of such a state can be had. -/
theorem Addressed.exists_leaves {sql : SqlState} {index : TxIndex} (h : Addressed sql.db)
    (hindex : IndexSound index) (T : TreeName) : ∃ ls, leaves B sql index height T = some ls := by
  cases T with
  | account => exact exists_accountLeaves h.accounts
  | pool => exact exists_accountLeaves h.pools
  | transactions =>
    obtain ⟨idxTxs, hidxTxs⟩ := exists_getByHeight hindex height
    rw [leaves, transactionLeaves, hidxTxs]
    exact ⟨_, rfl⟩
  | params | flags => exact ⟨_, rfl⟩
  | app | val | fish | servicer =>
    refine ⟨[], ?_⟩
    rw [leaves, actorLeaves, updatedAt, h.actors]
    rfl

/-! ## A block with one of two transactions -/

/-- The bytes `1` are a send of 60 by the owner of the address `01`, all others one by somebody
else. -/
noncomputable def twoSendsBackend : Backend where
  fromAny := fun any => .ok (.utility (.send ⟨if any.value = [1] then [1] else [9], [2], "60"⟩))
  marshal := fun tx => .ok (0 :: tx.msg.value)
  address := fun _ => [1]
  verify := fun _ _ _ => true
  unmarshal := fun bz => .ok { ownerTx with msg := ⟨"", bz⟩ }
  sha3 := id
  maxTxsBytesTotal := 1000
  maxTxs := 10
  networkId := "localnet"
  marshalActor := fun _ => [1]
  marshalAccount := fun account => account.amount.toUTF8.data.toList
  marshalParam := fun _ => [1]
  marshalFlag := fun _ => [1]
  root := fun tree => 0 :: exists_injective_root.choose tree
  root_injective := fun _ _ h => exists_injective_root.choose_spec (List.cons.inj h).2

def twoSends : TxMempool := ⟨{hexEncode [2], hexEncode [1]}, [[2], [1]], ⟨2, 2⟩⟩

/-- The leader with these two transactions, before its first block of the height. -/
def twoSendsStart : BlockState := ⟨blockDatabase "0", [], twoSends, .empty⟩

def sendTx (bz : Bytes) : Transaction := { ownerTx with msg := ⟨"", bz⟩ }

/-- What the transaction that is kept writes: its fee and the send. -/
def keptUpdates : List Update :=
  [.setAccount (hexEncode [1]) 100, .addPool (hexEncode Pool.feeCollector.address) 0,
    .addAccount (hexEncode [2]) 60, .setAccount (hexEncode [1]) 40]

def keptIdxTx : IndexedTransaction :=
  ⟨[0, 1], 2, 0, 0, "", hexEncode [1], hexEncode [2], "MessageSend"⟩

/-- The end of this block succeeds. -/
theorem exists_plan_endBlock (proposer : Bytes) :
    ∃ ws, (endBlock 2 ⟨allActors, allActors⟩ proposer).run.plan (store 2) (blockDatabase "0")
      = some (.ok (), ws) := by
  have hok : ((endBlock 2 ⟨allActors, allActors⟩ proposer).run.plan (store 2)
      (blockDatabase "0")).map Prod.fst = some (.ok ()) := rfl
  obtain ⟨⟨result, ws⟩, hplan, rfl⟩ := Option.map_eq_some_iff.1 hok
  exact ⟨ws, hplan⟩

theorem addressed_blockDatabase : Addressed (blockDatabase "0") where
  accounts := hex_upsert (hex_upsert (t := .empty) nofun [1]) [2]
  pools := nofun
  actors := fun _ => rfl

/-- The leader's block: the first of the transactions is dropped. -/
theorem createProposalBlock_twoSends (proposer : Bytes) :
    ∃ leader : BlockState, Addressed leader.db ∧ IndexSound leader.index ∧ ∀ stateHash,
      createProposalBlock twoSendsBackend.toHost 2 (blockDatabase "0")
        (unfailingCalls ⟨allActors, allActors⟩ stateHash) proposer 100 twoSendsStart
          = stateHash.map fun hash => (.ok (hash, [[1]]), leader) := by
  obtain ⟨ws, hend⟩ := exists_plan_endBlock proposer
  have hkept : ∀ w ∈ keptUpdates, Addresses w := by
    simp only [keptUpdates, List.forall_mem_cons]
    exact ⟨.setAccount _ _, .addPool _ _, .addAccount _ _, .setAccount _ _, nofun⟩
  have hempty : IndexSound .empty := nofun
  have hreap : ∀ stateHash, reapMempool twoSendsBackend.toHost 2 (blockDatabase "0")
      (unfailingCalls ⟨allActors, allActors⟩ stateHash) 100 twoSendsStart.mempool.queue.length 0 []
        0 twoSendsStart
        = some (.ok [[1]], ⟨keptUpdates.foldl (apply 2) (blockDatabase "0"), [sendTx [1]],
          ⟨(twoSends.set.erase (hexEncode [2])).erase (hexEncode [1]), [], ⟨0, 0⟩⟩,
          TxIndex.empty.index twoSendsBackend.toHost keptIdxTx⟩) := by
    intro stateHash
    rfl
  refine ⟨⟨ws.foldl (apply 2) (keptUpdates.foldl (apply 2) (blockDatabase "0")), [sendTx [1]],
    ⟨(twoSends.set.erase (hexEncode [2])).erase (hexEncode [1]), [], ⟨0, 0⟩⟩,
    TxIndex.empty.index twoSendsBackend.toHost keptIdxTx⟩,
    (addressed_blockDatabase.foldl hkept).foldl (mem_plan_of_every (every_endBlock _ _) hend),
    indexSound_index (B := twoSendsBackend) hempty _, fun stateHash => ?_⟩
  have hbegin : runUow 2 (blockDatabase "0") beginBlock (fun _ => none) twoSendsStart
      = some (.ok (), twoSendsStart) := rfl
  rw [createProposalBlock, unfailingCalls, hbegin]
  simp only [Outcome.andThen, Option.bind_some]
  rw [← unfailingCalls, hreap]
  simp only [Option.bind_some, runUow_unfailing, hend]
  rfl

/-- The leader's block with the state hash that `ComputeStateHash` returns for it. -/
theorem exists_leader_twoSends (proposer : Bytes) :
    ∃ hash leader, blockStateHash twoSendsBackend .setupTrees .empty 2 treeOrder
        treeOrder leader = some hash ∧
      createProposalBlock twoSendsBackend.toHost 2 (blockDatabase "0")
        (unfailingCalls ⟨allActors, allActors⟩ (some hash)) proposer 100 twoSendsStart
          = some (.ok (hash, [[1]]), leader) := by
  obtain ⟨leader, hrows, hindex, hcreate⟩ := createProposalBlock_twoSends proposer
  have hleaves : ∀ T, ∃ ls, leaves twoSendsBackend ⟨leader.db, .empty⟩ leader.index 2 T = some ls :=
    Addressed.exists_leaves hrows hindex
  obtain ⟨hash, ts, hupdate⟩ := TreeStore.exists_update hleaves .setupTrees
    treeOrder treeOrder
  refine ⟨hash, leader, ?_, hcreate (some hash)⟩
  rw [blockStateHash, hupdate]
  rfl

/-- The replica takes the kinds of actors in another order, and its mempool is empty. -/
theorem two_sends_reproduced :
    ∃ hash leader replica,
      createProposalBlock twoSendsBackend.toHost 2 (blockDatabase "0")
        (unfailingCalls ⟨allActors, allActors⟩ (some hash)) [3] 100 twoSendsStart
          = some (.ok (hash, [[1]]), leader) ∧
      applyBlock twoSendsBackend.toHost 2 (blockDatabase "0")
        (unfailingCalls ⟨allActors.reverse, allActors⟩ (some hash)) ⟨hash, [3], [[1]]⟩
        ⟨blockDatabase "0", [], .empty, .empty⟩ = some (.ok (), replica) ∧
      SameRows leader.db replica.db ∧ replica.index = leader.index := by
  obtain ⟨hash, leader, hhash, hleader⟩ := exists_leader_twoSends [3]
  have hvalid : ValidMempool twoSendsBackend.toHost twoSends := by
    intro bz hbz tx htx
    cases htx
    rfl
  obtain ⟨replica, happly, hrows, hindex, hhash'⟩ := replica_reproduces_block twoSendsBackend
    nofun (fun _ _ _ => ⟨_, rfl⟩) 2 (blockDatabase "0") .empty .empty .setupTrees
    twoSends .empty hvalid ⟨allActors, allActors⟩ ⟨allActors.reverse, allActors⟩
    ⟨.refl _, .refl _⟩ ⟨List.reverse_perm _, .refl _⟩ PersistenceModule.treeOrder
    PersistenceModule.treeOrder PersistenceModule.treeOrder PersistenceModule.treeOrder [3]
    (by decide) 100 hash [[1]] leader (by rw [hhash]; exact hleader)
  rw [hhash'] at happly
  exact ⟨hash, leader, replica, hleader, happly, hrows, hindex⟩

/-- Without a proposer the leader makes the block all the same, and the replica refuses it. -/
theorem block_without_proposer_refused :
    ∃ hash leader,
      blockStateHash twoSendsBackend .setupTrees .empty 2 PersistenceModule.treeOrder
        PersistenceModule.treeOrder leader = some hash ∧
      createProposalBlock twoSendsBackend.toHost 2 (blockDatabase "0")
        (unfailingCalls ⟨allActors, allActors⟩ (some hash)) [] 100 twoSendsStart
          = some (.ok (hash, [[1]]), leader) ∧
      ∀ calls s, applyBlock twoSendsBackend.toHost 2 (blockDatabase "0") calls ⟨hash, [], [[1]]⟩ s
        = some (.error errProposalBlockNotSet.error, s) := by
  obtain ⟨hash, leader, hhash, hleader⟩ := exists_leader_twoSends []
  exact ⟨hash, leader, hhash, hleader, fun calls s => if_pos (.inr rfl)⟩

end Pocket.Persistence
