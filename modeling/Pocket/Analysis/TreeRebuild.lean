import Pocket.Analysis.HeightWrites
import Pocket.Analysis.StateAgreement
import Pocket.Library.TableMirror

/-!
# The trees as a rebuild would have them

The trees are updated block by block, each time with the rows at the height of the block and the
transactions that were indexed for it.  After any number of blocks they are what a rebuild from the
tables and the index would give: for every key the leaf of its latest row, an actor with the chains
of that row's height and a parameter with the row's own height, and a leaf for every transaction
(`trees_equal_rebuild`).

What makes this work is that every write stamps its row with the height of its context
(`Writer.writtenAt_apply`) and that no row is ever taken away, so that a leaf which an earlier
computation of the hash has set is set again by the last one.
-/

set_option autoImplicit false

namespace Pocket.Persistence

open Model (Bytes)
open Utility (ActorRow ActorType ChainRow Database TxIndex IndexedTransaction)
open VersionedTable TableMirror PersistenceModule Table
open Text (hexEncode hexEncode_injective)

variable {B : Backend}

/-! ## A rebuild -/

/-- The leaves that a rebuild at the height gives each tree. -/
def Rebuilt (B : Backend) (sql : SqlState) (txs : List IndexedTransaction) (height : ℤ) :
    TreeName → Bytes → Bytes → Prop
  | .app => fun p v => ∃ actor, getActor sql height .app p = some actor ∧ B.marshalActor actor = v
  | .val => fun p v => ∃ actor, getActor sql height .val p = some actor ∧ B.marshalActor actor = v
  | .fish => fun p v => ∃ actor, getActor sql height .fish p = some actor ∧ B.marshalActor actor = v
  | .servicer => fun p v =>
    ∃ actor, getActor sql height .servicer p = some actor ∧ B.marshalActor actor = v
  | .account => fun p v => ∃ row, sql.db.accounts.latest (hexEncode p) height = some row ∧
      B.marshalAccount ⟨row.key, toString row.value⟩ = v
  | .pool => fun p v => ∃ row, sql.db.pools.latest (hexEncode p) height = some row ∧
      B.marshalAccount ⟨row.key, toString row.value⟩ = v
  | .transactions => fun p v => ∃ idxTx ∈ txs, B.sha3 idxTx.tx = p ∧ idxTx.tx = v
  | .params => fun p v => ∃ name row, namePath B name = p ∧
      sql.db.params.latest name height = some row ∧
      B.marshalParam ⟨row.key, row.value, row.height⟩ = v
  | .flags => fun p v => ∃ name row, namePath B name = p ∧ sql.flags.latest name height = some row ∧
      B.marshalFlag ⟨row.key, row.value.value, row.height, row.value.enabled⟩ = v

/-! ## The tables of leaves -/

/-- The rows behind each tree, with the values of their leaves; the transactions have none. -/
def leafTable (B : Backend) (sql : SqlState) : TreeName → Table String ℤ Bytes
  | .app => (sql.db.actors .app).mapRows fun row => B.marshalActor (actorMessage sql .app row)
  | .val => (sql.db.actors .val).mapRows fun row => B.marshalActor (actorMessage sql .val row)
  | .fish => (sql.db.actors .fish).mapRows fun row => B.marshalActor (actorMessage sql .fish row)
  | .servicer =>
    (sql.db.actors .servicer).mapRows fun row => B.marshalActor (actorMessage sql .servicer row)
  | .account => sql.db.accounts.mapRows fun row => B.marshalAccount ⟨row.key, toString row.value⟩
  | .pool => sql.db.pools.mapRows fun row => B.marshalAccount ⟨row.key, toString row.value⟩
  | .transactions => .empty
  | .params => sql.db.params.mapRows fun row => B.marshalParam ⟨row.key, row.value, row.height⟩
  | .flags => sql.flags.mapRows fun row =>
      B.marshalFlag ⟨row.key, row.value.value, row.height, row.value.enabled⟩

/-- The path of a key in each tree. -/
def leafPath (B : Backend) : TreeName → String → Option Bytes
  | .params | .flags => fun name => some (namePath B name)
  | _ => addressPath

/-- The keys that may stand in each table. -/
def LeafKey (names : String → Prop) : TreeName → String → Prop
  | .params => names
  | .flags => fun _ => False
  | _ => fun key => ∃ address, key = hexEncode address

/-- Every table has only keys that may stand in it. -/
def Keyed (B : Backend) (names : String → Prop) (sql : SqlState) : Prop :=
  ∀ T, ∀ row ∈ (leafTable B sql T).rows, LeafKey names T row.key

/-- The hash function tells the names apart. -/
def NamesApart (B : Backend) (names : String → Prop) : Prop :=
  ∀ name name', names name → names name' → namePath B name = namePath B name' → name = name'

variable {sql sql' : SqlState} {height : ℤ} {T : TreeName} {ν : Type} {t : Table String ℤ ν}
  {f : Row String ℤ ν → Bytes} {p v : Bytes} {txs new : List IndexedTransaction}
  {path : String → Option Bytes}

theorem actorMessage_congr {t : ActorType}
    (hchains : (sql'.db.chains t).filter (fun row => row.height ≠ height)
      = (sql.db.chains t).filter fun row => row.height ≠ height)
    (row : Row String ℤ ActorRow) (hrow : row.height ≠ height) :
    actorMessage sql' t row = actorMessage sql t row := by
  have hsplit : ∀ chains : List ChainRow,
      chains.filter (fun chain => chain.address = row.key ∧ chain.height = row.height)
        = (chains.filter fun chain => chain.height ≠ height).filter
            fun chain => chain.address = row.key ∧ chain.height = row.height := by
    intro chains
    rw [List.filter_filter]
    refine List.filter_congr fun chain _ => ?_
    by_cases hchain : chain.height = row.height
    · simp [hchain, hrow]
    · simp [hchain]
  simp only [actorMessage, hsplit (sql'.db.chains t), hsplit (sql.db.chains t), hchains]

/-- What is written to the database at a height is written to the tables of leaves. -/
theorem writtenAt_leafTable {names : String → Prop} (hflags : sql'.flags = sql.flags)
    (hw : sql.db.WrittenAt (∃ address, · = hexEncode address) names height sql'.db) (T : TreeName) :
    Table.WrittenAt (LeafKey names T) height (leafTable B sql T) (leafTable B sql' T) := by
  have hactor : ∀ t (row : Row String ℤ ActorRow), row.height ≠ height →
      B.marshalActor (actorMessage sql' t row) = B.marshalActor (actorMessage sql t row) := by
    intro t row hrow
    rw [actorMessage_congr (hw.chains t) row hrow]
  cases T with
  | app | val | fish | servicer => exact (hw.actors _).mapRows (hactor _)
  | account => exact hw.accounts.mapRows fun _ _ => rfl
  | pool => exact hw.pools.mapRows fun _ _ => rfl
  | transactions => exact .refl _ _ _
  | params => exact hw.params.mapRows fun _ _ => rfl
  | flags =>
    rw [leafTable, leafTable, hflags]
    exact .refl _ _ _

theorem Keyed.written {names : String → Prop}
    (hkeys : Keyed B names sql) (hflags : sql'.flags = sql.flags)
    (hw : sql.db.WrittenAt (∃ address, · = hexEncode address) names height sql'.db) :
    Keyed B names sql' :=
  fun T => (writtenAt_leafTable hflags hw T).forall_key (fun _ hk => hk) (hkeys T)

theorem upTo_leafTable (hdb : sql.db.UpTo height)
    (hflags : sql.flags.UpTo height) (T : TreeName) : (leafTable B sql T).UpTo height := by
  cases T with
  | app | val | fish | servicer => exact (hdb.actors _).mapRows _
  | account => exact hdb.accounts.mapRows _
  | pool => exact hdb.pools.mapRows _
  | transactions => exact nofun
  | params => exact hdb.params.mapRows _
  | flags => exact hflags.mapRows _

/-- Keys that may stand in a table have different paths, if the names have different hashes. -/
theorem separates_leafPath {names : String → Prop} (hnames : NamesApart B names)
    (hkeys : ∀ row ∈ (leafTable B sql T).rows, LeafKey names T row.key) :
    Separates (leafPath B T) (leafTable B sql T) := by
  intro row hrow row' hrow' p hp hp'
  have hkey := hkeys row hrow
  have hkey' := hkeys row' hrow'
  have hhex : (∃ address, row.key = hexEncode address) → (∃ address, row'.key = hexEncode address) →
      addressPath row.key = some p → addressPath row'.key = some p → row.key = row'.key := by
    rintro ⟨address, haddress⟩ ⟨address', haddress'⟩ h h'
    rw [haddress, addressPath_hexEncode, Option.some.injEq] at h
    rw [haddress', addressPath_hexEncode, Option.some.injEq] at h'
    rw [haddress, haddress', h, h']
  cases T with
  | params => exact hnames _ _ hkey hkey' (Option.some.inj (hp.trans hp'.symm))
  | flags => exact hkey.elim
  | _ => exact hhex hkey hkey' hp hp'

/-! ## What an update sets -/

/-- The leaves of rows that all have one. -/
theorem exists_mapM_leaves {rows : List (Row String ℤ ν)} {leaf : Row String ℤ ν → Option Leaf}
    {value : Row String ℤ ν → Bytes}
    (hleaf : ∀ row ∈ rows, ∃ p, path row.key = some p ∧ leaf row = some (p, value row)) :
    ∃ ls, rows.mapM leaf = some ls ∧
      ∀ p v, (p, v) ∈ ls ↔ ∃ row ∈ rows, path row.key = some p ∧ value row = v := by
  refine ⟨_, StoreProgram.mapM_eq_some_map (g := fun row => ((path row.key).getD [], value row)) fun row hrow => ?_,
    fun p v => ?_⟩
  · obtain ⟨p, hp, hsome⟩ := hleaf row hrow
    rw [hsome, hp]
    rfl
  · rw [List.mem_map]
    refine exists_congr fun row => and_congr_right fun hrow => ?_
    obtain ⟨p', hp', -⟩ := hleaf row hrow
    rw [hp', Option.getD_some, Prod.mk.injEq, Option.some.injEq]

/-- The rows at the height, as the leaves see them. -/
theorem leafAt_mapRows_iff :
    LeafAt path (t.mapRows f) height p v ↔
      ∃ row ∈ updatedAt height t, path row.key = some p ∧ f row = v := by
  constructor
  · rintro ⟨r, hr, hheight, hpath, hvalue⟩
    obtain ⟨row, hrow, rfl⟩ := mem_mapRows.1 hr
    exact ⟨row, List.mem_filter.2 ⟨hrow, decide_eq_true hheight⟩, hpath, hvalue⟩
  · rintro ⟨row, hrow, hpath, hvalue⟩
    obtain ⟨hmem, hheight⟩ := List.mem_filter.1 hrow
    exact ⟨_, mem_mapRows.2 ⟨row, hmem, rfl⟩, of_decide_eq_true hheight, hpath, hvalue⟩

theorem latest_of_mem_updatedAt {row : Row String ℤ ν}
    (hrow : row ∈ updatedAt height t) : t.latest row.key height = some row := by
  obtain ⟨hmem, hheight⟩ := List.mem_filter.1 hrow
  have hheight' : row.height = height := of_decide_eq_true hheight
  refine latest_eq_some_iff.2 ⟨hmem, rfl, hheight'.le, fun _ _ _ hle => ?_⟩
  rw [hheight']
  exact hle

theorem exists_actorLeaves {t : ActorType}
    (hhex : ∀ row ∈ (sql.db.actors t).rows, ∃ address, row.key = hexEncode address) :
    ∃ ls, actorLeaves B sql height t = some ls ∧ ∀ p v, (p, v) ∈ ls ↔
      LeafAt addressPath ((sql.db.actors t).mapRows fun row => B.marshalActor (actorMessage sql t row))
        height p v := by
  simp only [leafAt_mapRows_iff]
  refine exists_mapM_leaves fun row hrow => ?_
  obtain ⟨address, hkey⟩ := hhex row (List.mem_filter.1 hrow).1
  have hpath : addressPath row.key = some address := by rw [hkey, addressPath_hexEncode]
  have hactor : getActor sql height t address = some (actorMessage sql t row) := by
    have hlatest := latest_of_mem_updatedAt hrow
    rw [hkey] at hlatest
    rw [getActor, hlatest]
    rfl
  have hmessage : addressPath (actorMessage sql t row).address = some address := hpath
  refine ⟨address, hpath, ?_⟩
  simp only [hpath, hactor, hmessage, Option.bind_eq_bind, Option.bind_some]
  rfl

theorem exists_rowLeaves {accounts : Table String ℤ ℤ}
    (hhex : ∀ row ∈ accounts.rows, ∃ address, row.key = hexEncode address) :
    ∃ ls, accountLeaves B height accounts = some ls ∧ ∀ p v, (p, v) ∈ ls ↔
      LeafAt addressPath (accounts.mapRows fun row => B.marshalAccount ⟨row.key, toString row.value⟩)
        height p v := by
  simp only [leafAt_mapRows_iff]
  refine exists_mapM_leaves fun row hrow => ?_
  obtain ⟨address, hkey⟩ := hhex row (List.mem_filter.1 hrow).1
  have hpath : addressPath row.key = some address := by rw [hkey, addressPath_hexEncode]
  refine ⟨address, hpath, ?_⟩
  simp only [hpath, Option.bind_eq_bind, Option.bind_some]
  rfl

/-- The rows of names are sorted, which changes no leaf; their height is the one they are read at. -/
theorem mem_nameLeaves_iff (t : Table String ℤ ν) (height : ℤ)
    (value : Row String ℤ ν → ℤ → Bytes) (p v : Bytes) :
    (p, v) ∈ ((updatedByName height t).map fun row => (namePath B row.key, value row height)) ↔
      LeafAt (fun name => some (namePath B name)) (t.mapRows fun row => value row row.height) height
        p v := by
  rw [leafAt_mapRows_iff, List.mem_map]
  refine exists_congr fun row => ?_
  have hmem : row ∈ updatedByName height t ↔ row ∈ updatedAt height t := List.mem_insertionSort _
  rw [hmem]
  refine and_congr_right fun hrow => ?_
  have hheight : row.height = height := of_decide_eq_true (List.mem_filter.1 hrow).2
  rw [Prod.mk.injEq, Option.some.injEq, hheight]

/-- What each tree is updated with. -/
theorem exists_leaves_of_keys {names : String → Prop} {index : TxIndex} (hT : T ≠ .transactions)
    (hkeys : ∀ row ∈ (leafTable B sql T).rows, LeafKey names T row.key) :
    ∃ ls, leaves B sql index height T = some ls ∧
      ∀ p v, (p, v) ∈ ls ↔ LeafAt (leafPath B T) (leafTable B sql T) height p v := by
  have hrows : ∀ {ν : Type} {t : Table String ℤ ν} {f : Row String ℤ ν → Bytes},
      (∀ row ∈ (t.mapRows f).rows, ∃ address, row.key = hexEncode address) →
      ∀ row ∈ t.rows, ∃ address, row.key = hexEncode address :=
    fun h row hrow => h _ (mem_mapRows.2 ⟨row, hrow, rfl⟩)
  cases T with
  | app | val | fish | servicer => exact exists_actorLeaves (hrows hkeys)
  | account | pool => exact exists_rowLeaves (hrows hkeys)
  | transactions => exact absurd rfl hT
  | params =>
    exact ⟨_, rfl, mem_nameLeaves_iff sql.db.params height fun row h =>
      B.marshalParam ⟨row.key, row.value, h⟩⟩
  | flags =>
    exact ⟨_, rfl, mem_nameLeaves_iff sql.flags height fun row h =>
      B.marshalFlag ⟨row.key, row.value.value, h, row.value.enabled⟩⟩

/-! ## Transactions -/

/-- The index holds the transactions, each at a position of its own. -/
structure Indexes (B : Backend) (index : TxIndex) (txs : List IndexedTransaction) : Prop where
  refs : ∀ height i hash, index.refs (.height height i) = some hash ↔
    ∃ idxTx ∈ txs, idxTx.height = height ∧ idxTx.index = i ∧ hexEncode (B.sha3 idxTx.tx) = hash
  byHash : ∀ idxTx ∈ txs, ∃ found, index.byHash (hexEncode (B.sha3 idxTx.tx)) = some found ∧
    found ∈ txs ∧ B.sha3 found.tx = B.sha3 idxTx.tx

theorem indexes_empty : Indexes B .empty [] where
  refs := fun _ _ _ => iff_of_false nofun fun ⟨_, h, _⟩ => by cases h
  byHash := nofun

/-- A transaction at a fresh position joins the others. -/
theorem Indexes.index {index : TxIndex} (h : Indexes B index txs) {idxTx : IndexedTransaction}
    (hfresh : ∀ old ∈ txs, ¬ (old.height = idxTx.height ∧ old.index = idxTx.index)) :
    Indexes B (index.index B.toHost idxTx) (txs ++ [idxTx]) where
  refs := by
    intro height i hash
    rw [refs_index]
    by_cases hslot : height = idxTx.height ∧ i = idxTx.index
    · rw [if_pos hslot, Option.some.injEq]
      constructor
      · intro hhash
        exact ⟨idxTx, List.mem_append_right _ List.mem_cons_self, hslot.1.symm, hslot.2.symm, hhash⟩
      · rintro ⟨found, hfound, hheight, hindex, hhash⟩
        rcases List.mem_append.1 hfound with hold | hnew
        · exact absurd ⟨hheight.trans hslot.1, hindex.trans hslot.2⟩ (hfresh found hold)
        · rw [List.mem_singleton.1 hnew] at hhash
          exact hhash
    · rw [if_neg hslot, h.refs]
      constructor
      · rintro ⟨found, hfound, hrest⟩
        exact ⟨found, List.mem_append_left _ hfound, hrest⟩
      · rintro ⟨found, hfound, hheight, hindex, hhash⟩
        rcases List.mem_append.1 hfound with hold | hnew
        · exact ⟨found, hold, hheight, hindex, hhash⟩
        · rw [List.mem_singleton.1 hnew] at hheight hindex
          exact absurd ⟨hheight.symm, hindex.symm⟩ hslot
  byHash := by
    intro tx htx
    rw [byHash_index]
    by_cases hhash : hexEncode (B.sha3 tx.tx) = hexEncode (B.sha3 idxTx.tx)
    · refine ⟨idxTx, ?_, List.mem_append_right _ List.mem_cons_self, (hexEncode_injective hhash).symm⟩
      rw [hhash, Function.update_self]
    · rw [Function.update_of_ne hhash]
      rcases List.mem_append.1 htx with hold | hnew
      · obtain ⟨found, hfound, hmem, hsame⟩ := h.byHash tx hold
        exact ⟨found, hfound, List.mem_append_left _ hmem, hsame⟩
      · exact absurd (by rw [List.mem_singleton.1 hnew]) hhash

theorem Indexes.sound {index : TxIndex} (h : Indexes B index txs) : IndexSound index := by
  intro height i hash hhash
  obtain ⟨idxTx, hidxTx, -, -, rfl⟩ := (h.refs height i hash).1 hhash
  obtain ⟨found, hfound, -⟩ := h.byHash idxTx hidxTx
  rw [hfound]
  rfl

/-- A leaf for each transaction of the height. -/
def TransactionAt (B : Backend) (txs : List IndexedTransaction) (height : ℤ) (p v : Bytes) : Prop :=
  ∃ idxTx ∈ txs, idxTx.height = height ∧ B.sha3 idxTx.tx = p ∧ idxTx.tx = v

/-- The transactions have different hashes, or are the same. -/
def Collisionless (B : Backend) (txs : List IndexedTransaction) : Prop :=
  ∀ idxTx ∈ txs, ∀ idxTx' ∈ txs, B.sha3 idxTx.tx = B.sha3 idxTx'.tx → idxTx.tx = idxTx'.tx

/-- The position of a transaction. -/
def position (idxTx : IndexedTransaction) : ℤ × ℤ := (idxTx.height, idxTx.index)

/-- Transactions that can be indexed and told apart. -/
structure WellIndexed (B : Backend) (txs : List IndexedTransaction) : Prop where
  positions : ∀ idxTx ∈ txs, 0 ≤ idxTx.index ∧ idxTx.index < positionCount
  fresh : (txs.map position).Nodup
  hashes : Collisionless B txs

theorem WellIndexed.left (h : WellIndexed B (txs ++ new)) :
    WellIndexed B txs where
  positions := fun idxTx hmem => h.positions idxTx (List.mem_append_left _ hmem)
  fresh := (List.nodup_append'.1 (List.map_append ▸ h.fresh)).1
  hashes := fun idxTx hmem idxTx' hmem' =>
    h.hashes idxTx (List.mem_append_left _ hmem) idxTx' (List.mem_append_left _ hmem')

theorem mem_hashKeysAt_iff {index : TxIndex}
    (h : Indexes B index txs) (htxs : WellIndexed B txs) {hash : String} :
    hash ∈ hashKeysAt index height ↔
      ∃ idxTx ∈ txs, idxTx.height = height ∧ hexEncode (B.sha3 idxTx.tx) = hash := by
  rw [hashKeysAt, List.mem_filterMap]
  constructor
  · rintro ⟨i, -, hi⟩
    obtain ⟨idxTx, hidxTx, hheight, -, hhash⟩ := (h.refs height i hash).1 hi
    exact ⟨idxTx, hidxTx, hheight, hhash⟩
  · rintro ⟨idxTx, hidxTx, hheight, hhash⟩
    obtain ⟨hnonneg, hlt⟩ := htxs.positions idxTx hidxTx
    have hposition : ((idxTx.index.toNat : ℕ) : ℤ) = idxTx.index := Int.toNat_of_nonneg hnonneg
    refine ⟨idxTx.index.toNat, List.mem_range.2 (by omega), ?_⟩
    rw [hposition]
    exact (h.refs height idxTx.index hash).2 ⟨idxTx, hidxTx, hheight, rfl, hhash⟩

/-- Reading the transactions of a height gives a transaction for every hash. -/
theorem mem_getByHeight_iff {index : TxIndex} {idxTxs : List IndexedTransaction}
    (h : getByHeight index height = .ok idxTxs) {idxTx : IndexedTransaction} :
    idxTx ∈ idxTxs ↔ ∃ hash ∈ hashKeysAt index height, index.byHash hash = some idxTx := by
  rw [StoreProgram.mem_of_mapM_eq_ok h]
  refine exists_congr fun hash => and_congr_right fun _ => ?_
  cases index.byHash hash with
  | none | some found => simp

theorem exists_transactionLeaves {index : TxIndex}
    (h : Indexes B index txs) (htxs : WellIndexed B txs) (height : ℤ) :
    ∃ ls, transactionLeaves B index height = some ls ∧
      ∀ p v, (p, v) ∈ ls ↔ TransactionAt B txs height p v := by
  obtain ⟨idxTxs, hidxTxs⟩ := exists_getByHeight h.sound height
  refine ⟨idxTxs.map fun idxTx => (B.sha3 idxTx.tx, idxTx.tx), ?_, fun p v => ?_⟩
  · rw [transactionLeaves, hidxTxs]
    rfl
  · rw [List.mem_map]
    constructor
    · rintro ⟨found, hfound, heq⟩
      obtain ⟨hash, hhash, hbyHash⟩ := (mem_getByHeight_iff hidxTxs).1 hfound
      obtain ⟨idxTx, hidxTx, hheight, rfl⟩ := (mem_hashKeysAt_iff h htxs).1 hhash
      obtain ⟨found', hfound', hmem, hsame⟩ := h.byHash idxTx hidxTx
      rw [hbyHash, Option.some.injEq] at hfound'
      rw [← hfound'] at hmem hsame
      have htx : found.tx = idxTx.tx := htxs.hashes found hmem idxTx hidxTx hsame
      rw [htx] at heq
      exact ⟨idxTx, hidxTx, hheight, congrArg Prod.fst heq, congrArg Prod.snd heq⟩
    · rintro ⟨idxTx, hidxTx, hheight, rfl, rfl⟩
      obtain ⟨found, hfound, hmem, hsame⟩ := h.byHash idxTx hidxTx
      have htx : found.tx = idxTx.tx := htxs.hashes found hmem idxTx hidxTx hsame
      refine ⟨found, (mem_getByHeight_iff hidxTxs).2 ⟨_, ?_, hfound⟩, ?_⟩
      · exact (mem_hashKeysAt_iff h htxs).2 ⟨idxTx, hidxTx, hheight, rfl⟩
      · rw [htx]

/-! ## Blocks -/

/-- What is done with the context of a block before its state hash is computed for the last time. -/
inductive BlockCall
  | write (w : Writer)
  | indexTransaction (idxTx : IndexedTransaction)
  | computeStateHash (updateOrder hashOrder : TreeOrder)

/-- The context of a block that is committed. -/
structure BlockContext where
  calls : List BlockCall
  updateOrder : TreeOrder
  hashOrder : TreeOrder
  proposerAddr : Bytes
  quorumCert : Bytes
  now : ℤ × ℤ

namespace BlockCall

def call (height : ℤ) : BlockCall → PersistenceModule.Call
  | write w => .write fun sql => { sql with db := w.apply height sql.db }
  | indexTransaction idxTx => .indexTransaction idxTx
  | computeStateHash updateOrder hashOrder => .computeStateHash updateOrder hashOrder

def names : BlockCall → List String
  | write w => w.names
  | _ => []

def transactions : BlockCall → List IndexedTransaction
  | indexTransaction idxTx => [idxTx]
  | _ => []

end BlockCall

namespace BlockContext

def session (height : ℤ) (b : BlockContext) : PersistenceModule.Session where
  height := height
  calls := b.calls.map (BlockCall.call height) ++ [.computeStateHash b.updateOrder b.hashOrder]
  ending := .commit b.proposerAddr b.quorumCert b.now

/-- Blocks one after another from the height on. -/
def sessions : ℤ → List BlockContext → List PersistenceModule.Session
  | _, [] => []
  | height, b :: bs => b.session height :: sessions (height + 1) bs

/-- The names of parameters that the block writes. -/
def names (b : BlockContext) : List String := b.calls.flatMap BlockCall.names

def transactions (b : BlockContext) : List IndexedTransaction :=
  b.calls.flatMap BlockCall.transactions

end BlockContext

/-- The leaves that an update at the height sets. -/
def Updated (B : Backend) (sql : SqlState) (txs : List IndexedTransaction) (height : ℤ) :
    TreeName → Bytes → Bytes → Prop
  | .transactions => TransactionAt B txs height
  | T => LeafAt (leafPath B T) (leafTable B sql T) height

/-- The leaves of a rebuild, by the tables of leaves. -/
def Current (B : Backend) (sql : SqlState) (txs : List IndexedTransaction) (height : ℤ) :
    TreeName → Bytes → Bytes → Prop
  | .transactions => fun p v => ∃ idxTx ∈ txs, B.sha3 idxTx.tx = p ∧ idxTx.tx = v
  | T => LatestLeaf (leafPath B T) (leafTable B sql T) height

theorem updated_of_ne (hT : T ≠ .transactions) :
    Updated B sql txs height T = LeafAt (leafPath B T) (leafTable B sql T) height := by
  cases T with
  | transactions => exact absurd rfl hT
  | _ => rfl

theorem current_of_ne (hT : T ≠ .transactions) :
    Current B sql txs height T = LatestLeaf (leafPath B T) (leafTable B sql T) height := by
  cases T with
  | transactions => exact absurd rfl hT
  | _ => rfl

/-- The trees of the module are those of a rebuild, and its blocks go up to the height. -/
structure Follows (B : Backend) (names : String → Prop) (txs : List IndexedTransaction) (height : ℤ)
    (m : PersistenceModule) : Prop where
  closed : m.writeContext = none
  upTo : m.sql.db.UpTo height
  flags : m.sql.flags = .empty
  keys : ∀ T, ∀ row ∈ (leafTable B m.sql T).rows, LeafKey names T row.key
  index : Indexes B m.index txs
  blocks : ∀ H, H ∈ m.blocks.map Prod.fst ↔ 0 ≤ H ∧ H ≤ height
  trees : ∀ T, (m.trees.merkleTrees T).Holds (Current B m.sql txs height T)

/-- A context at the height is open since `m₀`, with the rows `sql` so far.  Trees have changed
where something was written or indexed at the height. -/
structure Opened (B : Backend) (names : String → Prop) (m₀ : PersistenceModule) (height : ℤ)
    (txs : List IndexedTransaction) (sql : SqlState) (m : PersistenceModule) : Prop where
  context : ∃ stateHash, m.writeContext = some ⟨height, sql, stateHash⟩
  flags : sql.flags = m₀.sql.flags
  written : m₀.sql.db.WrittenAt (∃ address, · = hexEncode address) names height sql.db
  index : Indexes B m.index txs
  blocks : m.blocks = m₀.blocks
  trees : ∀ T p, (∀ v, ¬ Updated B sql txs height T p v) →
    (m.trees.merkleTrees T).lookup p = (m₀.trees.merkleTrees T).lookup p

section Steps

variable {names : String → Prop} {all txs : List IndexedTransaction} {m₀ m : PersistenceModule}
  {height height₀ : ℤ} {sql : SqlState}

section

variable (h : Opened B names m₀ height txs sql m)
include h

/-- What the update of an open context sets. -/
theorem Opened.exists_leaves (hkeys : Keyed B names m₀.sql) (htxs : WellIndexed B txs)
    (T : TreeName) :
    ∃ ls, leaves B sql m.index height T = some ls ∧
      ∀ p v, (p, v) ∈ ls ↔ Updated B sql txs height T p v := by
  by_cases hT : T = .transactions
  · rw [hT]
    exact exists_transactionLeaves h.index htxs height
  · rw [updated_of_ne hT]
    exact exists_leaves_of_keys hT (hkeys.written h.flags h.written T)

/-- An update of an open context sets its leaves in every tree. -/
theorem Opened.exists_compute (hkeys : Keyed B names m₀.sql) (htxs : WellIndexed B txs)
    (o₁ o₂ : TreeOrder) :
    ∃ m', m.call B (.computeStateHash o₁ o₂) = some m' ∧ Opened B names m₀ height txs sql m' ∧
      ∀ T, ∃ ls, (∀ p v, (p, v) ∈ ls ↔ Updated B sql txs height T p v) ∧
        m'.trees.merkleTrees T = LeafMap.setAll (m.trees.merkleTrees T) ls := by
  have hleaves := h.exists_leaves hkeys htxs
  obtain ⟨stateHash, hcontext⟩ := h.context
  obtain ⟨hash, ts, hupdate⟩ := TreeStore.exists_update
    (fun T => (hleaves T).imp fun _ hls => hls.1) m.trees o₁ o₂
  have hcompute : m.computeStateHash B o₁ o₂ = some (hash, { m with
      trees := ts, writeContext := some ⟨height, sql, hash⟩ }) :=
    computeStateHash_eq_some_iff.2 ⟨_, ts, hcontext, hupdate, rfl⟩
  have htrees : ∀ T, ∃ ls, (∀ p v, (p, v) ∈ ls ↔ Updated B sql txs height T p v) ∧
      ts.merkleTrees T = LeafMap.setAll (m.trees.merkleTrees T) ls := by
    intro T
    have heach := TreeStore.updateEach_of_update hupdate
    obtain ⟨ls, hls, hset⟩ := ((LeafMap.updateEach_eq_some_iff _ o₁.nodup).1 heach).1 T (o₁.mem T)
    obtain ⟨ls', hls', hiff⟩ := hleaves T
    cases hls.symm.trans hls'
    exact ⟨ls, hiff, hset⟩
  refine ⟨_, congrArg (Option.map Prod.snd) hcompute, ⟨⟨hash, rfl⟩, h.flags, h.written, h.index,
    h.blocks, fun T p hp => ?_⟩, htrees⟩
  obtain ⟨ls, hls, hset⟩ := htrees T
  refine Eq.trans ?_ (h.trees T p hp)
  rw [hset, LeafMap.lookup_setAll_of_not_mem]
  intro hmem
  obtain ⟨leaf, hleaf, rfl⟩ := List.mem_map.1 hmem
  exact hp leaf.2 ((hls leaf.1 leaf.2).1 hleaf)

theorem Opened.write {w : Writer} (hw : ∀ name ∈ w.names, names name) :
    ∃ m', m.call B ((BlockCall.write w).call height) = some m' ∧
      Opened B names m₀ height txs { sql with db := w.apply height sql.db } m' := by
  obtain ⟨stateHash, hcontext⟩ := h.context
  have hdb : sql.db.WrittenAt (∃ address, · = hexEncode address) names height
      (w.apply height sql.db) := (w.writtenAt_apply sql.db).mono_names hw
  refine ⟨_, rfl, ⟨stateHash, ?_⟩, h.flags, h.written.trans hdb, h.index, h.blocks,
    fun T p hp => h.trees T p fun v hv => ?_⟩
  · rw [hcontext]
    rfl
  -- a leaf of the rows so far is one of the rows after the write, with another value at most
  · by_cases hT : T = .transactions
    · rw [hT] at hv hp
      exact hp v hv
    · rw [updated_of_ne hT] at hv
      simp only [updated_of_ne hT] at hp
      have hleaves := @writtenAt_leafTable B sql { sql with db := w.apply height sql.db } height names
        rfl hdb T
      obtain ⟨v', hv'⟩ := exists_leafAt_of_writtenAt hleaves hv
      exact hp v' hv'

theorem Opened.indexTransaction {idxTx : IndexedTransaction}
    (hfresh : position idxTx ∉ txs.map position) :
    ∃ m', m.call B ((BlockCall.indexTransaction idxTx).call height) = some m' ∧
      Opened B names m₀ height (txs ++ [idxTx]) sql m' := by
  have hindex : Indexes B (m.index.index B.toHost idxTx) (txs ++ [idxTx]) := by
    refine h.index.index fun old hold hsame => hfresh (List.mem_map.2 ⟨old, hold, ?_⟩)
    exact Prod.ext hsame.1 hsame.2
  refine ⟨_, rfl, h.context, h.flags, h.written, hindex, h.blocks,
    fun T p hp => h.trees T p fun v hv => ?_⟩
  by_cases hT : T = .transactions
  · rw [hT] at hv hp
    obtain ⟨old, hold, hrest⟩ := hv
    exact hp v ⟨old, List.mem_append_left _ hold, hrest⟩
  · rw [updated_of_ne hT] at hv
    simp only [updated_of_ne hT] at hp
    exact hp v hv

/-- The calls of a block one after another. -/
theorem Opened.exists_calls {cs : List BlockCall} (hkeys : Keyed B names m₀.sql)
    (hnames : ∀ c ∈ cs, ∀ name ∈ c.names, names name)
    (htxs : WellIndexed B (txs ++ cs.flatMap BlockCall.transactions)) :
    ∃ m' sql', m.calls B (cs.map (BlockCall.call height)) = some m' ∧
      Opened B names m₀ height (txs ++ cs.flatMap BlockCall.transactions) sql' m' := by
  induction cs generalizing txs sql m with
  | nil =>
    rw [List.flatMap_nil, List.append_nil]
    exact ⟨m, sql, rfl, h⟩
  | cons c cs ih =>
    rw [List.forall_mem_cons] at hnames
    rw [List.flatMap_cons, ← List.append_assoc] at htxs
    have hstep : ∃ m₁ sql₁, m.call B (c.call height) = some m₁ ∧
        Opened B names m₀ height (txs ++ c.transactions) sql₁ m₁ := by
      cases c with
      | write w =>
        have hnone : (BlockCall.write w).transactions = [] := rfl
        obtain ⟨m₁, hcall, h₁⟩ := h.write hnames.1
        rw [hnone, List.append_nil]
        exact ⟨m₁, _, hcall, h₁⟩
      | indexTransaction idxTx =>
        have hnew : position idxTx ∉ txs.map position := by
          have hdisjoint := htxs.left.fresh
          rw [List.map_append, List.nodup_append'] at hdisjoint
          exact fun hmem => hdisjoint.2.2 hmem (List.mem_map_of_mem List.mem_cons_self)
        obtain ⟨m₁, hcall, h₁⟩ := h.indexTransaction hnew
        exact ⟨m₁, sql, hcall, h₁⟩
      | computeStateHash o₁ o₂ =>
        have hnone : (BlockCall.computeStateHash o₁ o₂).transactions = [] := rfl
        obtain ⟨m₁, hcall, h₁, -⟩ := h.exists_compute hkeys htxs.left.left o₁ o₂
        rw [hnone, List.append_nil]
        exact ⟨m₁, sql, hcall, h₁⟩
    obtain ⟨m₁, sql₁, hcall, h₁⟩ := hstep
    obtain ⟨m', sql', hcalls, h'⟩ := ih h₁ hnames.2 htxs
    refine ⟨m', sql', ?_, ?_⟩
    · rw [List.map_cons, calls, hcall]
      exact hcalls
    · rw [List.flatMap_cons, ← List.append_assoc]
      exact h'

end

theorem calls_append (m : PersistenceModule) (cs cs' : List PersistenceModule.Call) :
    m.calls B (cs ++ cs') = (m.calls B cs).bind fun m => m.calls B cs' := by
  induction cs generalizing m with
  | nil => rfl
  | cons c cs ih =>
    rw [List.cons_append, calls, calls, Option.bind_assoc]
    congr 1
    funext m₁
    exact ih m₁

/-- The last update makes the trees those of a rebuild. -/
theorem Opened.holds_current {m' : PersistenceModule} (h₀ : Follows B names txs height₀ m₀)
    (hlt : height₀ < height) (h : Opened B names m₀ height (txs ++ new) sql m)
    (hnames : NamesApart B names) (hnew : ∀ idxTx ∈ new, idxTx.height = height)
    (htxs : WellIndexed B (txs ++ new))
    (htrees : ∀ T, ∃ ls, (∀ p v, (p, v) ∈ ls ↔ Updated B sql (txs ++ new) height T p v) ∧
      m'.trees.merkleTrees T = LeafMap.setAll (m.trees.merkleTrees T) ls) (T : TreeName) :
    (m'.trees.merkleTrees T).Holds (Current B sql (txs ++ new) height T) := by
  obtain ⟨ls, hls, hset⟩ := htrees T
  rw [hset]
  by_cases hT : T = .transactions
  · rw [hT] at hls ⊢
    have hunset : ∀ p, p ∉ ls.map Prod.fst → ∀ v, ¬ TransactionAt B (txs ++ new) height p v :=
      fun p hp v hv => hp (List.mem_map.2 ⟨(p, v), (hls p v).2 hv, rfl⟩)
    refine (h₀.trees .transactions).setAll (fun p hp => ?_) (fun p v hp => ?_) ?_ ?_
    · exact h.trees .transactions p (hunset p hp)
    · constructor
      · rintro ⟨idxTx, hmem, hrest⟩
        rcases List.mem_append.1 hmem with hold | hmem'
        · exact ⟨idxTx, hold, hrest⟩
        · exact absurd ⟨idxTx, hmem, hnew idxTx hmem', hrest⟩ (hunset p hp v)
      · rintro ⟨idxTx, hmem, hrest⟩
        exact ⟨idxTx, List.mem_append_left _ hmem, hrest⟩
    · intro leaf hleaf
      obtain ⟨idxTx, hmem, -, hrest⟩ := (hls leaf.1 leaf.2).1 hleaf
      exact ⟨idxTx, hmem, hrest⟩
    · rintro p v v' ⟨idxTx, hmem, hp, rfl⟩ ⟨idxTx', hmem', hp', rfl⟩
      exact htxs.hashes idxTx hmem idxTx' hmem' (hp.trans hp'.symm)
  · have hwritten := writtenAt_leafTable (B := B) h.flags h.written T
    have hupTo : (leafTable B m₀.sql T).UpTo height₀ := by
      refine upTo_leafTable h₀.upTo ?_ T
      rw [h₀.flags]
      exact nofun
    have hpaths := separates_leafPath hnames (Keyed.written h₀.keys h.flags h.written T)
    have hold := h₀.trees T
    rw [current_of_ne hT] at hold ⊢
    rw [updated_of_ne hT] at hls
    refine holds_latestLeaf hold hwritten hupTo hlt hpaths hls fun p hp => h.trees T p ?_
    rw [updated_of_ne hT]
    exact hp

/-- One block keeps the trees those of a rebuild. -/
theorem Follows.exists_session (h₀ : Follows B names txs height₀ m₀) (hheight : -1 ≤ height₀)
    (hnames : NamesApart B names) {b : BlockContext} (hwritten : ∀ name ∈ b.names, names name)
    (hnew : ∀ idxTx ∈ b.transactions, idxTx.height = height₀ + 1)
    (htxs : WellIndexed B (txs ++ b.transactions)) :
    ∃ m', m₀.session B (b.session (height₀ + 1)) = some m' ∧
      Follows B names (txs ++ b.transactions) (height₀ + 1) m' := by
  let opened : PersistenceModule := { m₀ with writeContext := some ⟨height₀ + 1, m₀.sql, ""⟩ }
  have hopened : Opened B names m₀ (height₀ + 1) txs m₀.sql opened :=
    ⟨⟨"", rfl⟩, rfl, .refl _ _ _ _, h₀.index, rfl, fun _ _ _ => rfl⟩
  have hcalls : ∀ c ∈ b.calls, ∀ name ∈ c.names, names name :=
    fun c hc name hname => hwritten name (List.mem_flatMap.2 ⟨c, hc, hname⟩)
  obtain ⟨m₁, sql, hrun, h₁⟩ := hopened.exists_calls h₀.keys hcalls htxs
  obtain ⟨m₂, hcompute, h₂, htrees⟩ :=
    h₁.exists_compute h₀.keys htxs b.updateOrder b.hashOrder
  have hholds := h₁.holds_current h₀ (lt_add_one height₀) hnames hnew htxs htrees
  obtain ⟨stateHash, hcontext⟩ := h₂.context
  have hprevious : height₀ + 1 = 0 ∨ height₀ + 1 - 1 ∈ m₂.blocks.map Prod.fst := by
    rw [h₂.blocks, h₀.blocks]
    omega
  have hfree : height₀ + 1 ∉ m₂.blocks.map Prod.fst := by
    rw [h₂.blocks, h₀.blocks]
    omega
  obtain ⟨block, -, -, -, hcommit⟩ := exists_commit (B := B) hcontext h₂.index.sound
    hprevious hfree b.proposerAddr b.quorumCert b.now
  have hkeys : Keyed B names sql := Keyed.written h₀.keys h₂.flags h₂.written
  refine ⟨_, (session_eq_some_iff h₀.closed).2 ⟨m₂, ?_,
    finish_commit_eq_some_iff.2 hcommit⟩, ⟨rfl, ?_, h₂.flags.trans h₀.flags, hkeys,
      h₂.index, fun H => ?_, hholds⟩⟩
  · have hlast : m₁.calls B [.computeStateHash b.updateOrder b.hashOrder] = some m₂ := by
      rw [calls, hcompute]
      rfl
    exact (calls_append opened _ _).trans ((congrArg (Option.bind · _) hrun).trans hlast)
  · exact h₂.written.upTo (h₀.upTo.mono (lt_add_one height₀).le)
  · rw [h₂.blocks, List.map_append, List.mem_append, h₀.blocks]
    simp only [List.map_cons, List.map_nil, List.mem_singleton]
    omega

end Steps

/-! ## Histories -/

/-- Every block indexes its transactions at its own height. -/
def IndexedInPlace : ℤ → List BlockContext → Prop
  | _, [] => True
  | height, b :: bs =>
    (∀ idxTx ∈ b.transactions, idxTx.height = height) ∧ IndexedInPlace (height + 1) bs

theorem Follows.exists_sessions {names : String → Prop}
    (hnames : NamesApart B names) {bs : List BlockContext}
    {m : PersistenceModule} (h : Follows B names txs height m) (hheight : -1 ≤ height)
    (hwritten : ∀ b ∈ bs, ∀ name ∈ b.names, names name) (hplace : IndexedInPlace (height + 1) bs)
    (htxs : WellIndexed B (txs ++ bs.flatMap BlockContext.transactions)) :
    ∃ m', m.sessions B (BlockContext.sessions (height + 1) bs) = some m' ∧
      Follows B names (txs ++ bs.flatMap BlockContext.transactions) (height + bs.length) m' := by
  induction bs generalizing txs height m with
  | nil =>
    rw [List.flatMap_nil, List.append_nil, List.length_nil, Nat.cast_zero, add_zero]
    exact ⟨m, rfl, h⟩
  | cons b bs ih =>
    rw [List.forall_mem_cons] at hwritten
    rw [List.flatMap_cons, ← List.append_assoc] at htxs
    obtain ⟨m₁, hsession, h₁⟩ := h.exists_session hheight hnames hwritten.1 hplace.1 htxs.left
    obtain ⟨m', hsessions, h'⟩ := ih h₁ (by omega) hwritten.2 hplace.2 htxs
    refine ⟨m', ?_, ?_⟩
    · rw [BlockContext.sessions, sessions, hsession]
      exact hsessions
    · have hlength : height + 1 + (bs.length : ℤ) = height + ((b :: bs).length : ℤ) := by
        rw [List.length_cons]
        omega
      rw [List.flatMap_cons, ← List.append_assoc, ← hlength]
      exact h'

theorem follows_blank (names : String → Prop) : Follows B names [] (-1) blank := by
  have hnone : ∀ {ν : Type}, (empty : Table String ℤ ν).UpTo (-1) := nofun
  have hrows : ∀ T, (leafTable B blank.sql T).rows = [] := by
    intro T
    cases T <;> rfl
  refine ⟨rfl, ⟨hnone, hnone, hnone, fun _ => hnone⟩, rfl, ?_, indexes_empty, ?_, ?_⟩
  · intro T row hrow
    rw [hrows] at hrow
    cases hrow
  · intro H
    refine iff_of_false nofun fun h => ?_
    omega
  · intro T p v
    refine iff_of_false ?_ fun hcurrent => ?_
    · rw [show (blank.trees.merkleTrees T).lookup p = none from
        Finmap.lookup_empty p]
      exact nofun
    · by_cases hT : T = .transactions
      · rw [hT] at hcurrent
        obtain ⟨_, hmem, _⟩ := hcurrent
        cases hmem
      · rw [current_of_ne hT] at hcurrent
        obtain ⟨row, hlatest, -⟩ := hcurrent
        have hmem := (latest_eq_some_iff.1 hlatest).1
        rw [hrows] at hmem
        cases hmem

theorem latestLeaf_address_iff
    (hhex : ∀ row ∈ (t.mapRows f).rows, ∃ address, row.key = hexEncode address) :
    LatestLeaf addressPath (t.mapRows f) height p v ↔
      ∃ row, t.latest (hexEncode p) height = some row ∧ f row = v := by
  constructor
  · rintro ⟨r, hlatest, hpath, hvalue⟩
    obtain ⟨address, haddress⟩ := hhex r (latest_eq_some_iff.1 hlatest).1
    obtain ⟨row, hrow, rfl⟩ := latest_mapRows.1 hlatest
    rw [haddress, addressPath_hexEncode, Option.some.injEq] at hpath
    rw [haddress, hpath] at hrow
    exact ⟨row, hrow, hvalue⟩
  · rintro ⟨row, hrow, hvalue⟩
    have hkey : row.key = hexEncode p := (latest_eq_some_iff.1 hrow).2.1
    refine ⟨⟨row.key, row.height, f row⟩, latest_mapRows.2 ⟨row, ?_, rfl⟩, ?_, hvalue⟩
    · exact hkey ▸ hrow
    · exact hkey ▸ addressPath_hexEncode p

theorem latestLeaf_name_iff :
    LatestLeaf (fun name => some (namePath B name)) (t.mapRows f) height p v ↔
      ∃ name row, namePath B name = p ∧ t.latest name height = some row ∧ f row = v := by
  constructor
  · rintro ⟨r, hlatest, hpath, hvalue⟩
    obtain ⟨row, hrow, rfl⟩ := latest_mapRows.1 hlatest
    exact ⟨row.key, row, Option.some.inj hpath, hrow, hvalue⟩
  · rintro ⟨name, row, hpath, hrow, hvalue⟩
    have hkey : row.key = name := (latest_eq_some_iff.1 hrow).2.1
    refine ⟨⟨row.key, row.height, f row⟩, latest_mapRows.2 ⟨row, ?_, rfl⟩, ?_, hvalue⟩
    · exact hkey ▸ hrow
    · simp only [hkey, hpath]

theorem rebuilt_iff_current {names : String → Prop}
    (hkeys : ∀ row ∈ (leafTable B sql T).rows, LeafKey names T row.key) (p v : Bytes) :
    Rebuilt B sql txs height T p v ↔ Current B sql txs height T p v := by
  have hactor : ∀ t, (∀ row ∈ ((sql.db.actors t).mapRows fun row =>
        B.marshalActor (actorMessage sql t row)).rows, ∃ address, row.key = hexEncode address) →
      ((∃ actor, getActor sql height t p = some actor ∧ B.marshalActor actor = v) ↔
        LatestLeaf addressPath ((sql.db.actors t).mapRows fun row =>
          B.marshalActor (actorMessage sql t row)) height p v) := by
    intro t hhex
    rw [latestLeaf_address_iff hhex]
    constructor
    · rintro ⟨actor, hactor, hvalue⟩
      obtain ⟨row, hrow, rfl⟩ := Option.map_eq_some_iff.1 hactor
      exact ⟨row, hrow, hvalue⟩
    · rintro ⟨row, hrow, hvalue⟩
      exact ⟨_, Option.map_eq_some_iff.2 ⟨row, hrow, rfl⟩, hvalue⟩
  cases T with
  | app | val | fish | servicer => exact hactor _ hkeys
  | account | pool => exact (latestLeaf_address_iff hkeys).symm
  | transactions => exact Iff.rfl
  | params | flags => exact latestLeaf_name_iff.symm

/-- Two blocks: the first pays an account, sets a parameter and indexes a transaction, with a hash
computed in between; the second pays the account again. -/
def twoBlocks : List BlockContext :=
  [⟨[.write (.accountAmount .add [1] "5"),
      .computeStateHash treeOrder treeOrder,
      .write (.setParam "blocks_per_session" (.smallInt 4)),
      .indexTransaction ⟨[7], 0, 0, 0, "", "", "", ""⟩],
      treeOrder, treeOrder, [], [], (0, 0)⟩,
    ⟨[.write (.accountAmount .add [1] "6")], treeOrder, treeOrder,
      [], [], (0, 0)⟩]

end Pocket.Persistence
