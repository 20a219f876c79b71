import Pocket.Analysis.ActorTables
import Pocket.Persistence.Writers

/-!
# Writes at the height of their context

Whatever a statement does, it does to rows at the height of its context: rows at other heights
stay, and a row at its height is replaced but never taken away (`writtenAt_apply`).  Rows of
chains are the exception, they can be deleted, but again only at that height.
-/

set_option autoImplicit false

namespace Pocket.Utility

open VersionedTable

variable {addresses names : String → Prop} {height : ℤ} {db db' db'' : Database}
  {table : Table String ℤ ActorRow} {t : ActorType}

/-- Rows were written at the height only, and under the keys given or keys that were there. -/
structure Database.WrittenAt (addresses names : String → Prop) (height : ℤ) (db db' : Database) :
    Prop where
  accounts : Table.WrittenAt addresses height db.accounts db'.accounts
  pools : Table.WrittenAt addresses height db.pools db'.pools
  params : Table.WrittenAt names height db.params db'.params
  actors : ∀ t, Table.WrittenAt addresses height (db.actors t) (db'.actors t)
  chains : ∀ t, (db'.chains t).filter (fun row => row.height ≠ height)
    = (db.chains t).filter fun row => row.height ≠ height

namespace Database

theorem WrittenAt.refl (addresses names : String → Prop) (height : ℤ) (db : Database) :
    WrittenAt addresses names height db db where
  accounts := .refl _ _ _
  pools := .refl _ _ _
  params := .refl _ _ _
  actors := fun _ => .refl _ _ _
  chains := fun _ => rfl

theorem WrittenAt.trans (h : WrittenAt addresses names height db db')
    (h' : WrittenAt addresses names height db' db'') :
    WrittenAt addresses names height db db'' where
  accounts := h.accounts.trans h'.accounts
  pools := h.pools.trans h'.pools
  params := h.params.trans h'.params
  actors := fun t => (h.actors t).trans (h'.actors t)
  chains := fun t => (h'.chains t).trans (h.chains t)

theorem WrittenAt.mono_names {names' : String → Prop} (h : WrittenAt addresses names height db db')
    (hnames : ∀ name, names name → names' name) : WrittenAt addresses names' height db db' where
  accounts := h.accounts
  pools := h.pools
  params := h.params.mono hnames
  actors := h.actors
  chains := h.chains

/-- Nothing is written above the height. -/
structure UpTo (db : Database) (height : ℤ) : Prop where
  accounts : db.accounts.UpTo height
  pools : db.pools.UpTo height
  params : db.params.UpTo height
  actors : db.ActorsUpTo height

theorem UpTo.mono {height' : ℤ} (h : db.UpTo height) (hle : height ≤ height') : db.UpTo height' where
  accounts := h.accounts.mono hle
  pools := h.pools.mono hle
  params := h.params.mono hle
  actors := fun t => (h.actors t).mono hle

theorem WrittenAt.upTo (h : WrittenAt addresses names height db db') (hdb : db.UpTo height) :
    db'.UpTo height where
  accounts := h.accounts.upTo hdb.accounts
  pools := h.pools.upTo hdb.pools
  params := h.params.upTo hdb.params
  actors := fun t => (h.actors t).upTo (hdb.actors t)

end Database

/-! ## Statements -/

theorem writtenAt_setActors (h : Table.WrittenAt addresses height (db.actors t) table) :
    db.WrittenAt addresses names height (db.setActors t table) := by
  refine ⟨.refl _ _ _, .refl _ _ _, .refl _ _ _, fun t' => ?_, fun _ => rfl⟩
  by_cases ht : t' = t
  · rw [ht, actors_setActors_self]
    exact h
  · rw [actors_setActors_ne db _ ht]
    exact .refl _ _ _

theorem writtenAt_insertChains (t : ActorType) (address : String) (chains : List String) :
    db.WrittenAt addresses names height (db.insertChains height t address chains) := by
  refine ⟨.refl _ _ _, .refl _ _ _, .refl _ _ _, fun _ => .refl _ _ _, fun t' => ?_⟩
  simp only [Database.insertChains]
  by_cases ht : t' = t
  · rw [ht, Function.update_self, filter_foldl_insertChain fun chain => by simp]
  · rw [Function.update_of_ne ht]

theorem writtenAt_nullifyChains (t : ActorType) (address : String) :
    db.WrittenAt addresses names height (apply height db (.nullifyChains t address)) := by
  refine ⟨.refl _ _ _, .refl _ _ _, .refl _ _ _, fun _ => .refl _ _ _, fun t' => ?_⟩
  simp only [apply]
  by_cases ht : t' = t
  · rw [ht, Function.update_self, List.filter_filter]
    refine List.filter_congr fun row _ => ?_
    by_cases hrow : row.height = height
    · simp [hrow]
    · simp [hrow]
  · rw [Function.update_of_ne ht]

theorem writtenAt_insertActor {address : String} (haddress : addresses address) (row : ActorRow)
    (chains : List String) :
    db.WrittenAt addresses names height (db.insertActor height t address row chains) := by
  rw [Database.insertActor]
  have hrow : ∀ inserted, db.WrittenAt addresses names height
      (db.setActors t ((db.actors t).upsert address height inserted)) :=
    fun inserted => writtenAt_setActors (Table.writtenAt_upsert (.inl haddress) inserted)
  split
  · exact hrow _
  · exact (hrow _).trans (writtenAt_insertChains t address chains)

theorem exists_row_of_lookup {ν : Type} {table : Table String ℤ ν} {address : String} {value : ν}
    (h : table.lookup address height = some value) : ∃ row ∈ table.rows, row.key = address := by
  obtain ⟨row, hlatest, -⟩ := Option.map_eq_some_iff.1 h
  obtain ⟨hrow, hkey, -⟩ := Table.latest_eq_some_iff.1 hlatest
  exact ⟨row, hrow, hkey⟩

theorem writtenAt_updateRow (t : ActorType) (address : String) (change : ActorRow → ActorRow) :
    db.WrittenAt addresses names height (db.updateRow height t address change) := by
  rw [Database.updateRow]
  cases hrow : (db.actors t).lookup address height with
  | none => exact .refl _ _ _ _
  | some row =>
    exact writtenAt_setActors (Table.writtenAt_upsert (.inr (exists_row_of_lookup hrow)) _)

theorem writtenAt_foldl_unstake {rows : List (Row String ℤ ActorRow)} (u : ℤ)
    (hrows : ∀ row ∈ rows, ∃ r ∈ table.rows, r.key = row.key) :
    Table.WrittenAt addresses height table (rows.foldl (fun table row =>
      let base := (table.written row.key height).getD row.value
      table.upsert row.key height { base with unstakingHeight := u }) table) := by
  induction rows generalizing table with
  | nil => exact .refl _ _ _
  | cons row rows ih =>
    rw [List.forall_mem_cons] at hrows
    have hfirst := Table.writtenAt_upsert (K := addresses) (h := height) (t := table) (.inr hrows.1)
      { (table.written row.key height).getD row.value with unstakingHeight := u }
    refine hfirst.trans (ih fun row' hrow' => ?_)
    obtain ⟨r, hr, hkey⟩ := hrows.2 row' hrow'
    obtain ⟨r', hr', hslot⟩ := hfirst.slots r hr
    exact ⟨r', hr', (congrArg Prod.fst hslot).trans hkey⟩

theorem writtenAt_unstakePausedBefore (t : ActorType) (pausedBeforeHeight unstakingHeight : ℤ) :
    db.WrittenAt addresses names height
      (db.unstakePausedBefore height t pausedBeforeHeight unstakingHeight) := by
  rw [Database.unstakePausedBefore]
  refine writtenAt_setActors (writtenAt_foldl_unstake _ fun row hrow => ?_)
  exact ⟨row, (List.mem_filter.1 hrow).1, rfl⟩

/-- The keys that an update may bring into the tables. -/
def Update.Within (addresses names : String → Prop) : Update → Prop
  | .setAccount address _ | .addAccount address _ => addresses address
  | .setPool address _ | .addPool address _ | .subPool address _ => addresses address
  | .setParam name _ => names name
  | .insertActor _ address _ _ => addresses address
  | _ => True

/-- **An update writes at its height.** -/
theorem writtenAt_apply {w : Update} (hw : w.Within addresses names) (db : Database) :
    db.WrittenAt addresses names height (apply height db w) := by
  cases w with
  | setAccount address amount | addAccount address amount =>
    have haddress : addresses address := hw
    exact ⟨Table.writtenAt_upsert (.inl haddress) _, .refl _ _ _, .refl _ _ _, fun _ => .refl _ _ _,
      fun _ => rfl⟩
  | setPool address amount | addPool address amount | subPool address amount =>
    have haddress : addresses address := hw
    exact ⟨.refl _ _ _, Table.writtenAt_upsert (.inl haddress) _, .refl _ _ _, fun _ => .refl _ _ _,
      fun _ => rfl⟩
  | setParam name value =>
    have hname : names name := hw
    exact ⟨.refl _ _ _, .refl _ _ _, Table.writtenAt_upsert (.inl hname) _, fun _ => .refl _ _ _,
      fun _ => rfl⟩
  | insertActor t address row chains => exact writtenAt_insertActor hw row chains
  | updateActor t address stakedTokens serviceUrl => exact writtenAt_updateRow t address _
  | nullifyChains t address => exact writtenAt_nullifyChains t address
  | insertChains t address chains => exact writtenAt_insertChains t address chains
  | setStakeAmount t address stakedTokens | setUnstakingHeight t address unstakingHeight
  | setPausedHeight t address pausedHeight => exact writtenAt_updateRow t address _
  | unstakePausedBefore t before unstakingHeight =>
    exact writtenAt_unstakePausedBefore t before unstakingHeight

theorem writtenAt_foldl {ws : List Update} (hws : ∀ w ∈ ws, w.Within addresses names)
    (db : Database) : db.WrittenAt addresses names height (ws.foldl (apply height) db) := by
  induction ws generalizing db with
  | nil => exact .refl _ _ _ _
  | cons w ws ih =>
    rw [List.forall_mem_cons] at hws
    exact (writtenAt_apply hws.1 db).trans (ih hws.2 _)

end Pocket.Utility

namespace Pocket.Persistence

open Utility (Database Update)
open Text (hexEncode)

variable {height : ℤ}

/-- The names that a call may bring into the table of parameters. -/
def Writer.names : Writer → List String
  | .setParam paramName _ => [paramName]
  | _ => []

theorem within_operationAmount {addresses names : String → Prop} {update : ℤ → Update}
    (h : ∀ n, (update n).Within addresses names) (amount : String) :
    ∀ w ∈ operationAmount update amount, w.Within addresses names := by
  intro w hw
  rw [operationAmount] at hw
  split at hw
  · rw [List.mem_singleton.1 hw]
    exact h _
  · cases hw

/-- A call writes under hexadecimal addresses and the name it is given. -/
theorem Writer.within_updates (w : Writer) :
    ∀ update ∈ w.updates, update.Within (∃ address, · = hexEncode address) (· ∈ w.names) := by
  cases w with
  | accountAmount op address amount | poolAmount op address amount =>
    refine within_operationAmount (fun n => ?_) amount
    cases op <;> exact ⟨address, rfl⟩
  | setParam paramName value => exact List.forall_mem_singleton.2 List.mem_cons_self
  | insertActor t address publicKey output stakedTokens serviceUrl chains paused unstaking =>
    exact List.forall_mem_singleton.2 ⟨address, rfl⟩
  | updateActor t address stakedAmount serviceUrl chains =>
    intro update hupdate
    rw [Writer.updates] at hupdate
    split at hupdate
    · rw [List.mem_singleton.1 hupdate]
      trivial
    · simp only [List.mem_cons, List.not_mem_nil, or_false] at hupdate
      rcases hupdate with rfl | rfl | rfl <;> trivial
  | setActorPauseHeight t address pauseHeight
  | setActorUnstakingHeightAndStatus t address unstakingHeight
  | setActorStakeAmount t address stakeAmount
  | setActorStatusAndUnstakingHeightIfPausedBefore t before unstakingHeight =>
    exact List.forall_mem_singleton.2 trivial

/-- **A call writes at the height of its context.** -/
theorem Writer.writtenAt_apply (w : Writer) (db : Database) :
    db.WrittenAt (∃ address, · = hexEncode address) (· ∈ w.names) height (w.apply height db) :=
  Utility.writtenAt_foldl w.within_updates db

end Pocket.Persistence
