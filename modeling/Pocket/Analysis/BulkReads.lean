import Pocket.Analysis.SessionWindow
import Pocket.Analysis.VersionedReads

/-!
# All actors and one actor

`GetAllApps`, `GetAllServicers` and `GetAllFishermen` select the newest row of every actor and then ask for the
chains of each.  Each actor that has a row is in the list once, with the columns that `GetActor` reads.  The
chains are asked for at the height of the row that came last, not at the height that was asked about, so the
chains are those of `GetActor` exactly when, for every actor, the row it has at that height has the chains
of its newest row (`bulk_agrees_iff`).  An actor whose first row is above it comes without chains
(`newer_servicer_without_chains`).
-/

set_option autoImplicit false

namespace Pocket.Persistence

open Model (Bytes)
open Utility (ActorType sessionHost)
open VersionedTable
open Text (hexEncode)

/-- Equal in every field, the chains as sets. -/
structure ActorMessage.SameUpToOrder (actor actor' : ActorMessage) : Prop where
  fields : { actor with chains := [] } = { actor' with chains := [] }
  chains : ∀ chain, chain ∈ actor.chains ↔ chain ∈ actor'.chains

namespace PostgresContext

variable (ctx : PostgresContext) (C : Collation String) (t : ActorType) (height : ℤ)

/-- The actor has a row at the height or below. -/
def HasRow (address : Bytes) : Prop :=
  ∃ row ∈ (ctx.db.actors t).rows, row.key = hexEncode address ∧ row.height ≤ height

/-- Every actor that has a row is in the list once, and as it is read alone. -/
def BulkAgrees : Prop :=
  ∀ address, ctx.HasRow t height address →
    ((ctx.getAllActors C t height).map ActorMessage.address).count (hexEncode address) = 1
      ∧ ∀ entry ∈ ctx.getAllActors C t height, entry.address = hexEncode address →
        ∃ actor, ctx.getActor t address height = .ok actor ∧ entry.SameUpToOrder actor

/-- The height at which the list asks for chains: that of the row that came last.
SOURCE: persistence/actor.go:38-47 -/
def chainsHeight : ℤ :=
  (((ctx.db.actors t).distinctOn C height).getLast?.map Row.height).getD height

theorem getAllActors_eq_map : ctx.getAllActors C t height =
    ((ctx.db.actors t).distinctOn C height).map fun row =>
      ctx.getChainsForActor (getActorFromRow t row) (ctx.chainsHeight C t height) := rfl

variable {ctx C t height} {row : Row String ℤ Utility.ActorRow}

theorem address_getChainsForActor (actor : ActorMessage) :
    (ctx.getChainsForActor actor height).address = actor.address := by
  rw [getChainsForActor]
  split <;> rfl

/-- The addresses in the list are the keys of the rows that are selected. -/
theorem addresses_getAllActors : (ctx.getAllActors C t height).map ActorMessage.address =
    ((ctx.db.actors t).distinctOn C height).map Row.key := by
  rw [getAllActors_eq_map, List.map_map]
  refine List.map_congr_left fun row _ => ?_
  exact address_getChainsForActor _

theorem getChainsForActor_of_ne (ht : t ≠ .val) (row : Row String ℤ Utility.ActorRow) (h : ℤ) :
    ctx.getChainsForActor (getActorFromRow t row) h
      = { getActorFromRow t row with chains := ctx.selectChains t row.key h } :=
  if_neg ht

/-- The chains of an actor at a height are those of its newest row. -/
theorem selectChains_height {address : String}
    (hrow : (ctx.db.actors t).latest address height = some row) :
    ctx.selectChains t address row.height = ctx.selectChains t address height := by
  rw [selectChains, selectChains, Table.latest_height hrow, hrow]

theorem getActor_of_latest {address : Bytes} (ht : t ≠ .val)
    (hrow : (ctx.db.actors t).latest (hexEncode address) height = some row) :
    ctx.getActor t address height = .ok
      { getActorFromRow t row with chains := ctx.selectChains t (hexEncode address) height } := by
  have hkey := Table.key_of_latest hrow
  rw [getActor, hrow]
  simp only [getChainsForActor_of_ne ht, hkey, selectChains_height hrow]

/-- **All actors at once and one alone.**  For every state and height, the list of the actors of a kind that has
chains contains every actor that has a row once, as it is read alone, if and only if each has the same
chains at the height of the row that came last as at the height that was asked about. -/
theorem bulk_agrees_iff (ht : t ≠ .val) :
    ctx.BulkAgrees C t height ↔ ∀ address, ctx.HasRow t height address → ∀ chain,
      chain ∈ ctx.selectChains t (hexEncode address) (ctx.chainsHeight C t height) ↔
        chain ∈ ctx.selectChains t (hexEncode address) height := by
  refine forall_congr' fun address => imp_congr_right ?_
  rintro ⟨row, hmem, hkey, hle⟩
  obtain ⟨newest, hnewest⟩ := Table.exists_latest hmem hkey hle
  have hkey' := Table.key_of_latest hnewest
  have hselected : newest ∈ (ctx.db.actors t).distinctOn C height :=
    Table.mem_distinctOn.2 (hkey' ▸ hnewest)
  have halone := getActor_of_latest ht hnewest
  constructor
  · rintro ⟨-, hentries⟩ chain
    obtain ⟨actor, hactor, hsame⟩ := hentries _ (List.mem_map_of_mem hselected)
      ((address_getChainsForActor _).trans hkey')
    obtain rfl := Except.ok.inj (halone.symm.trans hactor)
    have hchains := hsame.chains chain
    change chain ∈ (ctx.getChainsForActor _ (ctx.chainsHeight C t height)).chains ↔ _ at hchains
    rwa [getChainsForActor_of_ne ht, hkey'] at hchains
  · intro hchains
    constructor
    · rw [addresses_getAllActors]
      exact List.count_eq_one_of_mem (Table.nodup_keys_distinctOn C _ _)
        (List.mem_map.2 ⟨newest, hselected, hkey'⟩)
    · intro entry hentry haddress
      rw [getAllActors_eq_map] at hentry
      obtain ⟨row', hrow', rfl⟩ := List.mem_map.1 hentry
      -- it is the row that is read alone, since both are the newest of the key
      have hkey'' : row'.key = hexEncode address := (address_getChainsForActor _).symm.trans haddress
      have hlatest := Table.mem_distinctOn.1 hrow'
      rw [hkey'', hnewest] at hlatest
      obtain rfl := Option.some.inj hlatest
      refine ⟨_, halone, ?_⟩
      rw [getChainsForActor_of_ne ht, hkey']
      exact ⟨rfl, hchains⟩

/-! ## A servicer that staked after the last one -/

/-- The tables after calls, each at its height. -/
def afterCalls (calls : List (ℤ × Writer)) : PostgresContext where
  db := calls.foldl (fun db call => call.2.apply call.1 db) emptyTables
  blocks := fun _ => none

/-- Two servicers for the chain `0001`, each staked at a height of its own. -/
def twoServicers (second first : ℤ) : PostgresContext :=
  afterCalls
    [(second, .insertActor .servicer [2] [12] [22] "10" "https://two" ["0001"] (-1) (-1)),
      (first, .insertActor .servicer [1] [11] [21] "10" "https://one" ["0001"] (-1) (-1))]

/-- When the last in the list is the newest row, the chains are the same. -/
theorem bulk_agrees_last_newest :
    (twoServicers 3 1).BulkAgrees sessionHost.collation .servicer 3 := by
  have hheight : (twoServicers 3 1).chainsHeight sessionHost.collation .servicer 3 = 3 := by
    decide +kernel
  refine (bulk_agrees_iff (by decide)).2 fun address _ chain => ?_
  rw [hheight]

/-- The servicer `01` stakes at the height 3, after the servicer `02`, which is the last in the list: read
with all others, it has no chains. -/
theorem newer_servicer_without_chains :
    ((twoServicers 1 3).getAllActors sessionHost.collation .servicer 3).map
        (fun actor => (actor.address, actor.chains)) = [("01", []), ("02", ["0001"])]
      ∧ ((twoServicers 1 3).getActor .servicer [1] 3).map ActorMessage.chains = .ok ["0001"]
      ∧ ¬ (twoServicers 1 3).BulkAgrees sessionHost.collation .servicer 3 := by
  have hall : ((twoServicers 1 3).getAllActors sessionHost.collation .servicer 3).map
      (fun actor => (actor.address, actor.chains)) = [("01", []), ("02", ["0001"])] := by
    decide +kernel
  have halone : ((twoServicers 1 3).getActor .servicer [1] 3).map ActorMessage.chains
      = .ok ["0001"] := by
    decide +kernel
  refine ⟨hall, halone, fun h => ?_⟩
  have hrow : (twoServicers 1 3).HasRow .servicer 3 [1] :=
    ⟨⟨"01", 3, "0b", "10", "https://one", "15", -1, -1⟩, by decide +kernel, by decide +kernel,
      by decide⟩
  obtain ⟨entry, hentry, hfields⟩ := List.mem_map.1
    (hall ▸ List.mem_cons_self : ("01", []) ∈ _)
  obtain ⟨haddress, hchains⟩ := Prod.mk.inj hfields
  obtain ⟨actor, hactor, hsame⟩ := (h [1] hrow).2 entry hentry (haddress.trans (by decide +kernel))
  rw [hactor] at halone
  have hmem : "0001" ∈ entry.chains :=
    (hsame.chains "0001").2 (by rw [Except.ok.inj halone]; exact List.mem_cons_self)
  rw [hchains] at hmem
  exact List.not_mem_nil hmem

end PostgresContext

end Pocket.Persistence
