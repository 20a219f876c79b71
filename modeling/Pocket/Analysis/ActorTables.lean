import Pocket.Utility.BlockLifecycle

/-!
# What the statements on actors do to the latest rows

A reader of an actor sees its latest row.  Here every statement on the tables of actors is
described by what it does to the latest rows, under the assumption that nothing is written above
the current height:

* `readyToUnstake` selects the actors whose latest row has the height in its column, each once;
* the updates of one actor change its latest row, and no other;
* `unstakePausedBefore` changes the unstaking height of the actors that have been paused for too
  long, whatever it was before.
-/

set_option autoImplicit false

namespace Pocket.Utility

open VersionedTable Table

variable {height u : ℤ} {t : Table String ℤ ActorRow}

/-- Nothing is written about actors above the height. -/
def Database.ActorsUpTo (db : Database) (height : ℤ) : Prop := ∀ t, (db.actors t).UpTo height

/-! ## Selected rows -/

section Selected

theorem isNewest_iff {row : Row String ℤ ActorRow} (ht : t.UpTo height) (hrow : row ∈ t.rows) :
    isNewest t row = true ↔ t.latest row.key height = some row := by
  rw [isNewest, List.all_eq_true, latest_eq_some_iff]
  constructor
  · intro hnewest
    refine ⟨hrow, rfl, ht row hrow, fun other hother hkey _ => ?_⟩
    exact (of_decide_eq_true (hnewest other hother)).resolve_left fun hne => hne hkey
  · rintro ⟨-, -, -, hmax⟩ other hother
    refine decide_eq_true ?_
    by_cases hkey : other.key = row.key
    · exact .inr (hmax other hother hkey (ht other hother))
    · exact .inl hkey

/-- The rows that a condition selects among the newest have different keys. -/
theorem nodup_keys_of_newest (ht : t.UpTo height) (c : Row String ℤ ActorRow → Bool) :
    ((t.rows.filter fun row => c row && isNewest t row).map Row.key).Nodup := by
  have hrows : t.rows.Nodup := List.Nodup.of_map _ t.unique
  refine (hrows.filter _).map_on fun row hrow other hother hkey => ?_
  obtain ⟨hmem, hselected⟩ := List.mem_filter.1 hrow
  obtain ⟨hmem', hselected'⟩ := List.mem_filter.1 hother
  rw [Bool.and_eq_true] at hselected hselected'
  have hlatest := (isNewest_iff ht hmem).1 hselected.2
  have hlatest' := (isNewest_iff ht hmem').1 hselected'.2
  rw [hkey, hlatest'] at hlatest
  exact (Option.some.inj hlatest).symm

theorem mem_selectReadyToUnstake (ht : t.UpTo height) {actor : UnstakingActor} :
    actor ∈ selectReadyToUnstake t u ↔
      ∃ row, t.lookup actor.address height = some row ∧ row.unstakingHeight = u ∧
        actor.stakeAmount = row.stakedTokens ∧ actor.outputAddress = row.outputAddress := by
  rw [selectReadyToUnstake, List.mem_map]
  constructor
  · rintro ⟨row, hrow, rfl⟩
    obtain ⟨hmem, hselected⟩ := List.mem_filter.1 hrow
    obtain ⟨hheight, hnewest⟩ := of_decide_eq_true hselected
    refine ⟨row.value, ?_, hheight, rfl, rfl⟩
    rw [lookup, (isNewest_iff ht hmem).1 hnewest]
    rfl
  · rintro ⟨value, hlookup, hheight, hstake, houtput⟩
    obtain ⟨row, hlatest, rfl⟩ := Option.map_eq_some_iff.1 hlookup
    obtain ⟨hmem, hkey, -, -⟩ := latest_eq_some_iff.1 hlatest
    refine ⟨row, List.mem_filter.2 ⟨hmem, decide_eq_true ⟨hheight, ?_⟩⟩, ?_⟩
    · rw [isNewest_iff ht hmem, hkey]
      exact hlatest
    · rw [hkey, ← hstake, ← houtput]

theorem nodup_selectReadyToUnstake (ht : t.UpTo height) (u : ℤ) :
    ((selectReadyToUnstake t u).map UnstakingActor.address).Nodup := by
  have hnodup := nodup_keys_of_newest ht fun row => row.value.unstakingHeight = u
  rw [selectReadyToUnstake, List.map_map]
  simpa [Function.comp_def] using hnodup

end Selected

/-! ## Updates of one actor -/

theorem actors_setActors_self (db : Database) (t : ActorType) (table : Table String ℤ ActorRow) :
    (db.setActors t table).actors t = table :=
  Function.update_self _ _ _

theorem actors_setActors_ne (db : Database) {t t' : ActorType} (table : Table String ℤ ActorRow)
    (ht : t' ≠ t) : (db.setActors t table).actors t' = db.actors t' :=
  Function.update_of_ne ht _ _

section OneActor

variable {db : Database} {t t' : ActorType} {address address' : String}

theorem lookup_setActors_upsert (row : ActorRow) :
    ((db.setActors t ((db.actors t).upsert address height row)).actors t').lookup address' height
      = if t' = t ∧ address' = address then some row
        else (db.actors t').lookup address' height := by
  by_cases ht : t' = t
  · rw [ht, actors_setActors_self, lookup_upsert]
    simp
  · rw [actors_setActors_ne db _ ht, if_neg fun h => ht h.1]

theorem lookup_updateRow (change : ActorRow → ActorRow) :
    ((db.updateRow height t address change).actors t').lookup address' height
      = if t' = t ∧ address' = address then ((db.actors t).lookup address height).map change
        else (db.actors t').lookup address' height := by
  rw [Database.updateRow]
  cases hrow : (db.actors t).lookup address height with
  | some row =>
    rw [lookup_setActors_upsert]
    rfl
  | none =>
    by_cases h : t' = t ∧ address' = address
    · rw [if_pos h, h.1, h.2]
      exact hrow
    · rw [if_neg h]

/-- The rows of chains that are inserted are of the address and at the height. -/
theorem filter_foldl_insertChain {p : ChainRow → Bool}
    (hp : ∀ chain, p ⟨address, chain, height⟩ = false) (chains : List String) (rows : List ChainRow) :
    (chains.foldl (fun rows chain => if ⟨address, chain, height⟩ ∈ rows then rows
        else rows ++ [⟨address, chain, height⟩]) rows).filter p = rows.filter p := by
  induction chains generalizing rows with
  | nil => rfl
  | cons chain chains ih =>
    rw [List.foldl_cons, ih]
    split
    · rfl
    · simp [List.filter_append, hp]

theorem actors_insertChains (chains : List String) :
    (db.insertChains height t address chains).actors = db.actors := rfl

/-- A new actor has the row it is inserted with. -/
theorem lookup_insertActor_of_new {row : ActorRow} {chains : List String}
    (hnew : (db.actors t).lookup address height = none) :
    ((db.insertActor height t address row chains).actors t').lookup address' height
      = if t' = t ∧ address' = address then some row
        else (db.actors t').lookup address' height := by
  have hunwritten : (db.actors t).written address height = none := by
    rw [written, Option.map_eq_none_iff, List.find?_eq_none]
    intro r hr hslot
    have hslot' : r.slot = (address, height) := of_decide_eq_true hslot
    have hin : r ∈ (db.actors t).rows.filter fun r => r.key = address ∧ r.height ≤ height := by
      refine List.mem_filter.2 ⟨hr, decide_eq_true ⟨congrArg Prod.fst hslot', ?_⟩⟩
      exact (congrArg Prod.snd hslot').le
    have hsome := newest_isSome hin
    rw [lookup, Option.map_eq_none_iff, latest] at hnew
    rw [hnew] at hsome
    cases hsome
  rw [Database.insertActor, hunwritten]
  split
  · exact lookup_setActors_upsert row
  · rw [actors_insertChains]
    exact lookup_setActors_upsert row

theorem actorsUpTo_setActors_upsert (h : db.ActorsUpTo height) (row : ActorRow) :
    (db.setActors t ((db.actors t).upsert address height row)).ActorsUpTo height := by
  intro t'
  by_cases ht : t' = t
  · rw [ht, actors_setActors_self]
    exact (h t).upsert address row
  · rw [actors_setActors_ne db _ ht]
    exact h t'

theorem actorsUpTo_updateRow (h : db.ActorsUpTo height) (change : ActorRow → ActorRow) :
    (db.updateRow height t address change).ActorsUpTo height := by
  rw [Database.updateRow]
  split
  · exact actorsUpTo_setActors_upsert h _
  · exact h

theorem actorsUpTo_insertActor (h : db.ActorsUpTo height) (row : ActorRow) (chains : List String) :
    (db.insertActor height t address row chains).ActorsUpTo height := by
  rw [Database.insertActor]
  split
  · exact actorsUpTo_setActors_upsert h _
  · exact actorsUpTo_setActors_upsert h _

end OneActor

/-! ## Actors that have been paused for too long -/

/-- The actor has been paused since before the height. -/
def ActorRow.pausedBefore (pausedBeforeHeight : ℤ) (row : ActorRow) : Bool :=
  0 ≤ row.pausedHeight && row.pausedHeight < pausedBeforeHeight

/-- INTERNAL: writing the unstaking height into rows of different keys, none of which an earlier
write has touched. -/
theorem latest_foldl_unstake {rows : List (Row String ℤ ActorRow)}
    (hkeys : (rows.map Row.key).Nodup)
    (hwritten : ∀ row ∈ rows, (t.written row.key height).getD row.value = row.value)
    (address : String) :
    ((rows.foldl (fun table row =>
      let base := (table.written row.key height).getD row.value
      table.upsert row.key height { base with unstakingHeight := u }) t).latest address height)
      = match rows.find? (fun row => row.key = address) with
        | some row => some ⟨address, height, { row.value with unstakingHeight := u }⟩
        | none => t.latest address height := by
  induction rows generalizing t with
  | nil => rfl
  | cons row rows ih =>
    rw [List.map_cons, List.nodup_cons] at hkeys
    have hne : ∀ other ∈ rows, other.key ≠ row.key := by
      intro other hother heq
      exact hkeys.1 (heq ▸ List.mem_map_of_mem hother)
    rw [List.foldl_cons, ih hkeys.2 fun other hother => ?_]
    · rw [List.find?_cons, hwritten row List.mem_cons_self]
      by_cases haddress : row.key = address
      · have hnone : rows.find? (fun row => row.key = address) = none := by
          rw [List.find?_eq_none]
          intro other hother heq
          exact hne other hother ((of_decide_eq_true heq).trans haddress.symm)
        rw [hnone, decide_eq_true haddress]
        simp only
        rw [← haddress, latest_upsert_self]
      · rw [decide_eq_false haddress]
        simp only
        rw [latest_upsert_ne _ _ _ _ (Ne.symm haddress)]
    · rw [written_upsert_ne _ _ _ (hne other hother)]
      exact hwritten other (List.mem_cons_of_mem _ hother)

theorem upTo_foldl_unstake {rows : List (Row String ℤ ActorRow)} (ht : t.UpTo height) :
    (rows.foldl (fun table row =>
      let base := (table.written row.key height).getD row.value
      table.upsert row.key height { base with unstakingHeight := u }) t).UpTo height := by
  induction rows generalizing t with
  | nil => exact ht
  | cons row rows ih => exact ih (ht.upsert _ _)

section Paused

variable {db : Database} {t t' : ActorType} {address : String} {pausedBeforeHeight : ℤ}

/-- The unstaking height of every actor paused before the height is overwritten, in a row at the height. -/
theorem latest_unstakePausedBefore (h : db.ActorsUpTo height) :
    ((db.unstakePausedBefore height t pausedBeforeHeight u).actors t').latest address height
      = ((db.actors t').latest address height).map fun row =>
          if t' = t ∧ row.value.pausedBefore pausedBeforeHeight then
            ⟨address, height, { row.value with unstakingHeight := u }⟩
          else row := by
  rw [Database.unstakePausedBefore]
  by_cases ht : t' = t
  · rw [ht, actors_setActors_self]
    have hselect : ((db.actors t).rows.filter fun row => decide
        (row.value.pausedHeight < pausedBeforeHeight ∧ 0 ≤ row.value.pausedHeight ∧
          isNewest (db.actors t) row))
        = (db.actors t).rows.filter fun row =>
            row.value.pausedBefore pausedBeforeHeight && isNewest (db.actors t) row := by
      refine List.filter_congr fun row _ => ?_
      rw [ActorRow.pausedBefore]
      by_cases hnewest : isNewest (db.actors t) row = true
      · simp [hnewest, Bool.and_comm]
      · simp [hnewest]
    have hlatest : ∀ row ∈ (db.actors t).rows.filter fun row =>
          row.value.pausedBefore pausedBeforeHeight && isNewest (db.actors t) row,
        (db.actors t).latest row.key height = some row ∧
          row.value.pausedBefore pausedBeforeHeight = true := by
      intro row hrow
      obtain ⟨hmem, hselected⟩ := List.mem_filter.1 hrow
      rw [Bool.and_eq_true] at hselected
      exact ⟨(isNewest_iff (h t) hmem).1 hselected.2, hselected.1⟩
    simp only [hselect]
    rw [latest_foldl_unstake (nodup_keys_of_newest (h t) _)
      fun row hrow => written_getD_of_latest (hlatest row hrow).1]
    cases hfind : ((db.actors t).rows.filter fun row =>
        row.value.pausedBefore pausedBeforeHeight && isNewest (db.actors t) row).find?
          fun row => row.key = address with
    | some row =>
      have hkey : row.key = address := by simpa using List.find?_some hfind
      obtain ⟨hrow, hpaused⟩ := hlatest row (List.mem_of_find?_eq_some hfind)
      rw [hkey] at hrow
      rw [hrow]
      simp [hpaused]
    | none =>
      cases hlookup : (db.actors t).latest address height with
      | none => rfl
      | some row =>
        obtain ⟨hmem, hkey, -, -⟩ := latest_eq_some_iff.1 hlookup
        have hnewest : isNewest (db.actors t) row = true := by
          rw [isNewest_iff (h t) hmem, hkey]
          exact hlookup
        have hnot : row.value.pausedBefore pausedBeforeHeight ≠ true := by
          intro hpaused
          have hselected : (row.value.pausedBefore pausedBeforeHeight &&
              isNewest (db.actors t) row) = true := by rw [hpaused, hnewest]; rfl
          have hin := List.find?_eq_none.1 hfind row (List.mem_filter.2 ⟨hmem, hselected⟩)
          exact hin (decide_eq_true hkey)
        simp [hnot]
  · rw [actors_setActors_ne db _ ht]
    simp [ht]

theorem lookup_unstakePausedBefore (h : db.ActorsUpTo height) :
    ((db.unstakePausedBefore height t pausedBeforeHeight u).actors t').lookup address height
      = ((db.actors t').lookup address height).map fun row =>
          if t' = t ∧ row.pausedBefore pausedBeforeHeight then { row with unstakingHeight := u }
          else row := by
  rw [lookup, lookup, latest_unstakePausedBefore h, Option.map_map, Option.map_map]
  refine congrArg (Option.map · _) (funext fun row => ?_)
  simp only [Function.comp_apply]
  split <;> rfl

theorem actorsUpTo_unstakePausedBefore (h : db.ActorsUpTo height) :
    (db.unstakePausedBefore height t pausedBeforeHeight u).ActorsUpTo height := by
  intro t'
  rw [Database.unstakePausedBefore]
  by_cases ht : t' = t
  · rw [ht, actors_setActors_self]
    exact upTo_foldl_unstake (h t)
  · rw [actors_setActors_ne db _ ht]
    exact h t'

end Paused

end Pocket.Utility
