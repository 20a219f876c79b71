import Pocket.Analysis.HeightWrites
import Pocket.Analysis.SqlExecution

/-!
# Reads at a height

The tables keep every version of a row, so that a reader can ask for any height.  Without the
versions there would be a plain map for each table, which the calls change in the order they are
made.  What is read at a height is what is in the plain maps after the calls made at or below that
height, as long as contexts are opened at heights that do not decrease and the texts of the calls
contain no quote (`reads_of_history`).

A text with a quote can bring a row into the tables that no call was made for.
-/

set_option autoImplicit false

namespace Pocket.Persistence

open Model (Bytes)
open Utility (ActorRow ActorType Database Plain Server Update stringToBigInt)
open VersionedTable SqlLexer Utility Writer Database
open Text (hexEncode hexEncode_injective)

/-! ## Plain maps -/

/-- The columns of an actor that are read one by one. -/
structure ActorColumns where
  stakedAmount : String
  serviceUrl : String
  pauseHeight : ℤ
  unstakingHeight : ℤ
deriving DecidableEq, Repr

structure PlainMaps where
  accounts : Bytes → ℤ
  pools : Bytes → ℤ
  params : String → Option String
  actors : ActorType → Bytes → Option ActorColumns

def AmountOperation.eval (original amount : ℤ) : AmountOperation → ℤ
  | add => original + amount
  | subtract => original - amount
  | set => amount

namespace PlainMaps

def empty : PlainMaps := ⟨fun _ => 0, fun _ => 0, fun _ => none, fun _ _ => none⟩

/-- An amount that does not parse changes nothing. -/
def changeAmount (amounts : Bytes → ℤ) (op : AmountOperation) (address : Bytes) (amount : String) :
    Bytes → ℤ :=
  match stringToBigInt amount with
  | .ok n => Function.update amounts address (op.eval (amounts address) n)
  | .error _ => amounts

/-- The actors of the kind are changed as the function says. -/
def changeActors (maps : PlainMaps) (t : ActorType)
    (change : Bytes → Option ActorColumns → Option ActorColumns) : PlainMaps :=
  { maps with actors := fun t' address =>
      if t' = t then change address (maps.actors t' address) else maps.actors t' address }

/-- An actor that is there is changed. -/
def changeActor (maps : PlainMaps) (t : ActorType) (address : Bytes)
    (change : ActorColumns → ActorColumns) : PlainMaps :=
  maps.changeActors t fun address' actor =>
    if address' = address then actor.map change else actor

/-- What each call is for. -/
def write (maps : PlainMaps) : Writer → PlainMaps
  | .accountAmount op address amount =>
    { maps with accounts := changeAmount maps.accounts op address amount }
  | .poolAmount op address amount =>
    { maps with pools := changeAmount maps.pools op address amount }
  | .setParam paramName value =>
    { maps with params := Function.update maps.params paramName (some value.text) }
  | .insertActor t address _ _ stakedTokens serviceUrl _ pausedHeight unstakingHeight =>
    maps.changeActors t fun address' actor =>
      if address' = address then some ⟨stakedTokens, serviceUrl, pausedHeight, unstakingHeight⟩
      else actor
  | .updateActor t address stakedAmount serviceUrl _ =>
    maps.changeActor t address fun actor => { actor with stakedAmount, serviceUrl }
  | .setActorPauseHeight t address pauseHeight =>
    maps.changeActor t address fun actor => { actor with pauseHeight }
  | .setActorUnstakingHeightAndStatus t address unstakingHeight =>
    maps.changeActor t address fun actor => { actor with unstakingHeight }
  | .setActorStakeAmount t address stakedAmount =>
    maps.changeActor t address fun actor => { actor with stakedAmount }
  | .setActorStatusAndUnstakingHeightIfPausedBefore t pausedBeforeHeight unstakingHeight =>
    maps.changeActors t fun _ actor => actor.map fun actor =>
      if 0 ≤ actor.pauseHeight ∧ actor.pauseHeight < pausedBeforeHeight then
        { actor with unstakingHeight }
      else actor

theorem ext {maps maps' : PlainMaps} (haccounts : maps.accounts = maps'.accounts)
    (hpools : maps.pools = maps'.pools) (hparams : maps.params = maps'.params)
    (hactors : maps.actors = maps'.actors) : maps = maps' := by
  cases maps
  cases maps'
  congr

end PlainMaps

/-! ## Reading -/

def columns (row : ActorRow) : ActorColumns :=
  ⟨row.stakedTokens, row.serviceUrl, row.pausedHeight, row.unstakingHeight⟩

/-- What is read at the height: amounts, parameters, and the columns of actors. -/
def reads (height : ℤ) (db : Database) : PlainMaps where
  accounts := fun address => db.accounts.amount (hexEncode address) height
  pools := fun address => db.pools.amount (hexEncode address) height
  params := fun paramName => db.params.lookup paramName height
  actors := fun t address => ((db.actors t).lookup (hexEncode address) height).map columns

/-- The reads of a unit of work at the height are these. -/
theorem answer_eq_reads (height : ℤ) (db : Database) (t : ActorType) (address : Bytes)
    (paramName : String) :
    answer height db (.account (hexEncode address))
        = .ok ((reads height db).accounts address) ∧
      answer height db (.pool (hexEncode address)) = .ok ((reads height db).pools address) ∧
      (answer height db (.param paramName)).toOption = (reads height db).params paramName ∧
      (answer height db (.stakedTokens t (hexEncode address))).toOption
        = ((reads height db).actors t address).map ActorColumns.stakedAmount ∧
      (answer height db (.pausedHeight t (hexEncode address))).toOption
        = ((reads height db).actors t address).map ActorColumns.pauseHeight ∧
      (answer height db (.unstakingHeight t (hexEncode address))).toOption
        = ((reads height db).actors t address).map ActorColumns.unstakingHeight := by
  have hselect : ∀ {ν α : Type} (table : Table String ℤ ν) (column : ν → α) (key : String),
      (selectLatest table column key height).toOption
        = (table.lookup key height).map column := by
    intro ν α table column key
    rw [selectLatest]
    cases table.lookup key height <;> rfl
  simp only [answer, hselect, reads, Option.map_map, Option.map_id_apply, true_and]
  exact ⟨rfl, rfl, rfl⟩

variable {t : ActorType} {history : List (ℤ × Writer)}

section OneCall

variable {db : Database} {height h : ℤ} {table : Table String ℤ ℤ}

/-- A reader below the height of a call does not see it. -/
theorem reads_apply_of_lt (w : Writer) (db : Database) (hlt : h < height) :
    reads h (w.apply height db) = reads h db := by
  have hw := @Writer.writtenAt_apply height w db
  apply PlainMaps.ext
  · funext address
    simp only [reads, Table.amount, hw.accounts.lookup_eq hlt]
  · funext address
    simp only [reads, Table.amount, hw.pools.lookup_eq hlt]
  · funext paramName
    exact hw.params.lookup_eq hlt paramName
  · funext t address
    simp only [reads, (hw.actors t).lookup_eq hlt]

theorem amount_upsert (ht : table.UpTo height) (hle : height ≤ h) (address : Bytes) (n : ℤ) :
    (fun address' => (table.upsert (hexEncode address) height n).amount (hexEncode address') h)
      = Function.update (fun address' => table.amount (hexEncode address') h) address n := by
  funext address'
  simp only [Table.amount, ht.lookup_upsert hle, Function.update_apply, hexEncode_injective.eq_iff]
  split <;> rfl

theorem reads_setAccount (hdb : db.UpTo height) (hle : height ≤ h) (address : Bytes) (n : ℤ) :
    reads h (db.setAccount height (hexEncode address) n)
      = { reads h db with accounts := Function.update (reads h db).accounts address n } :=
  PlainMaps.ext (amount_upsert hdb.accounts hle address n) rfl rfl rfl

theorem reads_setPool (hdb : db.UpTo height) (hle : height ≤ h) (address : Bytes) (n : ℤ) :
    reads h (db.setPool height (hexEncode address) n)
      = { reads h db with pools := Function.update (reads h db).pools address n } :=
  PlainMaps.ext rfl (amount_upsert hdb.pools hle address n) rfl rfl

theorem apply_accountUpdate (op : AmountOperation) (address : String) (n : ℤ) (db : Database) :
    apply height db (op.accountUpdate address n)
      = db.setAccount height address (op.eval (db.accounts.amount address height) n) := by
  cases op <;> rfl

theorem apply_poolUpdate (op : AmountOperation) (address : String) (n : ℤ) (db : Database) :
    apply height db (op.poolUpdate address n)
      = db.setPool height address (op.eval (db.pools.amount address height) n) := by
  cases op <;> rfl

/-- An amount is read alike at and above the height of the last write. -/
theorem amount_eq_of_le (ht : table.UpTo height) (hle : height ≤ h) (address : String) :
    table.amount address height = table.amount address h := by
  rw [Table.amount, Table.amount, ht.lookup_eq hle]

/-- The rows of actors that are read at and above the height of the last write. -/
theorem map_columns_lookup_eq (hdb : db.ActorsUpTo height) (hle : height ≤ h) (t : ActorType)
    (address : String) :
    ((db.actors t).lookup address h).map columns
      = ((db.actors t).lookup address height).map columns := by
  rw [(hdb t).lookup_eq hle]

/-- A statement on actors changes what is read of them, and nothing else. -/
theorem reads_eq_changeActors {db' : Database} (hdb : db.ActorsUpTo height)
    (hdb' : db'.ActorsUpTo height) (hle : height ≤ h) (haccounts : db'.accounts = db.accounts)
    (hpools : db'.pools = db.pools) (hparams : db'.params = db.params)
    {change : Bytes → Option ActorColumns → Option ActorColumns}
    (hself : ∀ address, ((db'.actors t).lookup (hexEncode address) height).map columns
      = change address (((db.actors t).lookup (hexEncode address) height).map columns))
    (hother : ∀ t', t' ≠ t → db'.actors t' = db.actors t') :
    reads h db' = (reads h db).changeActors t change := by
  apply PlainMaps.ext
  · simp only [reads, PlainMaps.changeActors, haccounts]
  · simp only [reads, PlainMaps.changeActors, hpools]
  · simp only [reads, PlainMaps.changeActors, hparams]
  · funext t' address
    simp only [reads, PlainMaps.changeActors]
    by_cases ht : t' = t
    · rw [if_pos ht, ht, map_columns_lookup_eq hdb' hle, map_columns_lookup_eq hdb hle]
      exact hself address
    · rw [if_neg ht, hother t' ht]

theorem reads_updateRow (hdb : db.UpTo height) (hle : height ≤ h) (t : ActorType) (address : Bytes)
    {change : ActorRow → ActorRow} {change' : ActorColumns → ActorColumns}
    (hchange : ∀ row, columns (change row) = change' (columns row)) :
    reads h (db.updateRow height t (hexEncode address) change)
      = (reads h db).changeActor t address change' := by
  have hafter := @Utility.actorsUpTo_updateRow height db t (hexEncode address) hdb.actors change
  have hmap : ∀ row : Option ActorRow, (row.map change).map columns = (row.map columns).map change' := by
    intro row
    cases row with
    | none => rfl
    | some row => exact congrArg some (hchange row)
  refine reads_eq_changeActors hdb.actors hafter hle ?_ ?_ ?_ (fun address' => ?_) fun t' ht => ?_
  iterate 3
    · rw [updateRow]
      split <;> rfl
  · rw [lookup_updateRow]
    by_cases haddress : address' = address
    · rw [if_pos ⟨rfl, congrArg hexEncode haddress⟩, if_pos haddress, hmap, haddress]
    · rw [if_neg fun h => haddress (hexEncode_injective h.2), if_neg haddress]
  · rw [updateRow]
    split
    · exact actors_setActors_ne db _ ht
    · rfl

theorem columns_lookup_insertActor (t : ActorType) (address address' : String) (row : ActorRow)
    (chains : List String) :
    (((db.insertActor height t address row chains).actors t).lookup address' height).map columns
      = if address' = address then some (columns row)
        else ((db.actors t).lookup address' height).map columns := by
  have hupsert : ∀ inserted, columns inserted = columns row →
      (((db.actors t).upsert address height inserted).lookup address' height).map columns
        = if address' = address then some (columns row)
          else ((db.actors t).lookup address' height).map columns := by
    intro inserted hinserted
    rw [Table.lookup_upsert]
    split
    · rw [Option.map_some, hinserted]
    · rfl
  have hactors : ∃ inserted, columns inserted = columns row ∧
      (db.insertActor height t address row chains).actors t
        = (db.actors t).upsert address height inserted := by
    rw [Database.insertActor]
    cases (db.actors t).written address height with
    | none =>
      refine ⟨row, rfl, ?_⟩
      split
      · exact actors_setActors_self _ _ _
      · rw [actors_insertChains]
        exact actors_setActors_self _ _ _
    | some old =>
      refine ⟨{ row with publicKey := old.publicKey, outputAddress := old.outputAddress }, rfl, ?_⟩
      split
      · exact actors_setActors_self _ _ _
      · rw [actors_insertChains]
        exact actors_setActors_self _ _ _
  obtain ⟨inserted, hinserted, hactors⟩ := hactors
  rw [hactors]
  exact hupsert inserted hinserted

section

variable (hdb : db.UpTo height) (hle : height ≤ h)
include hdb hle

theorem reads_insertActor (t : ActorType) (address : Bytes) (row : ActorRow) (chains : List String) :
    reads h (db.insertActor height t (hexEncode address) row chains)
      = (reads h db).changeActors t fun address' actor =>
          if address' = address then some (columns row) else actor := by
  have hafter := @Utility.actorsUpTo_insertActor height db t (hexEncode address) hdb.actors row chains
  refine reads_eq_changeActors hdb.actors hafter hle ?_ ?_ ?_ (fun address' => ?_) fun t' ht => ?_
  iterate 3
    · rw [Database.insertActor]
      split <;> rfl
  · rw [columns_lookup_insertActor]
    simp only [hexEncode_injective.eq_iff]
  · rw [Database.insertActor]
    split
    · exact actors_setActors_ne db _ ht
    · rw [actors_insertChains]
      exact actors_setActors_ne db _ ht

theorem reads_unstakePausedBefore (t : ActorType) (pausedBeforeHeight u : ℤ) :
    reads h (db.unstakePausedBefore height t pausedBeforeHeight u)
      = (reads h db).changeActors t fun _ actor => actor.map fun actor =>
          if 0 ≤ actor.pauseHeight ∧ actor.pauseHeight < pausedBeforeHeight then
            { actor with unstakingHeight := u }
          else actor := by
  have hafter := @Utility.actorsUpTo_unstakePausedBefore height u db t pausedBeforeHeight hdb.actors
  refine reads_eq_changeActors hdb.actors hafter hle rfl rfl rfl (fun address => ?_) fun t' ht => ?_
  · rw [lookup_unstakePausedBefore hdb.actors]
    cases (db.actors t).lookup (hexEncode address) height with
    | none => rfl
    | some row =>
      simp only [Option.map_some, true_and, Option.some.injEq, ActorRow.pausedBefore,
        Bool.and_eq_true, decide_eq_true_eq]
      split
      · next hpaused =>
        have hcolumns : 0 ≤ (columns row).pauseHeight ∧
            (columns row).pauseHeight < pausedBeforeHeight := hpaused
        rw [if_pos hcolumns]
        rfl
      · next hpaused =>
        have hcolumns : ¬ (0 ≤ (columns row).pauseHeight ∧
            (columns row).pauseHeight < pausedBeforeHeight) := hpaused
        rw [if_neg hcolumns]
  · exact actors_setActors_ne db _ ht

/-- A reader at or above the height of a call sees what the call is for. -/
theorem reads_apply_of_le (w : Writer) : reads h (w.apply height db) = (reads h db).write w := by
  cases w with
  | accountAmount op address amount =>
    rw [Writer.apply, updates, operationAmount, PlainMaps.write, PlainMaps.changeAmount]
    cases stringToBigInt amount with
    | error e => rfl
    | ok n =>
      simp only [List.foldl_cons, List.foldl_nil, apply_accountUpdate, reads_setAccount hdb hle,
        amount_eq_of_le hdb.accounts hle]
      rfl
  | poolAmount op address amount =>
    rw [Writer.apply, updates, operationAmount, PlainMaps.write, PlainMaps.changeAmount]
    cases stringToBigInt amount with
    | error e => rfl
    | ok n =>
      simp only [List.foldl_cons, List.foldl_nil, apply_poolUpdate, reads_setPool hdb hle,
        amount_eq_of_le hdb.pools hle]
      rfl
  | setParam paramName value =>
    refine PlainMaps.ext rfl rfl (funext fun name => ?_) rfl
    have hlookup := hdb.params.lookup_upsert hle paramName name value.text
    simp only [PlainMaps.write, Function.update_apply]
    exact hlookup
  | insertActor t address publicKey output stakedTokens serviceUrl chains paused unstaking =>
    exact reads_insertActor hdb hle t address _ _
  | updateActor t address stakedAmount serviceUrl chains =>
    -- the statements on chains change nothing that is read here
    rw [Writer.apply, updates]
    split
    · exact reads_updateRow hdb hle t address fun _ => rfl
    · exact reads_updateRow hdb hle t address fun _ => rfl
  | setActorPauseHeight t address pauseHeight
  | setActorUnstakingHeightAndStatus t address unstakingHeight
  | setActorStakeAmount t address stakeAmount =>
    exact reads_updateRow hdb hle t address fun _ => rfl
  | setActorStatusAndUnstakingHeightIfPausedBefore t before unstakingHeight =>
    exact reads_unstakePausedBefore hdb hle t before unstakingHeight

end

end OneCall

/-! ## Texts -/

section Texts

variable {height : ℤ}

/-- The texts of a call that its statements take over as they are.  A validator has no chains. -/
def Writer.texts : Writer → List String
  | .setParam paramName (.string v) => [paramName, v]
  | .setParam paramName _ => [paramName]
  | .insertActor t _ _ _ stakedTokens serviceUrl chains _ _ =>
    stakedTokens :: serviceUrl :: if t = .val then [] else chains
  | .updateActor t _ stakedAmount serviceUrl chains =>
    stakedAmount :: serviceUrl :: if t = .val then [] else chains
  | .setActorStakeAmount _ _ stakeAmount => [stakeAmount]
  | _ => []

/-- None of the texts contains a quote. -/
def Writer.PlainTexts (w : Writer) : Prop := ∀ s ∈ w.texts, Plain s

instance (w : Writer) : Decidable w.PlainTexts :=
  inferInstanceAs (Decidable (∀ s ∈ w.texts, Plain s))

/-- A call as the database carries out the texts of its statements. -/
def Writer.execute (server : Server) (height : ℤ) (db : Database) (w : Writer) : Database :=
  match w with
  | .setActorStakeAmount t address stakeAmount =>
    let text := Utility.Sql.updateStakeAmount (hexEncode address) stakeAmount t.schema height
    let meant := Utility.Sql.stakeAmountStatement (hexEncode address) stakeAmount t.schema height
    if lex text = some meant.tokens then w.apply height db else server text db
  | w => w.updates.foldl (Update.execute server height) db

theorem foldl_execute_of_readAsMeant {ws : List Update}
    (hws : ∀ w ∈ ws, Utility.ReadAsMeant height w) (server : Server) (db : Database) :
    ws.foldl (Update.execute server height) db = ws.foldl (apply height) db := by
  induction ws generalizing db with
  | nil => rfl
  | cons w ws ih =>
    rw [List.forall_mem_cons] at hws
    rw [List.foldl_cons, List.foldl_cons, hws.1 server db, ih hws.2]

theorem readAsMeant_of_lex {w : Update} {text : String} (htext : w.sqlText height = some text)
    (hlex : lex text = some (w.statement height).tokens) : Utility.ReadAsMeant height w := by
  intro server db
  rw [Update.execute, htext]
  exact if_pos hlex

theorem readAsMeant_insertActor {address : Bytes} {row : ActorRow} {chains : List String}
    (hkey : Plain row.publicKey) (hstake : Plain row.stakedTokens) (hurl : Plain row.serviceUrl)
    (houtput : Plain row.outputAddress)
    (hchains : ∀ chain ∈ if t = .val then [] else chains, Plain chain) :
    Utility.ReadAsMeant height (.insertActor t (hexEncode address) row chains) := by
  have hlex := (@Utility.Sql.lex_insert_iff height t (hexEncode address) row
    (if t = .val then [] else chains) (plain_hexEncode address) hkey hstake houtput).2
      ⟨hurl, hchains⟩
  exact readAsMeant_of_lex rfl hlex

theorem readAsMeant_updateActor {address : Bytes} {stakedTokens serviceUrl : String}
    (hstake : Plain stakedTokens) (hurl : Plain serviceUrl) :
    Utility.ReadAsMeant height (.updateActor t (hexEncode address) stakedTokens serviceUrl) := by
  have hlex := (@Utility.Sql.lex_update_iff height t (hexEncode address) stakedTokens serviceUrl
    (plain_hexEncode address) hstake).2 hurl
  exact readAsMeant_of_lex rfl hlex

theorem readAsMeant_insertChains {address : Bytes} {chains : List String}
    (hchains : t ≠ .val → ∀ chain ∈ chains, Plain chain) :
    Utility.ReadAsMeant height (.insertChains t (hexEncode address) chains) := by
  by_cases ht : t = .val
  · refine readAsMeant_of_noText ?_
    rw [Update.sqlText, if_pos ht]
  · have hlex := (@Utility.Sql.lex_insertChains_iff height t (hexEncode address) chains
      (plain_hexEncode address)).2 (hchains ht)
    exact readAsMeant_of_lex (if_neg ht) hlex

theorem readAsMeant_setParam {paramName : String} {value : Utility.ParamValue}
    (hplain : Plain paramName ∧ ∀ v, value = .string v → Plain v) :
    Utility.ReadAsMeant height (.setParam paramName value) := by
  have hlex := (@Utility.Sql.lex_insertParamOrFlag_iff height paramName value).2 hplain
  exact readAsMeant_of_lex rfl hlex

theorem execute_setActorStakeAmount {stakeAmount : String} (hplain : Plain stakeAmount)
    (t : ActorType) (address : Bytes) (server : Server) (db : Database) :
    (setActorStakeAmount t address stakeAmount).execute server height db
      = (setActorStakeAmount t address stakeAmount).apply height db := by
  have hlex := (@Utility.Sql.lex_updateStakeAmount_iff height t (hexEncode address) stakeAmount
    (plain_hexEncode address)).2 hplain
  simp only [execute, hlex, if_true]

/-- Whatever the server does with other texts, a call without quotes does what it is meant to. -/
theorem Writer.execute_of_plain {w : Writer} (hw : w.PlainTexts) (server : Server) (db : Database) :
    w.execute server height db = w.apply height db := by
  have hnone : ∀ amount (update : ℤ → Update), (∀ n, (update n).sqlText height = none) →
      ∀ w ∈ operationAmount update amount, Utility.ReadAsMeant height w := by
    intro amount update hupdate w hw
    rw [operationAmount] at hw
    split at hw
    · rw [List.mem_singleton.1 hw]
      exact readAsMeant_of_noText (hupdate _)
    · cases hw
  cases w with
  | accountAmount op address amount | poolAmount op address amount =>
    refine foldl_execute_of_readAsMeant (hnone _ _ fun n => ?_) server db
    cases op <;> rfl
  | setParam paramName value =>
    refine foldl_execute_of_readAsMeant (List.forall_mem_singleton.2 ?_) server db
    have hplain : Plain paramName ∧ ∀ v, value = .string v → Plain v := by
      cases value with
      | string v =>
        refine ⟨hw paramName (by simp [texts]), fun v' hv' => ?_⟩
        cases hv'
        exact hw v (by simp [texts])
      | _ => exact ⟨hw paramName (by simp [texts]), fun _ h => by cases h⟩
    exact readAsMeant_setParam hplain
  | insertActor t address publicKey output stakedTokens serviceUrl chains paused unstaking =>
    rw [Writer.PlainTexts, texts, List.forall_mem_cons, List.forall_mem_cons] at hw
    refine foldl_execute_of_readAsMeant (List.forall_mem_singleton.2 ?_) server db
    refine readAsMeant_insertActor (plain_hexEncode _) hw.1 hw.2.1
      (plain_hexEncode _) ?_
    by_cases ht : t = .val
    · rw [if_pos ht]
      exact fun _ h => by cases h
    · rw [if_neg ht, if_neg ht]
      rw [if_neg ht] at hw
      exact hw.2.2
  | updateActor t address stakedAmount serviceUrl chains =>
    rw [Writer.PlainTexts, texts, List.forall_mem_cons, List.forall_mem_cons] at hw
    refine foldl_execute_of_readAsMeant (List.forall_mem_cons.2 ⟨?_, ?_⟩) server db
    · exact readAsMeant_updateActor hw.1 hw.2.1
    · split
      · exact fun _ h => by cases h
      · refine List.forall_mem_cons.2 ⟨readAsMeant_of_noText rfl, ?_⟩
        refine List.forall_mem_singleton.2 (readAsMeant_insertChains fun ht chain hchain => ?_)
        refine hw.2.2 chain ?_
        rwa [if_neg ht]
  | setActorStakeAmount t address stakeAmount =>
    exact execute_setActorStakeAmount (hw stakeAmount List.mem_cons_self) t address server db
  | setActorPauseHeight t address pauseHeight
  | setActorUnstakingHeightAndStatus t address unstakingHeight
  | setActorStatusAndUnstakingHeightIfPausedBefore t before unstakingHeight =>
    exact foldl_execute_of_readAsMeant
      (List.forall_mem_singleton.2 (readAsMeant_of_noText rfl)) server db

end Texts

/-! ## Histories -/

def emptyTables : Database := ⟨.empty, .empty, .empty, fun _ => .empty, fun _ => []⟩

/-- The tables after calls in contexts of the given heights. -/
def tablesAfter (server : Server) (history : List (ℤ × Writer)) : Database :=
  history.foldl (fun db call => call.2.execute server call.1 db) emptyTables

/-- The plain maps after the same calls. -/
def mapsAfter (history : List (ℤ × Writer)) : PlainMaps :=
  history.foldl (fun maps call => maps.write call.2) .empty

theorem upTo_apply {db : Database} {height : ℤ} (hdb : db.UpTo height) (w : Writer) :
    (w.apply height db).UpTo height := (w.writtenAt_apply db).upTo hdb

theorem reads_foldl {db : Database} {height : ℤ} (hdb : db.UpTo height)
    (hfirst : ∀ call ∈ history, height ≤ call.1)
    (hheights : (history.map Prod.fst).Pairwise (· ≤ ·)) (h : ℤ) :
    reads h (history.foldl (fun db call => call.2.apply call.1 db) db)
      = (history.filter fun call => call.1 ≤ h).foldl (fun maps call => maps.write call.2)
          (reads h db) := by
  induction history generalizing db height with
  | nil => rfl
  | cons call history ih =>
    rw [List.map_cons, List.pairwise_cons] at hheights
    rw [List.forall_mem_cons] at hfirst
    have hopened : db.UpTo call.1 := hdb.mono hfirst.1
    have hlater : ∀ later ∈ history, call.1 ≤ later.1 :=
      fun later hmem => hheights.1 later.1 (List.mem_map_of_mem hmem)
    rw [List.foldl_cons, ih (upTo_apply hopened call.2) hlater hheights.2]
    by_cases hle : call.1 ≤ h
    · rw [List.filter_cons_of_pos (by simpa using hle), List.foldl_cons,
        reads_apply_of_le hopened hle]
    · rw [List.filter_cons_of_neg (by simpa using hle), reads_apply_of_lt _ _ (not_le.1 hle)]

theorem foldl_execute_of_plain {server : Server} (hplain : ∀ call ∈ history, call.2.PlainTexts)
    (db : Database) :
    history.foldl (fun db call => call.2.execute server call.1 db) db
      = history.foldl (fun db call => call.2.apply call.1 db) db := by
  induction history generalizing db with
  | nil => rfl
  | cons call history ih =>
    rw [List.forall_mem_cons] at hplain
    rw [List.foldl_cons, List.foldl_cons, execute_of_plain hplain.1, ih hplain.2]

/-- **Height-versioned reads**: what is read at any height is what the calls made at or below it
leave in plain maps; so a call above the height changes no read. -/
theorem reads_of_history (server : Server) {history : List (ℤ × Writer)}
    (hheights : (history.map Prod.fst).Pairwise (· ≤ ·))
    (hplain : ∀ call ∈ history, call.2.PlainTexts) (h : ℤ) :
    reads h (tablesAfter server history) = mapsAfter (history.filter fun call => call.1 ≤ h) ∧
      ∀ before height w after, history = before ++ (height, w) :: after → h < height →
        reads h (tablesAfter server (before ++ [(height, w)])) = reads h (tablesAfter server before) := by
  have hreads : ∀ calls : List (ℤ × Writer), (calls.map Prod.fst).Pairwise (· ≤ ·) →
      (∀ call ∈ calls, call.2.PlainTexts) →
      reads h (tablesAfter server calls) = mapsAfter (calls.filter fun call => call.1 ≤ h) := by
    intro calls hsorted hcalls
    rw [tablesAfter, foldl_execute_of_plain hcalls, mapsAfter]
    cases calls with
    | nil => rfl
    | cons call calls =>
      have hnone : ∀ {ν : Type}, (Table.empty : Table String ℤ ν).UpTo call.1 :=
        fun _ hr => by cases hr
      have hopened : emptyTables.UpTo call.1 := ⟨hnone, hnone, hnone, fun _ => hnone⟩
      refine reads_foldl hopened (List.forall_mem_cons.2 ⟨le_rfl, fun later hmem => ?_⟩) hsorted h
      exact (List.pairwise_cons.1 hsorted).1 later.1 (List.mem_map_of_mem hmem)
  refine ⟨hreads history hheights hplain, fun before height w after hhistory hlt => ?_⟩
  have hsplit : history = (before ++ [(height, w)]) ++ after := by simp [hhistory]
  rw [hsplit, List.map_append] at hheights
  rw [hsplit, List.forall_mem_append] at hplain
  have hsorted := (List.pairwise_append.1 hheights).1
  have hsorted' := hsorted
  rw [List.map_append] at hsorted'
  rw [hreads _ hsorted hplain.1, hreads _ (List.pairwise_append.1 hsorted').1
    (List.forall_mem_append.1 hplain.1).1]
  have hnot : ¬ height ≤ h := not_le.2 hlt
  simp [List.filter_append, hnot]

theorem execute_insertActor (server : Server) (height : ℤ) (db : Database) (t : ActorType)
    (address publicKey output : Bytes) (stakedTokens serviceUrl : String) (chains : List String)
    (paused unstaking : ℤ) :
    (insertActor t address publicKey output stakedTokens serviceUrl chains paused
        unstaking).execute server height db
      = Update.execute server height db (.insertActor t (hexEncode address)
        ⟨hexEncode publicKey, stakedTokens, serviceUrl, hexEncode output, paused, unstaking⟩
        (if t = .val then [] else chains)) := rfl

/-- The row of a validator with a row for the validator `03` in its service URL. -/
def rowWithinRow : ActorRow :=
  ⟨hexEncode [1], "15", urlWithRow "01" "03" "03" "9", hexEncode [1], -1, -1⟩

/-- Two validators are inserted, the second with a row of the first in its service URL. -/
def validatorInserts : List (ℤ × Writer) :=
  [(2, .insertActor .val [3] [3] [3] "50" "u" [] (-1) (-1)),
    (2, .insertActor .val [1] [1] [1] "15" (urlWithRow "01" "03" "03" "9") [] (-1) (-1))]

theorem tablesAfter_validatorInserts (server : Server) :
    ∃ db, tablesAfter server validatorInserts
      = Update.execute server 2 db (.insertActor .val (hexEncode [1]) rowWithinRow []) := by
  rw [tablesAfter, validatorInserts, List.foldl_cons, List.foldl_cons, List.foldl_nil,
    execute_insertActor, if_pos rfl]
  exact ⟨_, rfl⟩

/-- The stake of the first is read as its service URL has it, not as it was inserted with. -/
theorem service_url_changes_read :
    (validatorInserts.map Prod.fst).Pairwise (· ≤ ·) ∧
      (((reads 2 (tablesAfter (Utility.insertingServer .val) validatorInserts)).actors .val [3]).map
        ActorColumns.stakedAmount = some "9") ∧
      ((mapsAfter (validatorInserts.filter fun call => call.1 ≤ 2)).actors .val [3]).map
        ActorColumns.stakedAmount = some "50" := by
  refine ⟨by decide, ?_, by decide⟩
  have hhex : hexEncode [1] = "01" ∧ hexEncode [3] = "03" := by decide
  have hplain : ∀ s ∈ ["01", rowWithinRow.publicKey, rowWithinRow.stakedTokens, "01", "03", "03",
      "9", rowWithinRow.outputAddress], Plain s := by decide
  have hquote : ¬ Plain rowWithinRow.serviceUrl := by decide
  obtain ⟨db, htables⟩ := tablesAfter_validatorInserts (Utility.insertingServer .val)
  have hexecute := @Utility.execute_insertActor (Utility.insertingServer .val) 2 "01" rowWithinRow
    (hplain _ (by simp)) (hplain _ (by simp)) (hplain _ (by simp)) (hplain _ (by simp)) db
  have htwo := @Utility.insertingServer_twoRows .val "01" "01" "03" "03" "9" rowWithinRow db rfl rfl
    rfl hplain (by decide)
  have hread := @columns_lookup_insertActor
    (db.insertActor 2 .val "01" (Utility.firstRow rowWithinRow "01") []) 2 .val "03" "03"
    (Utility.secondRow rowWithinRow "03" "9") []
  rw [if_pos rfl] at hread
  rw [htables, hhex.1, hexecute, if_neg hquote, htwo]
  simp only [reads, hhex.2, hread]
  rfl

/-- A stake that is changed twice is read at each height as it was then. -/
theorem reads_of_three_calls :
    let history : List (ℤ × Writer) :=
      [(0, .insertActor .val [3] [3] [3] "50" "u" [] (-1) (-1)),
        (1, .setActorStakeAmount .val [3] "60"), (2, .setActorStakeAmount .val [3] "70")]
    (history.map Prod.fst).Pairwise (· ≤ ·) ∧ (∀ call ∈ history, call.2.PlainTexts) ∧
      reads 1 (tablesAfter (Utility.insertingServer .val) history)
        = mapsAfter (history.filter fun call => call.1 ≤ 1) := by
  have hheights : (([(0, .insertActor .val [3] [3] [3] "50" "u" [] (-1) (-1)),
      (1, .setActorStakeAmount .val [3] "60"), (2, .setActorStakeAmount .val [3] "70")] :
        List (ℤ × Writer)).map Prod.fst).Pairwise (· ≤ ·) := by decide
  have hplain : ∀ call ∈ ([(0, .insertActor .val [3] [3] [3] "50" "u" [] (-1) (-1)),
      (1, .setActorStakeAmount .val [3] "60"), (2, .setActorStakeAmount .val [3] "70")] :
        List (ℤ × Writer)), call.2.PlainTexts := by decide
  exact ⟨hheights, hplain, (reads_of_history _ hheights hplain 1).1⟩

end Pocket.Persistence
