import Pocket.Analysis.SqlStatements
import Pocket.Analysis.TransactionOutcome

/-!
# Strings of a message in SQL

Whatever `handleMessage` sends to the database for a message, its text is intact exactly when
the strings that it takes from the message as they are have no quote in them.  The handlers
check amounts, keys and the number of chains, and nothing else about strings: a service URL
with a quote ends its literal early, and what follows it is read as SQL.
-/

set_option autoImplicit false

namespace Pocket.Utility

open StoreProgram SqlLexer
open Text (hexEncode)

/-! ## The statements of a message -/

/-- The fixed text and the strings of the statement that an update is sent as. -/
def Update.statement (height : ℤ) : Update → Statement
  | .insertActor t address row chains =>
    Sql.insertStatementOf address row (if t = .val then [] else chains) t.schema height
  | .updateActor t address stakedTokens serviceUrl =>
    Sql.updateStatement address stakedTokens serviceUrl t.schema height
  | .insertChains t address chains =>
    Sql.insertChainsStatement address chains height t.schema.chainsTableName
      t.schema.chainsHeightConstraintName
  | .setParam name value => Sql.paramStatement Sql.paramsTableName name height value none
  | _ => ⟨"", []⟩

/-- The strings of a message that the statement of an update takes over as they are.  An
application has no service URL and a validator no chains. -/
def sqlStrings (P : Platform) : Message → Update → List String
  | .stake m, .insertActor t _ _ _ =>
    (if t = .app then [] else [m.serviceUrl]) ++ (if t = .val then [] else m.chains)
  | .editStake m, .updateActor t _ _ _ => if t = .app then [] else [m.serviceUrl]
  | .editStake m, .insertChains _ _ _ => m.chains
  | .changeParameter m, .setParam _ _ =>
    m.parameterKey :: match P.fromAny m.parameterValue with
      | .ok (.stringValue v) => [v]
      | _ => []
  | _, _ => []

/-- The statement of the update, if it has one, is intact exactly when the strings it takes
from the message have no quotes. -/
def IntactIff (P : Platform) (height : ℤ) (msg : Message) (u : Update) : Prop :=
  ∀ text, u.sqlText height = some text →
    (lex text = some (u.statement height).tokens ↔ ∀ s ∈ sqlStrings P msg u, Plain s)

variable {P : Platform} {height amount : ℤ} {Λ : Update → Prop} {m : MessageEditStake}

theorem every_handleEditStakeMessage (hset : ∀ address amount, Λ (.setAccount address amount))
    (hadd : ∀ address amount, Λ (.addPool address amount))
    (hupdate : ∀ t amount, stringToBigInt m.amount = .ok amount →
      Λ (.updateActor t (hexEncode m.address) m.amount (if t = .app then "" else m.serviceUrl)))
    (hnullify : ∀ t, Λ (.nullifyChains t (hexEncode m.address)))
    (hchains : ∀ t, Λ (.insertChains t (hexEncode m.address) m.chains)) :
    (handleEditStakeMessage m).run.Every Λ fun _ => True := by
  refine meets_then (every_of_checks (checks_wrap _ (checks_getActorExists _ _))) fun found => ?_
  refine meets_then (every_of_checks (checks_throwIf _ _)) fun _ => ?_
  refine meets_then (every_of_checks (checks_getActorStakeAmount _ _)) fun currentStake => ?_
  cases hamount : stringToBigInt m.amount with
  | error e => trivial
  | ok newAmount =>
    have hactor : (updateActor m).run.Every Λ fun _ => True := by
      unfold updateActor
      split <;> simp [hupdate _ newAmount hamount, hnullify, hchains]
    simp [getAccountAmount, checkBelowMaxChains, getMaxAllowedChains, getActorIntParam,
      getIntParam, getStringParam, setAccountAmount, addPoolAmount, hset, hadd, hactor]

/-! ## Intact statements -/

theorem intactIff_of_noText {msg : Message} {u : Update} (hu : u.sqlText height = none) :
    IntactIff P height msg u :=
  fun _ htext => by cases hu.symm.trans htext

theorem intactIff_stake {m : MessageStake} (t : ActorType) (publicKey : List UInt8)
    (hamount : stringToBigInt m.amount = .ok amount) :
    IntactIff P height (.stake m) (.insertActor t (hexEncode (P.address publicKey))
      { publicKey := hexEncode publicKey
        stakedTokens := m.amount
        serviceUrl := if t = .app then "" else m.serviceUrl
        outputAddress := hexEncode m.outputAddress
        pausedHeight := heightNotUsed
        unstakingHeight := heightNotUsed }
      (if t = .val then [] else m.chains)) := by
  intro text htext
  cases htext
  refine (Sql.lex_insert_iff height t ?address ?key ?stake ?output).trans ?_
  case address => apply plain_hexEncode
  case key => apply plain_hexEncode
  case stake => exact plain_of_stringToBigInt hamount
  case output => apply plain_hexEncode
  have hempty : Plain "" := by decide
  cases t with
  | app | servicer | fish | val => simp [sqlStrings, hempty]

theorem intactIff_updateActor (t : ActorType) (hamount : stringToBigInt m.amount = .ok amount) :
    IntactIff P height (.editStake m) (.updateActor t (hexEncode m.address) m.amount
      (if t = .app then "" else m.serviceUrl)) := by
  intro text htext
  cases htext
  refine (Sql.lex_update_iff height t (plain_hexEncode _)
    (plain_of_stringToBigInt hamount)).trans ?_
  have hempty : Plain "" := by decide
  cases t with
  | app | servicer | fish | val => simp [sqlStrings, hempty]

theorem intactIff_insertChains (t : ActorType) :
    IntactIff P height (.editStake m) (.insertChains t (hexEncode m.address) m.chains) := by
  intro text htext
  rw [Update.sqlText] at htext
  split at htext
  · cases htext
  · cases htext
    exact Sql.lex_insertChains_iff height t (plain_hexEncode _)

/-- Only a string value is printed as it came. -/
theorem intactIff_setParam {m : MessageChangeParameter} {value : ParamValue}
    (hvalue : ∀ v, value = .string v ↔ P.fromAny m.parameterValue = .ok (.stringValue v)) :
    IntactIff P height (.changeParameter m) (.setParam m.parameterKey value) := by
  intro text htext
  cases htext
  refine (Sql.lex_insertParamOrFlag_iff height).trans ?_
  rw [sqlStrings, List.forall_mem_cons]
  refine and_congr_right fun _ => ?_
  simp only [hvalue]
  split
  · next v hv => simp [hv]
  · next hother => exact iff_of_true (fun v hv => (hother v hv).elim) nofun

theorem every_handleMessage (msg : Message) :
    (handleMessage P height msg).run.Every (IntactIff P height msg) fun _ => True := by
  cases msg with
  | send m =>
    exact meets_handleMessageSend m (fun _ _ => intactIff_of_noText rfl)
      fun _ _ => intactIff_of_noText rfl
  | stake m =>
    refine meets_handleStakeMessage (fun _ _ => intactIff_of_noText rfl)
      (fun _ _ => intactIff_of_noText rfl) (fun publicKey amount hamount => ?_) fun _ _ => trivial
    unfold insertActor
    split
    · trivial
    · simp [intactIff_stake _ publicKey hamount]
  | editStake m =>
    exact every_handleEditStakeMessage (fun _ _ => intactIff_of_noText rfl)
      (fun _ _ => intactIff_of_noText rfl) (fun t amount hamount => intactIff_updateActor t hamount)
      (fun _ => intactIff_of_noText rfl) intactIff_insertChains
  | unstake m => exact meets_handleUnstakeMessage m fun _ _ => intactIff_of_noText rfl
  | unpause m => exact meets_handleUnpauseMessage m fun _ => intactIff_of_noText rfl
  | changeParameter m =>
    refine meets_handleMessageChangeParameter fun value hvalue => ?_
    cases value with
    | int32Value v | stringValue v | bytesValue v =>
      simp only [updateParam, meets_wrap, meets_perform]
      exact ⟨intactIff_setParam (by simp [hvalue]), fun _ => trivial, trivial⟩
    | utility msg | other => trivial

/-- **Every statement that a message is executed with lexes to its fixed text with each string
as one literal of that value, exactly when the strings it takes from the message as they are
contain no quote.** -/
theorem message_strings_stay_data_iff (P : Platform) (height : ℤ) (msg : Message)
    (view : Database → Database) (fails : ℕ → Option String) (db : Database) (u : Update)
    (hu : u ∈ (handleMessage P height msg).run.performed (store height) view fails db)
    (text : String) (htext : u.sqlText height = some text) :
    lex text = some (u.statement height).tokens ↔ ∀ s ∈ sqlStrings P msg u, Plain s :=
  Prog.of_mem_performed (every_handleMessage msg) hu text htext

/-! ## A validator that brings another -/

/-- The stake of a validator, signed for the address `01`. -/
def stakeValidator (serviceUrl : String) : Message :=
  .stake ⟨4, List.replicate 32 1, [], "15", serviceUrl, [1], [1]⟩

/-- The accounts of `ownerDatabase`, where a validator can stake 15 without a fee. -/
def stakeDatabase : Database :=
  let db := ownerDatabase "0"
  let params := db.params.upsert (minimumStakeParamName .val) 1 "15"
  { db with params := params.upsert (messageStakeFee .val) 1 "0" }

/-- The service URL of this stake ends its row and begins a second one, for the address `03`.
The transaction passes every check and is executed without an error, and its insert does not
lex as it should. -/
theorem service_url_adds_validator :
    let url := "u', '01', -1, -1, 2), ('03', '03', '9', 'u"
    let msg := stakeValidator url
    let P := ownerPlatform msg
    ownerTx.validateBasic P = .ok () ∧
    ((handleTransaction P 2 ownerTx 0).run.exec (store 2) id (fun _ => none) stakeDatabase).map
        (fun r => r.1.toOption.map (·.resultCode)) = some (some 0) ∧
    ∃ u ∈ (handleMessage P 2 msg).run.performed (store 2) id (fun _ => none) stakeDatabase,
      ∃ text, u.sqlText 2 = some text ∧ url ∈ sqlStrings P msg u ∧
        lex text ≠ some (u.statement 2).tokens := by
  intro url msg P
  obtain ⟨u, hu, htext, hurl⟩ :
      ∃ u ∈ (handleMessage P 2 msg).run.performed (store 2) id (fun _ => none) stakeDatabase,
        (u.sqlText 2).isSome ∧ url ∈ sqlStrings P msg u := by
    decide
  obtain ⟨text, htext⟩ := Option.isSome_iff_exists.1 htext
  have hquote : ¬ Plain url := by decide
  refine ⟨by decide, by decide, u, hu, text, htext, hurl, fun hlex => hquote ?_⟩
  exact (Prog.of_mem_performed (every_handleMessage msg) hu text htext).1 hlex url hurl

/-- With a harmless service URL the insert of the same stake is intact. -/
theorem plain_service_url_stays_data :
    let msg := stakeValidator "https://validator"
    let P := ownerPlatform msg
    ∃ u ∈ (handleMessage P 2 msg).run.performed (store 2) id (fun _ => none) stakeDatabase,
      ∃ text, u.sqlText 2 = some text ∧ (∀ s ∈ sqlStrings P msg u, Plain s) ∧
        lex text = some (u.statement 2).tokens := by
  intro msg P
  obtain ⟨u, hu, htext, hplain⟩ :
      ∃ u ∈ (handleMessage P 2 msg).run.performed (store 2) id (fun _ => none) stakeDatabase,
        (u.sqlText 2).isSome ∧ ∀ s ∈ sqlStrings P msg u, Plain s := by
    decide
  obtain ⟨text, htext⟩ := Option.isSome_iff_exists.1 htext
  exact ⟨u, hu, text, htext, hplain, (message_strings_stay_data_iff P 2 msg id (fun _ => none)
    stakeDatabase u hu text htext).2 hplain⟩

end Pocket.Utility
