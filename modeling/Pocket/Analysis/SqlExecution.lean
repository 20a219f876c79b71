import Pocket.Analysis.SqlData
import Pocket.Library.StorePlans
import Pocket.Utility.TxPipeline

/-!
# Statements as the database reads them

An update of the store stands for a statement with its arguments as data.  What is sent is a text,
and the database reads it again: where the text lexes to the statement that was meant, it means the
update, and otherwise whatever the database makes of it.  That part is a parameter, the `Server`.

The loop over the transactions of a proposal is run here on such a server.  It does what it does on
the store of updates as long as no string of a message contains a quote
(`Server.processProposalBlockTransactions_of_plain`).

`insertingServer` reads the inserts of one kind of actors as Postgres does, with as many rows as
there are after `VALUES`.
-/

set_option autoImplicit false

namespace Pocket.Utility

open Model (Bytes)
open StoreProgram StoreProgram.Prog SqlLexer VersionedTable Sql
open Text (hexEncode)

/-- What the database makes of a text that is not the statement it was meant to be. -/
abbrev Server := String → Database → Database

/-- An update as the database carries out its text. -/
def Update.execute (server : Server) (height : ℤ) (db : Database) (w : Update) : Database :=
  match w.sqlText height with
  | none => apply height db w
  | some text =>
    if lex text = some (w.statement height).tokens then apply height db w else server text db

namespace Server

variable (server : Server) (X : Host) (height : ℤ) (committed : Database) (calls : BlockCalls)

def store : UowStore where
  answer := answer height
  apply := Update.execute server height

/-- One transaction of a proposal, on the server. -/
def processTx (i : ℕ) (txProtoBytes : Bytes) (s : BlockState) : Outcome Unit :=
  Utility.processTx X height committed calls i txProtoBytes s (server.store height)

/-- The transactions of a proposal, on the server. -/
def processProposalBlockTransactions (i : ℕ) (txs : List Bytes) (s : BlockState) : Outcome Unit :=
  Utility.processProposalBlockTransactions X height committed calls i txs s (server.store height)

end Server

/-! ## Messages without quotes -/

/-- The strings of a message that its statements take over as they are. -/
def messageStrings (P : Platform) : Message → List String
  | .stake m => m.serviceUrl :: m.chains
  | .editStake m => m.serviceUrl :: m.chains
  | .changeParameter m => m.parameterKey :: match P.fromAny m.parameterValue with
      | .ok (.stringValue v) => [v]
      | _ => []
  | _ => []

/-- The transaction carries a message whose strings contain no quote, if it carries one at all. -/
def PlainTx (P : Platform) (tx : Transaction) : Prop :=
  ∀ msg, P.fromAny tx.msg = .ok (.utility msg) → ∀ s ∈ messageStrings P msg, Plain s

variable {P : Platform} {height : ℤ} {server : Server} {w : Update} {bz : Bytes}

/-- Whatever the server, the update is what its text does. -/
def ReadAsMeant (height : ℤ) (w : Update) : Prop :=
  ∀ (server : Server) (db : Database), w.execute server height db = apply height db w

theorem readAsMeant_of_noText (h : w.sqlText height = none) : ReadAsMeant height w := by
  intro server db
  rw [Update.execute, h]

theorem sqlStrings_subset (msg : Message) (w : Update) :
    ∀ s ∈ sqlStrings P msg w, s ∈ messageStrings P msg := by
  intro s hs
  cases msg with
  | stake m =>
    cases w with
    | insertActor t _ _ _ =>
      rw [sqlStrings, List.mem_append] at hs
      rw [messageStrings, List.mem_cons]
      rcases hs with hurl | hchain
      · split at hurl
        · cases hurl
        · exact .inl (List.mem_singleton.1 hurl)
      · split at hchain
        · cases hchain
        · exact .inr hchain
    | _ => cases hs
  | editStake m =>
    cases w with
    | updateActor t _ _ _ =>
      rw [sqlStrings] at hs
      split at hs
      · cases hs
      · exact List.mem_cons.2 (.inl (List.mem_singleton.1 hs))
    | insertChains t _ _ => exact List.mem_cons.2 (.inr hs)
    | _ => cases hs
  | changeParameter m =>
    cases w with
    | setParam _ _ => exact hs
    | _ => cases hs
  | send m | unstake m | unpause m => cases hs

theorem readAsMeant_of_intactIff {msg : Message} (h : IntactIff P height msg w)
    (hplain : ∀ s ∈ messageStrings P msg, Plain s) : ReadAsMeant height w := by
  intro server db
  rw [Update.execute]
  cases htext : w.sqlText height with
  | none => rfl
  | some text =>
    have hlex := (h text htext).2 fun s hs => hplain s (sqlStrings_subset msg w s hs)
    exact if_pos hlex

theorem messageStrings_setSigner (msg : Message) (signer : Bytes) :
    messageStrings P (msg.setSigner signer) = messageStrings P msg := by
  cases msg <;> rfl

theorem every_readAsMeant {tx : Transaction} (hplain : PlainTx P tx) (index : ℤ) :
    (handleTransaction P height tx index).run.Every (ReadAsMeant height) fun _ => True := by
  refine meets_bind_fallible.2 (Prog.meets_mono
    (every_basicValidateTransaction tx (fun _ _ => readAsMeant_of_noText rfl)
      fun _ _ => readAsMeant_of_noText rfl) fun r hr => ⟨by simp, fun handled hok => ?_⟩)
  obtain ⟨msg, signer, hdecoded, rfl, -⟩ := hr handled hok
  have hmessage : (handleMessage P height (msg.setSigner signer)).run.Every (ReadAsMeant height)
      fun _ => True := by
    refine Prog.every_mono_updates (every_handleMessage _) fun w hw => ?_
    refine readAsMeant_of_intactIff hw ?_
    rw [messageStrings_setSigner]
    exact hplain msg hdecoded
  exact Prog.meets_bind.2 (Prog.meets_bind.2 (Prog.meets_mono hmessage fun _ _ => trivial))

namespace Server

variable {X : Host} {committed : Database} {calls : BlockCalls}

theorem processTx_of_plain (hplain : ∀ tx, X.unmarshal bz = .ok tx → PlainTx X.toPlatform tx)
    (i : ℕ) (s : BlockState) :
    server.processTx X height committed calls i bz s
      = Utility.processTx X height committed calls i bz s := by
  rw [processTx, Utility.processTx, Utility.processTx]
  cases htx : X.unmarshal bz with
  | error err => rfl
  | ok tx =>
    have hanswer : (server.store height).answer = (Utility.store height).answer := rfl
    have hexec := Prog.exec_congr (every_readAsMeant (hplain tx htx) i) hanswer
      (fun w s hw => hw server s) (fun _ => committed) (calls.txFails i) s.db
    simp only [executeTx, runUow, hexec]

/-- Without quotes in the strings of the messages the server does what the store does. -/
theorem processProposalBlockTransactions_of_plain {txs : List Bytes}
    (hplain : ∀ bz ∈ txs, ∀ tx, X.unmarshal bz = .ok tx → PlainTx X.toPlatform tx) (i : ℕ)
    (s : BlockState) :
    server.processProposalBlockTransactions X height committed calls i txs s
      = Utility.processProposalBlockTransactions X height committed calls i txs s := by
  induction txs generalizing i s with
  | nil => rfl
  | cons bz txs ih =>
    rw [List.forall_mem_cons] at hplain
    rw [processProposalBlockTransactions, Utility.processProposalBlockTransactions,
      Utility.processProposalBlockTransactions, ← processTx, processTx_of_plain hplain.1]
    congr 1
    funext _ s'
    exact ih hplain.2 (i + 1) s'

end Server

/-- A transaction whose calls do not fail is executed as planned. -/
theorem exists_processTx_eq_plan {X : Host} {height : ℤ} {seen : Database} {calls : BlockCalls}
    {i : ℕ} {tx : Transaction} {idxTx : IndexedTransaction} {ws : List Update} {txHash : String}
    (htx : X.unmarshal bz = .ok tx) (hvalid : tx.validateBasic X.toPlatform = .ok ())
    (hhash : X.hash tx = .ok txHash)
    (hplan : (handleTransaction X.toPlatform height tx i).run.plan (server.store height) seen
      = some (.ok idxTx, ws)) (hfails : calls.txFails i = fun _ => none)
    (hindex : calls.indexFails i = false) (s : BlockState) :
    ∃ s', server.processTx X height seen calls i bz s = some (.ok (), s') ∧
      s'.db = ws.foldl (Update.execute server height) s.db := by
  simp only [Server.processTx, processTx, htx, hvalid, executeTx, runUow, hfails, exec_eq_plan,
    hplan, Option.map_some, mapError_ok, Outcome.andThen, Option.bind_some, hhash, hindex]
  exact ⟨_, rfl, rfl⟩

/-! ## Inserts of actors -/

/-- A number with its sign. -/
def readNumber : List Token → Option (ℤ × List Token)
  | .symbol '-' :: .word digits :: rest =>
    (Text.integer (String.ofList digits)).map fun n => (-n, rest)
  | .word digits :: rest => (Text.integer (String.ofList digits)).map fun n => (n, rest)
  | _ => none

/-- A row of an insert of actors, after its parenthesis. -/
def readActorRow : List Token → Option (Row String ℤ ActorRow × List Token)
  | .literal address :: .symbol ',' :: .literal publicKey :: .symbol ',' ::
      .literal stakedTokens :: .symbol ',' :: .literal serviceUrl :: .symbol ',' ::
      .literal outputAddress :: .symbol ',' :: rest => do
    let (pausedHeight, .symbol ',' :: rest) ← readNumber rest | none
    let (unstakingHeight, .symbol ',' :: rest) ← readNumber rest | none
    let (height, .symbol ')' :: rest) ← readNumber rest | none
    let row : ActorRow := ⟨String.ofList publicKey, String.ofList stakedTokens,
      String.ofList serviceUrl, String.ofList outputAddress, pausedHeight, unstakingHeight⟩
    return (⟨String.ofList address, height, row⟩, rest)
  | _ => none

/-- The rows after `VALUES(`; there are no more of them than tokens. -/
def readActorRows : ℕ → List Token → Option (List (Row String ℤ ActorRow) × List Token)
  | 0, _ => none
  | rounds + 1, tokens => do
    let (row, rest) ← readActorRow tokens
    match rest with
    | .symbol ',' :: .symbol '(' :: rest =>
      let (rows, rest) ← readActorRows rounds rest
      return (row :: rows, rest)
    | rest => return ([row], rest)

/-- Inserts into the table of one kind of actors, with any number of rows.  A row that is there at
its height keeps its public key and its output address, and no two rows of one statement may be the
same one.  Any other text is an error. -/
def insertingServer (t : ActorType) : Server := fun text db =>
  let lead := codeTokens (insertLead t.schema)
  let inserted : Option Database := do
    let tokens ← lex text
    guard (lead <+: tokens)
    let (rows, rest) ← readActorRows tokens.length (tokens.drop lead.length)
    guard (rest = codeTokens (conflictText t.schema) ∧ (rows.map Row.slot).Nodup)
    return rows.foldl (fun db row => db.insertActor row.height t row.key row.value []) db
  inserted.getD db

/-- The insert of a validator whose other columns have no quote goes by its service URL. -/
theorem execute_insertActor {height : ℤ} {address : String} {actor : ActorRow}
    (haddress : Plain address) (hkey : Plain actor.publicKey) (hstake : Plain actor.stakedTokens)
    (houtput : Plain actor.outputAddress) (db : Database) :
    Update.execute server height db (.insertActor .val address actor [])
      = if Plain actor.serviceUrl then apply height db (.insertActor .val address actor [])
        else server (Sql.insert address actor [] ActorType.val.schema height) db := by
  have hlex := @Sql.lex_insert_iff height .val address actor [] haddress hkey hstake houtput
  have hchains : ∀ chain ∈ ([] : List String), Plain chain := nofun
  rw [and_iff_left hchains] at hlex
  have htext : (Update.insertActor .val address actor []).sqlText height
      = some (Sql.insert address actor [] ActorType.val.schema height) := by
    rw [Update.sqlText, if_pos rfl]
  have hstatement : (Update.insertActor .val address actor []).statement height
      = insertStatementOf address actor [] ActorType.val.schema height := by
    rw [Update.statement, if_pos rfl]
  rw [Update.execute, htext, hstatement]
  exact if_congr hlex rfl rfl

/-! ## A row in a service URL -/

/-- The rest of one row, at height 2, and the beginning of the next, up to its service URL. -/
def urlWithRow (output address publicKey stakedTokens : String) : String :=
  "u" ++ "'" ++ ", " ++ "'" ++ output ++ "'" ++ ", -1, -1, 2), (" ++ "'" ++ address ++ "'" ++ ", " ++
    "'" ++ publicKey ++ "'" ++ ", " ++ "'" ++ stakedTokens ++ "'" ++ ", " ++ "'" ++ "u"

/-- The statement that the insert is with such a service URL. -/
def twoRowStatement (address output address' publicKey' stakedTokens' : String) (actor : ActorRow)
    (schema : Schema) : Statement where
  lead := insertLead schema
  holes := [⟨address, ", "⟩, ⟨actor.publicKey, ", "⟩, ⟨actor.stakedTokens, ", "⟩, ⟨"u", ", "⟩,
    ⟨output, ", -1, -1, 2), ("⟩, ⟨address', ", "⟩, ⟨publicKey', ", "⟩, ⟨stakedTokens', ", "⟩,
    ⟨"u", ", "⟩, ⟨actor.outputAddress, insertEnding actor schema 2⟩]

section TwoRows

variable {t : ActorType} {address output address' publicKey' stakedTokens' : String}
  {actor row : ActorRow}

theorem insert_eq_twoRows
    (hurl : actor.serviceUrl = urlWithRow output address' publicKey' stakedTokens') :
    Sql.insert address actor [] t.schema 2
      = (twoRowStatement address output address' publicKey' stakedTokens' actor t.schema).render := by
  unfold Sql.insert insertStatement Statement.render twoRowStatement
  rw [if_pos rfl, hurl]
  unfold urlWithRow
  simp only [holesText, quoted, String.append_assoc, String.append_empty, -String.reduceAppend]

theorem codeTokens_comma : codeTokens ", " = [.symbol ','] :=
  (codeTokens_ofList _).trans (by decide)

/-- The last three columns of a row at height 2 without a paused and an unstaking height. -/
def heightTokens : List Token :=
  [.symbol ',', .symbol '-', .word ['1'], .symbol ',', .symbol '-', .word ['1'], .symbol ',',
    .word ['2'], .symbol ')']

theorem codeTokens_nextRow :
    codeTokens ", -1, -1, 2), (" = heightTokens ++ [.symbol ',', .symbol '('] :=
  (codeTokens_ofList _).trans (by decide)

theorem plain_conflictText (t : ActorType) : Plain (conflictText t.schema) := by
  unfold conflictText
  simp only [plain_append, plain_schema, and_true]
  and_intros
  all_goals exact plain_ofList.2 (by decide)

theorem codeTokens_insertEnding (hpaused : actor.pausedHeight = -1)
    (hunstaking : actor.unstakingHeight = -1) :
    codeTokens (insertEnding actor t.schema 2)
      = heightTokens ++ codeTokens (conflictText t.schema) := by
  have hsplit : insertEnding actor t.schema 2
      = ", -1, -1, 2)" ++ conflictText t.schema := by
    have hone : toString (-1 : ℤ) = "-1" := rfl
    have htwo : toString (2 : ℤ) = "2" := rfl
    have hnumbers : (", -1, -1, 2)" : String)
        = ", " ++ "-1" ++ ", " ++ "-1" ++ ", " ++ "2" ++ ")" := by simp
    rw [insertEnding, hpaused, hunstaking, hone, htwo, hnumbers]
  rw [hsplit]
  exact codeTokens_append rfl (plain_conflictText t)

/-- The row of the actor whose insert it was, as the service URL leaves it. -/
def firstRow (actor : ActorRow) (output : String) : ActorRow :=
  ⟨actor.publicKey, actor.stakedTokens, "u", output, -1, -1⟩

/-- The row that the service URL brings. -/
def secondRow (actor : ActorRow) (publicKey stakedTokens : String) : ActorRow :=
  ⟨publicKey, stakedTokens, "u", actor.outputAddress, -1, -1⟩

/-- A row after its parenthesis, at height 2. -/
def rowTokens (address : String) (row : ActorRow) : List Token :=
  [.literal address.toList, .symbol ',', .literal row.publicKey.toList, .symbol ',',
    .literal row.stakedTokens.toList, .symbol ',', .literal row.serviceUrl.toList, .symbol ',',
    .literal row.outputAddress.toList] ++ heightTokens

theorem tokens_twoRows (hpaused : actor.pausedHeight = -1) (hunstaking : actor.unstakingHeight = -1) :
    (twoRowStatement address output address' publicKey' stakedTokens' actor t.schema).tokens
      = codeTokens (insertLead t.schema) ++ (rowTokens address (firstRow actor output) ++
        .symbol ',' :: .symbol '(' :: (rowTokens address' (secondRow actor publicKey' stakedTokens') ++
          codeTokens (conflictText t.schema))) := by
  simp only [Statement.tokens, twoRowStatement, rowTokens, firstRow, secondRow, List.flatMap_cons,
    List.flatMap_nil, codeTokens_comma, codeTokens_nextRow,
    codeTokens_insertEnding hpaused hunstaking, List.cons_append, List.nil_append, List.append_assoc,
    List.append_nil]

theorem lex_twoRows (t : ActorType)
    (hplain : ∀ s ∈ [address, actor.publicKey, actor.stakedTokens, output, address', publicKey',
      stakedTokens', actor.outputAddress], Plain s) :
    lex (twoRowStatement address output address' publicKey' stakedTokens' actor t.schema).render
      = some (twoRowStatement address output address' publicKey' stakedTokens' actor
        t.schema).tokens := by
  have hcomma := separator_comma
  have hnext : Separator ", -1, -1, 2), (" := ⟨by decide, plain_ofList.2 (by decide)⟩
  have hending := separator_insertEnding 2 t actor
  have hu : Plain "u" := plain_ofList.2 (by decide)
  simp only [List.forall_mem_cons] at hplain
  obtain ⟨h₁, h₂, h₃, h₄, h₅, h₆, h₇, h₈, -⟩ := hplain
  have hwell : (twoRowStatement address output address' publicKey' stakedTokens' actor
      t.schema).WellFormed := by
    refine ⟨(plain_leads t).2.1, ?_⟩
    simp only [twoRowStatement, List.forall_mem_cons]
    exact ⟨hcomma, hcomma, hcomma, hcomma, hnext, hcomma, hcomma, hcomma, hcomma, hending,
      nofun⟩
  refine (lex_render_iff hwell).2 ?_
  simp only [twoRowStatement, List.forall_mem_cons]
  exact ⟨h₁, h₂, h₃, hu, h₄, h₅, h₆, h₇, hu, h₈, nofun⟩

theorem readActorRow_rowTokens (hpaused : row.pausedHeight = -1)
    (hunstaking : row.unstakingHeight = -1) (address : String) (rest : List Token) :
    readActorRow (rowTokens address row ++ rest) = some (⟨address, 2, row⟩, rest) := by
  have hone : Text.integer (String.ofList ['1']) = some 1 := by decide
  have htwo : Text.integer (String.ofList ['2']) = some 2 := by decide
  obtain ⟨publicKey, stakedTokens, serviceUrl, outputAddress, pausedHeight, unstakingHeight⟩ := row
  obtain rfl : pausedHeight = -1 := hpaused
  obtain rfl : unstakingHeight = -1 := hunstaking
  simp [rowTokens, heightTokens, readActorRow, readNumber, hone, htwo]

theorem exists_codeTokens_conflictText (t : ActorType) :
    ∃ ts, codeTokens (conflictText t.schema) = .word ['O', 'N'] :: ts := by
  have hplain := plain_conflictText t
  unfold conflictText at hplain ⊢
  simp only [String.append_assoc, -String.reduceAppend] at hplain ⊢
  exact ⟨_, @codeTokens_append _ [.word ['O', 'N'], .word "CONFLICT".toList, .word ['O', 'N'],
    .word "CONSTRAINT".toList] _ rfl (plain_append.1 hplain).2⟩

theorem readActorRows_two {row' : ActorRow} {address address' : String} {rest ts : List Token}
    (hrow : row.pausedHeight = -1 ∧ row.unstakingHeight = -1)
    (hrow' : row'.pausedHeight = -1 ∧ row'.unstakingHeight = -1)
    (hrest : rest = .word ['O', 'N'] :: ts) (rounds : ℕ) :
    readActorRows (rounds + 2) (rowTokens address row ++
        .symbol ',' :: .symbol '(' :: (rowTokens address' row' ++ rest))
      = some ([⟨address, 2, row⟩, ⟨address', 2, row'⟩], rest) := by
  simp only [readActorRows, readActorRow_rowTokens hrow.1 hrow.2,
    readActorRow_rowTokens hrow'.1 hrow'.2, Option.bind_eq_bind, Option.bind_some, hrest]
  rfl

/-- The second row is inserted like the first. -/
theorem insertingServer_twoRows {db : Database}
    (hurl : actor.serviceUrl = urlWithRow output address' publicKey' stakedTokens')
    (hpaused : actor.pausedHeight = -1) (hunstaking : actor.unstakingHeight = -1)
    (hplain : ∀ s ∈ [address, actor.publicKey, actor.stakedTokens, output, address', publicKey',
      stakedTokens', actor.outputAddress], Plain s) (hne : address ≠ address') :
    insertingServer t (Sql.insert address actor [] t.schema 2) db
      = (db.insertActor 2 t address (firstRow actor output) []).insertActor 2 t address'
        (secondRow actor publicKey' stakedTokens') [] := by
  have hlex := lex_twoRows t hplain
  rw [tokens_twoRows hpaused hunstaking, ← insert_eq_twoRows hurl] at hlex
  obtain ⟨ts, hconflict⟩ := exists_codeTokens_conflictText t
  generalize hbody : rowTokens address (firstRow actor output) ++ .symbol ',' :: .symbol '(' ::
    (rowTokens address' (secondRow actor publicKey' stakedTokens') ++
      codeTokens (conflictText t.schema)) = body at hlex
  obtain ⟨rounds, hrounds⟩ : ∃ rounds,
      (codeTokens (insertLead t.schema) ++ body).length = rounds + 2 := by
    refine ⟨(codeTokens (insertLead t.schema) ++ body).length - 2, ?_⟩
    rw [← hbody, List.length_append, List.length_append, List.length_cons, List.length_cons]
    omega
  have hread := @readActorRows_two (firstRow actor output)
    (secondRow actor publicKey' stakedTokens') address address' _ ts ⟨rfl, rfl⟩ ⟨rfl, rfl⟩ hconflict
    rounds
  rw [hbody, ← hrounds] at hread
  have hslots : ([⟨address, 2, firstRow actor output⟩,
      ⟨address', 2, secondRow actor publicKey' stakedTokens'⟩].map
        (Row.slot : Row String ℤ ActorRow → String × ℤ)).Nodup := by
    simp [Row.slot, hne]
  simp only [insertingServer, hlex, Option.bind_eq_bind, Option.bind_some, List.drop_left, hread,
    guard, List.prefix_append, if_true, hslots]
  rfl

end TwoRows

end Pocket.Utility
