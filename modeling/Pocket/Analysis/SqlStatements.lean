import Pocket.Library.SqlLexer
import Pocket.Utility.Context
import Pocket.Utility.SqlText

/-!
# The statements as fixed text with strings in it

Each text of `Pocket.Utility.SqlText` is the rendering of a statement: fixed text without
quotes, with strings put between quotes (`insert_eq_render` and its like).  So each lexes to its
own tokens exactly when none of its strings has a quote, and of those strings the addresses,
the keys and the parsed amounts never have one (`lex_insert_iff`, `lex_insertChains_iff`,
`lex_update_iff`, `lex_insertParamOrFlag_iff`).
-/

set_option autoImplicit false

namespace Pocket.Utility

open Model (Bytes)
open SqlLexer
open Text (hexEncode)

/-! ## Texts without quotes -/

/-- There is no quote in the text. -/
def Plain (s : String) : Prop := quote ∉ s.toList

/-- Plain texts can be recognised. -/
instance (s : String) : Decidable (Plain s) := inferInstanceAs (Decidable (_ ∉ _))

variable {s t : String}

/-- A text is plain if its parts are. -/
@[simp] theorem plain_append : Plain (s ++ t) ↔ Plain s ∧ Plain t := by
  simp [Plain]

/-- A literal is the text of its characters: they are looked at as they are, without decoding the
bytes of the text. -/
theorem plain_ofList {cs : List Char} : Plain (String.ofList cs) ↔ quote ∉ cs := by
  simp [Plain]

/-- Text that may stand after a string. -/
def Separator (s : String) : Prop := s ≠ "" ∧ Plain s

/-- Separators can be recognised. -/
instance (s : String) : Decidable (Separator s) := inferInstanceAs (Decidable (_ ∧ _))

/-- A separator may be continued. -/
theorem Separator.append (hs : Separator s) (ht : Plain t) : Separator (s ++ t) :=
  ⟨fun h => hs.1 (String.append_eq_empty_iff.1 h).1, plain_append.2 ⟨hs.2, ht⟩⟩

/-- Digits are no quotes. -/
theorem plain_of_isDigit (h : ∀ c ∈ s.toList, c.isDigit) : Plain s :=
  fun hquote => absurd (h quote hquote) (by decide)

/-- A number is printed without quotes. -/
@[simp] theorem plain_repr (n : ℤ) : Plain n.repr := by
  have hdigits : ∀ m : ℕ, Plain m.repr := by
    intro m
    refine plain_of_isDigit fun c hc => ?_
    rw [Nat.toList_repr] at hc
    exact Nat.isDigit_of_mem_toDigits (by decide) (by decide) hc
  cases n with
  | ofNat m => exact hdigits m
  | negSucc m => exact plain_append.2 ⟨by decide, hdigits _⟩

/-- The same for `toString`. -/
theorem plain_toString (n : ℤ) : Plain (toString n) := by
  rw [Int.toString_eq_repr]
  exact plain_repr n

/-- The text between two strings. -/
theorem separator_comma : Separator ", " := by decide

/-- A number between two strings. -/
theorem separator_number (n : ℤ) (hs : Plain s) : Separator (", " ++ toString n ++ s) :=
  (separator_comma.append (plain_toString n)).append hs

/-- Hexadecimal text has no quotes. -/
@[simp] theorem plain_hexEncode (bs : Bytes) : Plain (hexEncode bs) := by
  intro hquote
  obtain ⟨n, hn, hdigit⟩ := Text.exists_digitChar_of_mem_hexEncode hquote
  have hall : ∀ n < 16, quote ≠ n.digitChar := by decide
  exact hall n hn hdigit

/-- Text that parses as a number has no quotes. -/
theorem plain_of_stringToBigInt {n : ℤ} (h : stringToBigInt s = .ok n) : Plain s := by
  rw [stringToBigInt] at h
  split at h
  · next m hm =>
    intro hquote
    rcases Text.isDigit_or_sign_of_integer hm hquote with h | h | h
    · exact absurd h (by decide)
    · exact absurd h (by decide)
    · exact absurd h (by decide)
  · cases h

/-! ## The fixed text and the strings of each statement -/

namespace Sql

/-- The rows of the chains after the parenthesis that opens the first, up to `ending`. -/
def chainHoles (address : String) (height : ℤ) (ending : String) : List String → List Hole
  | [] => []
  | [chain] => [⟨address, ", "⟩, ⟨chain, ", " ++ toString height ++ ")" ++ ending⟩]
  | chain :: next :: chains =>
    ⟨address, ", "⟩ :: ⟨chain, ", " ++ toString height ++ ")" ++ "," ++ "\n("⟩ ::
      chainHoles address height ending (next :: chains)

/-- The insert of the chains. -/
def insertChainsStatement (address : String) (chains : List String) (height : ℤ)
    (tableName constraintName : String) : Statement :=
  if chains = [] then ⟨chainsLead tableName ++ chainsEnding constraintName, []⟩
  else ⟨chainsLead tableName ++ "\n(",
    chainHoles address height (chainsEnding constraintName) chains⟩

/-- The rows of the chains are their strings in fixed text. -/
theorem chainRows_append (address : String) (height : ℤ) (ending : String) {chains : List String}
    (hchains : chains ≠ []) :
    chainRows address height chains ++ ending
      = "\n(" ++ holesText (chainHoles address height ending chains) := by
  induction chains with
  | nil => exact absurd rfl hchains
  | cons chain chains ih =>
    cases chains with
    | nil =>
      simp only [-String.reduceAppend, chainRows, chainHoles, holesText, quoted, String.append_assoc,
        String.append_empty]
    | cons next chains =>
      have htail := ih (List.cons_ne_nil _ _)
      rw [chainRows, chainHoles, holesText, holesText, String.append_assoc, htail]
      simp only [-String.reduceAppend, quoted, String.append_assoc]

/-- `insertChains` sends this statement. -/
theorem insertChains_eq_render (address : String) (chains : List String) (height : ℤ)
    (tableName constraintName : String) :
    insertChains address chains height tableName constraintName
      = (insertChainsStatement address chains height tableName constraintName).render := by
  rw [insertChains, insertChainsStatement, String.append_assoc]
  by_cases hchains : chains = []
  · rw [if_pos hchains, hchains, chainRows, String.empty_append, Statement.render, holesText,
      String.append_empty]
  · rw [if_neg hchains, chainRows_append _ _ _ hchains, Statement.render, String.append_assoc]

/-- The strings of the insert, the last of them with `ending` after it. -/
def insertHoles (address : String) (actor : ActorRow) (ending : String) : List Hole :=
  [⟨address, ", "⟩, ⟨actor.publicKey, ", "⟩, ⟨actor.stakedTokens, ", "⟩, ⟨actor.serviceUrl, ", "⟩,
    ⟨actor.outputAddress, ending⟩]

/-- The insert of an actor, with its chains if there are any. -/
def insertStatementOf (address : String) (actor : ActorRow) (chains : List String)
    (schema : Schema) (height : ℤ) : Statement :=
  let ending := insertEnding actor schema height
  if chains = [] then ⟨insertLead schema, insertHoles address actor ending⟩
  else
    ⟨"WITH baseTableInsert AS (" ++ insertLead schema,
      insertHoles address actor (ending ++ ")\n" ++ chainsLead schema.chainsTableName ++ "\n(") ++
        chainHoles address height (chainsEnding schema.chainsHeightConstraintName) chains⟩

/-- The insert of the row alone, with a text after it. -/
theorem insertStatement_append (address : String) (actor : ActorRow) (schema : Schema) (height : ℤ)
    (rest : String) :
    insertStatement address actor schema height ++ rest = insertLead schema ++
      holesText (insertHoles address actor (insertEnding actor schema height ++ rest)) := by
  unfold insertStatement insertHoles
  simp only [holesText, quoted, String.append_assoc, String.append_empty, -String.reduceAppend]

/-- `insert` sends this statement. -/
theorem insert_eq_render (address : String) (actor : ActorRow) (chains : List String)
    (schema : Schema) (height : ℤ) :
    insert address actor chains schema height
      = (insertStatementOf address actor chains schema height).render := by
  rw [insert, insertStatementOf]
  by_cases hchains : chains = []
  · have hbase := insertStatement_append address actor schema height ""
    rw [String.append_empty, String.append_empty] at hbase
    rw [if_pos hchains, if_pos hchains, Statement.render, hbase]
  · have hbase := insertStatement_append address actor schema height
      (")\n" ++ chainsLead schema.chainsTableName ++ "\n(")
    have hrows := chainRows_append address height
      (chainsEnding schema.chainsHeightConstraintName) hchains
    rw [if_neg hchains, if_neg hchains, Statement.render, holesText_append, insertChains]
    have htext := congrArg (· ++ holesText (chainHoles address height
      (chainsEnding schema.chainsHeightConstraintName) chains)) hbase
    simp only [String.append_assoc, -String.reduceAppend] at htext ⊢
    rw [hrows, htext]

/-- The update of a stake and its service URL. -/
def updateStatement (address stakedTokens actorSpecificParamValue : String) (schema : Schema)
    (height : ℤ) : Statement :=
  ⟨updateLead schema, [⟨stakedTokens, ", "⟩, ⟨actorSpecificParamValue, updateFrom schema height⟩,
    ⟨address, updateEnding schema height⟩]⟩

/-- `update` sends this statement. -/
theorem update_eq_render (address stakedTokens actorSpecificParamValue : String)
    (schema : Schema) (height : ℤ) :
    update address stakedTokens actorSpecificParamValue schema height
      = (updateStatement address stakedTokens actorSpecificParamValue schema height).render := by
  unfold update updateStatement Statement.render
  simp only [holesText, quoted, String.append_assoc, String.append_empty, -String.reduceAppend]

/-- The update of the stake alone. -/
def stakeAmountStatement (address stakeAmount : String) (schema : Schema) (height : ℤ) : Statement :=
  ⟨stakeAmountLead schema, [⟨stakeAmount, stakeAmountFrom schema height⟩,
    ⟨address, stakeAmountEnding schema height⟩]⟩

/-- `updateStakeAmount` sends this statement. -/
theorem updateStakeAmount_eq_render (address stakeAmount : String) (schema : Schema) (height : ℤ) :
    updateStakeAmount address stakeAmount schema height
      = (stakeAmountStatement address stakeAmount schema height).render := by
  unfold updateStakeAmount stakeAmountStatement Statement.render
  simp only [holesText, quoted, String.append_assoc, String.append_empty, -String.reduceAppend]

/-- The type of a parameter, its value, and `ending`. -/
def paramHoles (ending : String) : ParamValue → List Hole
  | .smallInt v => [⟨"SMALLINT", ", " ++ toString v ++ ending⟩]
  | .bigInt v => [⟨"BIGINT", ", " ++ toString v ++ ending⟩]
  | .bytes v => [⟨"BIGINT", ", "⟩, ⟨hexEncode v, ending⟩]
  | .string v => [⟨"STRING", ", "⟩, ⟨v, ending⟩]

/-- The insert of a parameter or a flag. -/
def paramStatement (tableName name : String) (height : ℤ) (value : ParamValue)
    (enabled : Option Bool) : Statement :=
  ⟨paramLead tableName, ⟨name, ", " ++ toString height ++ ", "⟩ ::
    paramHoles (paramEnding tableName enabled) value⟩

/-- `insertParamOrFlag` sends this statement. -/
theorem insertParamOrFlag_eq_render (tableName name : String) (height : ℤ) (value : ParamValue)
    (enabled : Option Bool) :
    insertParamOrFlag tableName name height value enabled
      = (paramStatement tableName name height value enabled).render := by
  have hvalue : ∀ ending, paramValue value ++ ending = holesText (paramHoles ending value) := by
    intro ending
    cases value with
    | smallInt v | bigInt v | bytes v | string v =>
      simp only [paramValue, paramHoles, holesText, quoted, String.append_assoc,
        String.append_empty, -String.reduceAppend]
  unfold insertParamOrFlag paramStatement Statement.render
  simp only [holesText, ← hvalue, quoted, String.append_assoc, -String.reduceAppend]

/-! ## Well-formedness -/

variable (height : ℤ) (t : ActorType) {address ending : String}

/-- The names of a schema. -/
theorem plain_schema :
    Plain t.schema.tableName ∧ Plain t.schema.chainsTableName ∧
      Plain t.schema.actorSpecificColName ∧ Plain t.schema.heightConstraintName ∧
      Plain t.schema.chainsHeightConstraintName := by
  cases t with
  | app | servicer | fish | val =>
    and_intros
    all_goals exact plain_ofList.2 (by decide)

/-- The texts that the statements begin with. -/
theorem plain_leads :
    Plain (chainsLead t.schema.chainsTableName) ∧ Plain (insertLead t.schema) ∧
      Plain (updateLead t.schema) ∧ Plain (stakeAmountLead t.schema) := by
  unfold chainsLead insertLead updateLead stakeAmountLead
  simp only [plain_append, plain_schema, and_true]
  and_intros
  all_goals exact plain_ofList.2 (by decide)

/-- The text after the chains. -/
theorem plain_chainsEnding : Plain (chainsEnding t.schema.chainsHeightConstraintName) := by
  unfold chainsEnding
  simp only [plain_append, plain_schema, and_true]
  and_intros
  all_goals exact plain_ofList.2 (by decide)

/-- The text after the strings of an actor. -/
theorem separator_insertEnding (actor : ActorRow) :
    Separator (insertEnding actor t.schema height) := by
  unfold insertEnding conflictText
  simp only [Separator, ne_eq, plain_append, plain_toString, plain_schema,
    String.append_eq_empty_iff, and_true]
  and_intros
  · simp
  all_goals exact plain_ofList.2 (by decide)

/-- The texts that stand after the strings of an update. -/
theorem separators_update :
    Separator (updateFrom t.schema height) ∧ Separator (updateEnding t.schema height) ∧
      Separator (stakeAmountFrom t.schema height) ∧
      Separator (stakeAmountEnding t.schema height) := by
  unfold updateFrom updateEnding stakeAmountFrom stakeAmountEnding
  simp only [Separator, ne_eq, plain_append, plain_toString, plain_schema,
    String.append_eq_empty_iff, and_true]
  and_intros
  all_goals first
    | exact plain_ofList.2 (by decide)
    | simp

/-- The text before a parameter. -/
theorem plain_paramLead : Plain (paramLead paramsTableName) := by
  unfold paramLead paramsTableName
  simp only [plain_append]
  and_intros
  all_goals exact plain_ofList.2 (by decide)

/-- The text after a parameter. -/
theorem separator_paramEnding : Separator (paramEnding paramsTableName none) := by
  unfold paramEnding paramsTableName
  simp only [Separator, plain_append]
  and_intros
  · decide
  all_goals exact plain_ofList.2 (by decide)

/-- What stands after the strings of the chains. -/
theorem after_chainHoles (address : String) (hending : Plain ending) :
    ∀ (chains : List String), ∀ h ∈ chainHoles address height ending chains, Separator h.after
  | [] => nofun
  | [chain] => by
    simp only [chainHoles, List.forall_mem_cons]
    have hlast := (separator_number height (s := ")") (by decide)).append hending
    exact ⟨separator_comma, hlast, nofun⟩
  | chain :: next :: chains => by
    simp only [chainHoles, List.forall_mem_cons]
    have hnext := ((separator_number height (s := ")") (by decide)).append
      (t := ",") (by decide)).append (t := "\n(") (by decide)
    exact ⟨separator_comma, hnext, after_chainHoles address hending (next :: chains)⟩

/-- What stands after the strings of an actor. -/
theorem after_insertHoles (address : String) (actor : ActorRow) (hending : Separator ending) :
    ∀ h ∈ insertHoles address actor ending, Separator h.after := by
  simp only [insertHoles, List.forall_mem_cons]
  exact ⟨separator_comma, separator_comma, separator_comma, separator_comma, hending,
    nofun⟩

/-- The strings of an insert can be told apart. -/
theorem wellFormed_insert (address : String) (actor : ActorRow) (chains : List String) :
    (insertStatementOf address actor chains t.schema height).WellFormed := by
  have hlead := (plain_leads t).2.1
  have hending := separator_insertEnding height t actor
  rw [insertStatementOf]
  by_cases hchains : chains = []
  · rw [if_pos hchains]
    exact ⟨hlead, after_insertHoles address actor hending⟩
  · rw [if_neg hchains]
    refine ⟨plain_append.2 ⟨by decide, hlead⟩, fun h hh => ?_⟩
    rcases List.mem_append.1 hh with hh | hh
    · refine after_insertHoles address actor ?_ h hh
      exact ((hending.append (by decide)).append (plain_leads t).1).append (by decide)
    · exact after_chainHoles height address (plain_chainsEnding t) chains h hh

/-- The strings of the chains can be told apart. -/
theorem wellFormed_insertChains (address : String) (chains : List String) :
    (insertChainsStatement address chains height t.schema.chainsTableName
      t.schema.chainsHeightConstraintName).WellFormed := by
  have hlead := (plain_leads t).1
  rw [insertChainsStatement]
  by_cases hchains : chains = []
  · rw [if_pos hchains]
    exact ⟨plain_append.2 ⟨hlead, plain_chainsEnding t⟩, nofun⟩
  · rw [if_neg hchains]
    exact ⟨plain_append.2 ⟨hlead, by decide⟩,
      after_chainHoles height address (plain_chainsEnding t) chains⟩

/-- The strings of an update can be told apart. -/
theorem wellFormed_update (address stakedTokens actorSpecificParamValue : String) :
    (updateStatement address stakedTokens actorSpecificParamValue t.schema height).WellFormed := by
  obtain ⟨hfrom, hending, -⟩ := separators_update height t
  refine ⟨(plain_leads t).2.2.1, ?_⟩
  simp only [updateStatement, List.forall_mem_cons]
  exact ⟨separator_comma, hfrom, hending, nofun⟩

/-- The strings of an update of the stake can be told apart. -/
theorem wellFormed_stakeAmount (address stakeAmount : String) :
    (stakeAmountStatement address stakeAmount t.schema height).WellFormed := by
  obtain ⟨-, -, hfrom, hending⟩ := separators_update height t
  refine ⟨(plain_leads t).2.2.2, ?_⟩
  simp only [stakeAmountStatement, List.forall_mem_cons]
  exact ⟨hfrom, hending, nofun⟩

/-- The strings of a parameter can be told apart. -/
theorem wellFormed_param (name : String) (value : ParamValue) :
    (paramStatement paramsTableName name height value none).WellFormed := by
  have hending := separator_paramEnding
  refine ⟨plain_paramLead, List.forall_mem_cons.2 ⟨separator_number height (by decide), ?_⟩⟩
  generalize paramEnding paramsTableName none = ending at hending
  cases value with
  | smallInt v | bigInt v => exact List.forall_mem_singleton.2 (separator_number v hending.2)
  | bytes v | string v =>
    exact List.forall_mem_cons.2 ⟨separator_comma, List.forall_mem_singleton.2 hending⟩

/-! ## When a statement is intact -/

/-- The strings of the chains are the address and the chains. -/
theorem chainHoles_plain_iff (haddress : Plain address) :
    ∀ chains : List String, (∀ h ∈ chainHoles address height ending chains, Plain h.value) ↔
      ∀ chain ∈ chains, Plain chain
  | [] => iff_of_true nofun nofun
  | [chain] => by
    simp only [chainHoles, List.forall_mem_cons, haddress, true_and]
    exact and_congr_right fun _ => iff_of_true nofun nofun
  | chain :: next :: chains => by
    rw [chainHoles, List.forall_mem_cons, List.forall_mem_cons, List.forall_mem_cons,
      chainHoles_plain_iff haddress (next :: chains)]
    exact and_iff_right haddress

/-- Of the strings of an insert, only the service URL and the chains may have quotes: the rest
are hexadecimal or an amount that was parsed. -/
theorem lex_insert_iff {actor : ActorRow} {chains : List String} (haddress : Plain address)
    (hkey : Plain actor.publicKey) (hstake : Plain actor.stakedTokens)
    (houtput : Plain actor.outputAddress) :
    lex (insert address actor chains t.schema height)
        = some (insertStatementOf address actor chains t.schema height).tokens
      ↔ Plain actor.serviceUrl ∧ ∀ chain ∈ chains, Plain chain := by
  have hbase : ∀ ending, (∀ h ∈ insertHoles address actor ending, Plain h.value) ↔
      Plain actor.serviceUrl := by
    intro ending
    simp only [insertHoles, List.forall_mem_cons, haddress, hkey, hstake, houtput, true_and]
    exact and_iff_left nofun
  rw [insert_eq_render]
  refine (lex_render_iff (wellFormed_insert height t address actor chains)).trans ?_
  rw [insertStatementOf]
  by_cases hchains : chains = []
  · rw [if_pos hchains, hchains]
    exact (hbase _).trans (and_iff_left nofun).symm
  · rw [if_neg hchains, ← chainHoles_plain_iff height haddress chains]
    exact List.forall_mem_append.trans (and_congr_left' (hbase _))

/-- An insert of chains is intact if no chain has a quote. -/
theorem lex_insertChains_iff {chains : List String} (haddress : Plain address) :
    lex (insertChains address chains height t.schema.chainsTableName
          t.schema.chainsHeightConstraintName)
        = some (insertChainsStatement address chains height t.schema.chainsTableName
          t.schema.chainsHeightConstraintName).tokens
      ↔ ∀ chain ∈ chains, Plain chain := by
  rw [insertChains_eq_render]
  refine (lex_render_iff (wellFormed_insertChains height t address chains)).trans ?_
  rw [insertChainsStatement]
  by_cases hchains : chains = []
  · rw [if_pos hchains, hchains]
    exact iff_of_true nofun nofun
  · rw [if_neg hchains]
    exact chainHoles_plain_iff height haddress chains

/-- An update is intact if the service URL has no quote. -/
theorem lex_update_iff {stakedTokens serviceUrl : String} (haddress : Plain address)
    (hstake : Plain stakedTokens) :
    lex (update address stakedTokens serviceUrl t.schema height)
        = some (updateStatement address stakedTokens serviceUrl t.schema height).tokens
      ↔ Plain serviceUrl := by
  rw [update_eq_render]
  refine (lex_render_iff (wellFormed_update height t address stakedTokens serviceUrl)).trans ?_
  simp only [updateStatement, List.forall_mem_cons]
  exact (and_iff_right hstake).trans
    (and_iff_left ⟨haddress, nofun⟩)

/-- An update of the stake is intact if the amount has no quote. -/
theorem lex_updateStakeAmount_iff {stakeAmount : String} (haddress : Plain address) :
    lex (updateStakeAmount address stakeAmount t.schema height)
        = some (stakeAmountStatement address stakeAmount t.schema height).tokens
      ↔ Plain stakeAmount := by
  rw [updateStakeAmount_eq_render]
  refine (lex_render_iff (wellFormed_stakeAmount height t address stakeAmount)).trans ?_
  simp only [stakeAmountStatement, List.forall_mem_cons]
  exact and_iff_left ⟨haddress, nofun⟩

/-- An insert of a parameter is intact if its name and a string value have no quote. -/
theorem lex_insertParamOrFlag_iff {name : String} {value : ParamValue} :
    lex (insertParamOrFlag paramsTableName name height value none)
        = some (paramStatement paramsTableName name height value none).tokens
      ↔ Plain name ∧ ∀ v, value = .string v → Plain v := by
  rw [insertParamOrFlag_eq_render]
  refine (lex_render_iff (wellFormed_param height name value)).trans ?_
  refine List.forall_mem_cons.trans (and_congr_right fun _ => ?_)
  have hsmall : Plain "SMALLINT" := by decide
  have hbig : Plain "BIGINT" := by decide
  have hstring : Plain "STRING" := by decide
  cases value with
  | smallInt v => exact iff_of_true (List.forall_mem_singleton.2 hsmall) nofun
  | bigInt v => exact iff_of_true (List.forall_mem_singleton.2 hbig) nofun
  | bytes v =>
    exact iff_of_true
      (List.forall_mem_cons.2 ⟨hbig, List.forall_mem_singleton.2 (plain_hexEncode v)⟩) nofun
  | string v =>
    have hvalue : (∀ w, ParamValue.string v = .string w → Plain w) ↔ Plain v := by simp
    rw [hvalue]
    exact List.forall_mem_cons.trans ((and_iff_right hstring).trans List.forall_mem_singleton)

end Sql

end Pocket.Utility
