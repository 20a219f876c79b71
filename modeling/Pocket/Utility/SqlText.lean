import Pocket.Utility.Database

/-!
# The texts of the statements

The statements that carry strings of their callers to the database, as they are printed: the
insert and the update of an actor, its stake, the rows of its chains, and a parameter.  `quoted`
is the template's `'%s'`, which puts a string between quotes as it is.

`Update.sqlText` says which text an update of the store is sent as.  Updates whose statements
carry only hexadecimal addresses and numbers have none here; the stake that the utility module
sets is such a number.
-/

set_option autoImplicit false

namespace Pocket.Utility

/-- The `'%s'` of a template. -/
def quoted (s : String) : String := "'" ++ s ++ "'"

/-! ## Schemas -/

/-- SOURCE: persistence/types/base_actor.go:14-30 -/
structure Schema where
  tableName : String
  chainsTableName : String
  actorSpecificColName : String
  heightConstraintName : String
  chainsHeightConstraintName : String

/-- SOURCE: persistence/types/application.go:15-34, servicer.go:11-30, fisherman.go:11-30,
validator.go:7-30 -/
def ActorType.schema : ActorType → Schema
  | app => ⟨"app", "app_chains", "unused", "app_height", "app_chain_height"⟩
  | servicer =>
    ⟨"servicer", "servicer_chains", "service_url", "servicer_height", "servicer_chain_height"⟩
  | fish =>
    ⟨"fisherman", "fisherman_chains", "service_url", "fisherman_height", "fisherman_chain_height"⟩
  | val => ⟨"validator", "", "service_url", "validator_node_height", ""⟩

namespace Sql

/-! ## Actors -/

/-- SOURCE: persistence/types/actor_shared_sql.go:149 -/
def chainsLead (tableName : String) : String :=
  "INSERT INTO " ++ tableName ++ " (address, chain_id, height) VALUES"

/-- SOURCE: persistence/types/actor_shared_sql.go:152-157 -/
def chainRows (address : String) (height : ℤ) : List String → String
  | [] => ""
  | [chain] => "\n(" ++ quoted address ++ ", " ++ quoted chain ++ ", " ++ toString height ++ ")"
  | chain :: next :: chains =>
    "\n(" ++ quoted address ++ ", " ++ quoted chain ++ ", " ++ toString height ++ ")" ++ "," ++
      chainRows address height (next :: chains)

/-- SOURCE: persistence/types/actor_shared_sql.go:159 -/
def chainsEnding (constraintName : String) : String :=
  "\nON CONFLICT ON CONSTRAINT " ++ constraintName ++ " DO NOTHING"

/-- SOURCE: persistence/types/actor_shared_sql.go:146-162 -/
def insertChains (address : String) (chains : List String) (height : ℤ)
    (tableName constraintName : String) : String :=
  chainsLead tableName ++ chainRows address height chains ++ chainsEnding constraintName

/-- The insert up to its strings. -/
def insertLead (schema : Schema) : String :=
  "INSERT INTO " ++ schema.tableName ++ " (address, public_key, staked_tokens, " ++
    schema.actorSpecificColName ++
    ", output_address, paused_height, unstaking_height, height)\n\t\t\t\tVALUES("

/-- The insert after its row. -/
def conflictText (schema : Schema) : String :=
  "\n\t\t\t\tON CONFLICT ON CONSTRAINT " ++ schema.heightConstraintName ++
    "\n\t\t\t\tDO UPDATE SET staked_tokens=EXCLUDED.staked_tokens, " ++
    schema.actorSpecificColName ++ "=EXCLUDED." ++ schema.actorSpecificColName ++
    ",\n\t\t\t\t\t\t\t  paused_height=EXCLUDED.paused_height, " ++
    "unstaking_height=EXCLUDED.unstaking_height,\n\t\t\t\t\t\t\t  height=EXCLUDED.height"

/-- The insert after its strings. -/
def insertEnding (actor : ActorRow) (schema : Schema) (height : ℤ) : String :=
  ", " ++ toString actor.pausedHeight ++ ", " ++ toString actor.unstakingHeight ++ ", " ++
    toString height ++ ")" ++ conflictText schema

/-- SOURCE: persistence/types/actor_shared_sql.go:125-136 -/
def insertStatement (address : String) (actor : ActorRow) (schema : Schema) (height : ℤ) :
    String :=
  insertLead schema ++ quoted address ++ ", " ++ quoted actor.publicKey ++ ", " ++
    quoted actor.stakedTokens ++ ", " ++ quoted actor.serviceUrl ++ ", " ++
    quoted actor.outputAddress ++ insertEnding actor schema height

/-- SOURCE: persistence/types/actor_shared_sql.go:119-144 -/
def insert (address : String) (actor : ActorRow) (chains : List String) (schema : Schema)
    (height : ℤ) : String :=
  if chains = [] then insertStatement address actor schema height
  else "WITH baseTableInsert AS (" ++ insertStatement address actor schema height ++ ")\n" ++
    insertChains address chains height schema.chainsTableName schema.chainsHeightConstraintName

/-- The update up to its new values. -/
def updateLead (schema : Schema) : String :=
  "INSERT INTO " ++ schema.tableName ++ "(address, public_key, staked_tokens, " ++
    schema.actorSpecificColName ++
    ", output_address, paused_height, unstaking_height, height)\n\t\t\t(\n\t\t\t\t" ++
    "SELECT address, public_key, "

/-- The row that the other columns are taken from. -/
def updateFrom (schema : Schema) (height : ℤ) : String :=
  ", output_address, paused_height, unstaking_height, " ++ toString height ++
    "\n\t\t\t\tFROM " ++ schema.tableName ++ " WHERE address="

def updateEnding (schema : Schema) (height : ℤ) : String :=
  " AND height<=" ++ toString height ++
    " ORDER BY height DESC LIMIT 1\n\t\t\t)\n\t\t    ON CONFLICT ON CONSTRAINT " ++
    schema.heightConstraintName ++
    "\n\t\t\tDO UPDATE SET staked_tokens=EXCLUDED.staked_tokens, " ++
    schema.actorSpecificColName ++ "=EXCLUDED." ++ schema.actorSpecificColName ++
    ", height=EXCLUDED.height"

/-- SOURCE: persistence/types/actor_shared_sql.go:164-178 -/
def update (address stakedTokens actorSpecificParamValue : String) (schema : Schema)
    (height : ℤ) : String :=
  updateLead schema ++ quoted stakedTokens ++ ", " ++ quoted actorSpecificParamValue ++
    updateFrom schema height ++ quoted address ++ updateEnding schema height

/-- The update of a stake up to its new value. -/
def stakeAmountLead (schema : Schema) : String :=
  "\n\t\tINSERT INTO " ++ schema.tableName ++ "(address, public_key, staked_tokens, " ++
    schema.actorSpecificColName ++
    ", output_address, paused_height, unstaking_height, height)\n\t\t(\n\t\t\t" ++
    "SELECT address, public_key, "

/-- The row that the other columns are taken from. -/
def stakeAmountFrom (schema : Schema) (height : ℤ) : String :=
  ", " ++ schema.actorSpecificColName ++
    ", output_address, paused_height, unstaking_height, " ++ toString height ++
    "\n\t\t\tFROM " ++ schema.tableName ++ " WHERE address="

def stakeAmountEnding (schema : Schema) (height : ℤ) : String :=
  " AND height<=" ++ toString height ++
    " ORDER BY height DESC LIMIT 1\n\t\t)\n\t\tON CONFLICT ON CONSTRAINT " ++
    schema.heightConstraintName ++
    "\n\t\t\tDO UPDATE SET staked_tokens=EXCLUDED.staked_tokens, height=EXCLUDED.height"

/-- SOURCE: persistence/types/actor_shared_sql.go:195-208 -/
def updateStakeAmount (address stakeAmount : String) (schema : Schema) (height : ℤ) : String :=
  stakeAmountLead schema ++ quoted stakeAmount ++ stakeAmountFrom schema height ++ quoted address ++
    stakeAmountEnding schema height

/-! ## Parameters -/

def paramsTableName : String := "params"

def flagsTableName : String := "flags"

/-- The type of a value and the value.
SOURCE: persistence/types/gov.go:119-130 -/
def paramValue : ParamValue → String
  | .smallInt v => quoted "SMALLINT" ++ ", " ++ toString v
  | .bigInt v => quoted "BIGINT" ++ ", " ++ toString v
  | .bytes v => quoted "BIGINT" ++ ", " ++ quoted (Text.hexEncode v)
  | .string v => quoted "STRING" ++ ", " ++ quoted v

/-- The statement up to the name, with the columns of the table.
SOURCE: persistence/types/gov.go:109-116 -/
def paramLead (tableName : String) : String :=
  "INSERT INTO " ++ tableName ++ "(" ++ "name,height,type,value" ++
    (if tableName = flagsTableName then ",enabled" else "") ++ ") VALUES ("

/-- The statement after the value.
SOURCE: persistence/types/gov.go:110-114, 132-140 -/
def paramEnding (tableName : String) (enabled : Option Bool) : String :=
  (match enabled with | some b => "," ++ toString b | none => "") ++ ")" ++
    "ON CONFLICT ON CONSTRAINT " ++ tableName ++ "_pkey" ++ " DO UPDATE SET " ++
    "type=EXCLUDED.type,value=EXCLUDED.value" ++
    (if tableName = flagsTableName then ",enabled=EXCLUDED.enabled" else "")

/-- SOURCE: persistence/types/gov.go:108-141 -/
def insertParamOrFlag (tableName name : String) (height : ℤ) (value : ParamValue)
    (enabled : Option Bool) : String :=
  paramLead tableName ++ quoted name ++ ", " ++ toString height ++ ", " ++ paramValue value ++
    paramEnding tableName enabled

end Sql

/-! ## Updates -/

/-- The text that an update is sent as.  A validator has no chains: its insert leaves them out,
and its schema has no statement for them.
SOURCE: persistence/types/base_actor.go:92-110, validator.go:32-50, persistence/gov.go:111-127 -/
def Update.sqlText (height : ℤ) : Update → Option String
  | .insertActor t address row chains =>
    some (Sql.insert address row (if t = .val then [] else chains) t.schema height)
  | .updateActor t address stakedTokens serviceUrl =>
    some (Sql.update address stakedTokens serviceUrl t.schema height)
  | .insertChains t address chains =>
    if t = .val then none
    else some (Sql.insertChains address chains height t.schema.chainsTableName
      t.schema.chainsHeightConstraintName)
  | .setParam name value => some (Sql.insertParamOrFlag Sql.paramsTableName name height value none)
  | _ => none

end Pocket.Utility
