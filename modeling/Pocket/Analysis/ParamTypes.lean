import Pocket.Analysis.TransactionOutcome
import Pocket.Utility.Governance

/-!
# Whether parameters keep their types

Blocks and sessions read parameters with the parser of the type that `govParamTypes` gives them;
one parameter is a divisor and one a percentage.  `ParamsTyped` says that every stored value
serves its reader.  The handler of a change stores the text of whatever value the message
carries, so along a sequence of executed changes this stays true exactly when every change
carries a value that serves (`params_stay_typed_iff`), and in a state where it is true neither
the beginning nor the end of a block nor the making of a session fails over a parameter
(`serves_of_paramsTyped`).
-/

set_option autoImplicit false

namespace Pocket.Utility

open Model (Bytes int64)
open StoreProgram StoreProgram.Prog VersionedTable GovParamType
open Text (hexEncode hexDecode)

variable {P : Platform} {height : ℤ}

/-! ## Values that serve their readers -/

/-- The text `value` serves the readers of the parameter `name`. -/
structure WellTyped (name value : String) : Prop where
  parses : ∀ type, (name, type) ∈ govParamTypes → type.parses value = true
  blocksPerSession : name = blocksPerSessionParamName → ∃ n, atoi value = .ok n ∧ 0 < n
  proposerPercentage : name = proposerPercentageOfFeesParamName →
    ∃ n, atoi value = .ok n ∧ 0 ≤ n ∧ n ≤ 100

/-- Every parameter that has a type has a value that serves, and nothing is written ahead of the
height. -/
structure ParamsTyped (height : ℤ) (db : Database) : Prop where
  current : db.params.UpTo height
  stored : ∀ p ∈ govParamTypes, ∃ value, db.params.lookup p.1 height = some value ∧
    WellTyped p.1 value

variable {db : Database} {height' : ℤ} {name : String} {db' : Database} {tx : Transaction}
  {view : Database → Database}

theorem ParamsTyped.mono (h : ParamsTyped height db)
    (hle : height ≤ height') : ParamsTyped height' db := by
  refine ⟨h.current.mono hle, fun p hp => ?_⟩
  rw [h.current.lookup_eq hle]
  exact h.stored p hp

/-- A parameter without a type has no reader to serve. -/
theorem wellTyped_of_untyped {value : String} (h : ∀ p ∈ govParamTypes, p.1 ≠ name) :
    WellTyped name value := by
  have hblocks : (blocksPerSessionParamName, int) ∈ govParamTypes := by decide +kernel
  have hproposer : (proposerPercentageOfFeesParamName, int) ∈ govParamTypes := by
    decide +kernel
  refine ⟨fun type hmem => ?_, fun hname => ?_, fun hname => ?_⟩
  · exact absurd rfl (h _ hmem)
  · exact absurd hname.symm (h _ hblocks)
  · exact absurd hname.symm (h _ hproposer)

/-- Writing one parameter keeps all of them typed exactly when the new text serves. -/
theorem paramsTyped_upsert_iff {value : String} (h : ParamsTyped height db) (hle : height ≤ height')
    (hparams : db'.params = db.params.upsert name height' value) :
    ParamsTyped height' db' ↔ WellTyped name value := by
  have hlater := h.mono hle
  constructor
  · intro hafter
    by_cases htyped : ∀ p ∈ govParamTypes, p.1 ≠ name
    · exact wellTyped_of_untyped htyped
    · push Not at htyped
      obtain ⟨p, hp, hname⟩ := htyped
      obtain ⟨stored, hlookup, hstored⟩ := hafter.stored p hp
      rw [hparams, hname, Table.lookup_upsert_self, Option.some.injEq] at hlookup
      rw [hlookup, ← hname]
      exact hstored
  · intro hvalue
    refine ⟨hparams ▸ hlater.current.upsert name value, fun p hp => ?_⟩
    rw [hparams, Table.lookup_upsert]
    by_cases hname : p.1 = name
    · rw [if_pos hname]
      exact ⟨value, rfl, hname ▸ hvalue⟩
    · rw [if_neg hname]
      exact hlater.stored p hp

/-! ## One executed change -/

/-- Up to the fee a transaction with the message `msg` touches no parameter. -/
theorem succeeds_basicValidateTransaction_params {msg : Message} (hdecoded : P.fromAny tx.msg = .ok (.utility msg)) :
    Succeeds (store height) view (basicValidateTransaction P tx)
      (fun handled db' => (∃ signer, handled = msg.setSigner signer) ∧ db'.params = db.params)
      db := by
  have hevery := @every_basicValidateTransaction P
    (fun w => ∀ s, s.params = db.params → (apply height s w).params = db.params) tx
    (fun _ _ _ h => h) fun _ _ _ h => h
  intro fails r db' hexec handled hhandled
  have hkept : Keeps (store height) view (basicValidateTransaction P tx)
      (fun s => s.params = db.params) db := keeps_of_every hevery (fun w s hw hs => hw s hs) rfl
  obtain ⟨msg', signer, hdecoded', rfl, -⟩ := of_exec hevery hexec handled hhandled
  rw [hdecoded] at hdecoded'
  cases hdecoded'
  exact ⟨⟨signer, rfl⟩, hkept fails r db' hexec⟩

variable {m : MessageChangeParameter}

/-- The handler of a change stores the text of the value, or returns an error with a code. -/
theorem ends_handleMessageChangeParameter :
    Ends (store height) view (handleMessageChangeParameter P m).run
      (fun r db' => match r with
        | .error e => e.code ≠ 0
        | .ok _ => ∃ value text, P.fromAny m.parameterValue = .ok value ∧
            value.paramText = some text ∧
            db'.params = db.params.upsert m.parameterKey height text) db := by
  have hset : ∀ value : ParamValue,
      Ends (store height) view
        (wrap errUpdateParam (perform (.setParam m.parameterKey value)) : Uow Unit).run
        (fun r db' => match r with
          | .error e => e.code ≠ 0
          | .ok _ => db'.params = db.params.upsert m.parameterKey height value.text) db := by
    intro value
    refine ends_update.2 ⟨fun e => ends_ret.2 ?_, ends_ret.2 rfl⟩
    exact Nat.succ_ne_zero _
  rw [handleMessageChangeParameter]
  cases hvalue : P.fromAny m.parameterValue with
  | error e => exact ends_ret.2 (Nat.succ_ne_zero _)
  | ok value =>
    have hstore : ∀ stored : ParamValue, value.paramText = some stored.text →
        Ends (store height) view
          (wrap errUpdateParam (perform (.setParam m.parameterKey stored)) : Uow Unit).run
          (fun r db' => match r with
            | .error e => e.code ≠ 0
            | .ok _ => ∃ value' text, (Except.ok value : Except String _) = .ok value' ∧
                value'.paramText = some text ∧
                db'.params = db.params.upsert m.parameterKey height text) db := by
      intro stored htext
      refine ends_mono (hset stored) fun r db' hr => ?_
      cases r with
      | error e => exact hr
      | ok u => exact ⟨value, stored.text, rfl, htext, hr⟩
    cases value with
    | int32Value v => exact hstore (.smallInt v) rfl
    | stringValue v => exact hstore (.string v) rfl
    | bytesValue v => exact hstore (.bytes v) rfl
    | utility msg | other => exact fun _ _ _ hexec => by cases hexec

variable {index : ℤ}

theorem resultCode_of_txToIdxTx {msg : Message} {e : Error} {idx : IndexedTransaction}
    (h : txToIdxTx P tx height index msg (.error e) = .ok idx) : idx.resultCode = e.code := by
  unfold txToIdxTx at h
  cases hmarshal : P.marshal tx with
  | error _ =>
    rw [hmarshal] at h
    cases h
  | ok bz =>
    rw [hmarshal] at h
    cases h
    rfl

/-- A change that is executed with the result code `0` has stored the text of its value. -/
theorem succeeds_handleTransaction_change
    (hdecoded : P.fromAny tx.msg = .ok (.utility (.changeParameter m))) :
    Succeeds (store height) view (handleTransaction P height tx index)
      (fun idx db' => idx.resultCode = 0 → ∃ value text,
        P.fromAny m.parameterValue = .ok value ∧ value.paramText = some text ∧
          db'.params = db.params.upsert m.parameterKey height text) db := by
  refine succeeds_bind (succeeds_mono (succeeds_basicValidateTransaction_params hdecoded) ?_)
  rintro _ db₁ ⟨⟨signer, rfl⟩, hparams⟩
  refine succeeds_bind (succeeds_attempt (ends_mono ends_handleMessageChangeParameter
    fun r db' hr => succeeds_returned fun idx hidx hcode => ?_))
  cases r with
  | error e => exact absurd ((resultCode_of_txToIdxTx hidx).symm.trans hcode) hr
  | ok u =>
    obtain ⟨value, text, hvalue, htext, hdb'⟩ := hr
    exact ⟨value, text, hvalue, htext, hparams ▸ hdb'⟩

/-! ## Sequences of changes -/

/-- A change with everything its execution depends on. -/
structure ParamChange where
  tx : Transaction
  index : ℤ
  height : ℤ
  view : Database → Database
  fails : ℕ → Option String

/-- The change is a `MessageChangeParameter` and is executed with the result code `0`, at the
height the chain has reached or later. -/
structure Executed (P : Platform) (c : ParamChange) (height : ℤ) (db db' : Database) : Prop where
  message : ∃ m, P.fromAny c.tx.msg = .ok (.utility (.changeParameter m))
  later : height ≤ c.height
  result : ∃ idx, (handleTransaction P c.height c.tx c.index).run.exec (store c.height) c.view
    c.fails db = some (.ok idx, db') ∧ idx.resultCode = 0

inductive ChangeRun (P : Platform) : ℤ → Database → List ParamChange → ℤ → Database → Prop
  | nil (height : ℤ) (db : Database) : ChangeRun P height db [] height db
  | cons {height height' : ℤ} {db db₁ db' : Database} {c : ParamChange} {cs : List ParamChange} :
      Executed P c height db db₁ → ChangeRun P c.height db₁ cs height' db' →
        ChangeRun P height db (c :: cs) height' db'

/-- The text that the change would store serves the readers of the parameter. -/
def TypedChange (P : Platform) (c : ParamChange) : Prop :=
  ∀ m value text, P.fromAny c.tx.msg = .ok (.utility (.changeParameter m)) →
    P.fromAny m.parameterValue = .ok value → value.paramText = some text →
      WellTyped m.parameterKey text

theorem paramsTyped_of_executed_iff {c : ParamChange} (h : ParamsTyped height db)
    (hc : Executed P c height db db') : ParamsTyped c.height db' ↔ TypedChange P c := by
  obtain ⟨m, hdecoded⟩ := hc.message
  obtain ⟨idx, hexec, hcode⟩ := hc.result
  obtain ⟨value, text, hvalue, htext, hparams⟩ :=
    succeeds_handleTransaction_change hdecoded _ _ _ hexec idx rfl hcode
  rw [paramsTyped_upsert_iff h hc.later hparams]
  constructor
  · intro hwell m' value' text' hdecoded' hvalue' htext'
    rw [hdecoded] at hdecoded'
    cases hdecoded'
    rw [hvalue] at hvalue'
    cases hvalue'
    rw [htext] at htext'
    cases htext'
    exact hwell
  · intro htyped
    exact htyped m value text hdecoded hvalue htext

variable {cs : List ParamChange} {s w : Database}

theorem paramsTyped_of_changeRun (hrun : ChangeRun P height db cs height' db')
    (h : ParamsTyped height db) (hcs : ∀ c ∈ cs, TypedChange P c) : ParamsTyped height' db' := by
  induction hrun with
  | nil => exact h
  | @cons _ _ _ _ _ c cs hc _ ih =>
    have hfirst := (paramsTyped_of_executed_iff h hc).2 (hcs c List.mem_cons_self)
    exact ih hfirst fun c' hc' => hcs c' (List.mem_cons_of_mem _ hc')

theorem typedChange_of_changeRun (hrun : ChangeRun P height db cs height' db')
    (h : ParamsTyped height db)
    (hall : ∀ cs₁ cs₂ height₁ db₁, cs = cs₁ ++ cs₂ → ChangeRun P height db cs₁ height₁ db₁ →
      ParamsTyped height₁ db₁) : ∀ c ∈ cs, TypedChange P c := by
  induction hrun with
  | nil => exact fun c hc => by cases hc
  | @cons height₀ _ db₀ db₁ _ c cs hc _ ih =>
    have hfirst : ParamsTyped c.height db₁ :=
      hall [c] cs c.height db₁ rfl (.cons hc (.nil _ _))
    have hrest := ih hfirst fun cs₁ cs₂ height₁ db₂ hcs hrun₁ =>
      hall (c :: cs₁) cs₂ height₁ db₂ (congrArg (c :: ·) hcs) (.cons hc hrun₁)
    intro c' hc'
    rcases List.mem_cons.1 hc' with rfl | hmem
    · exact (paramsTyped_of_executed_iff h hc).1 hfirst
    · exact hrest c' hmem

/-! ## What a typed state serves -/

/-- The reads of a unit of work are answered from `db`: its own state is `db` and its reads see
it, or it reads what was committed. -/
def ReadsFrom (db w : Database) (view : Database → Database) : Prop :=
  view = id ∧ w = db ∨ view = fun _ => db

theorem ReadsFrom.params (h : ReadsFrom db w view) (hs : s.params = w.params) :
    (view s).params = db.params := by
  rcases h with ⟨rfl, rfl⟩ | rfl
  · exact hs
  · rfl

theorem ReadsFrom.actors (h : ReadsFrom db w view) (hs : s.actors = w.actors) :
    (view s).actors = db.actors := by
  rcases h with ⟨rfl, rfl⟩ | rfl
  · exact hs
  · rfl

/-- An actor whose stake is due, with a stake or an output address that cannot be read. -/
def UnreadableActor (height : ℤ) (db : Database) : Prop :=
  ∃ t, ∃ actor ∈ selectReadyToUnstake (db.actors t) height,
    (∃ e, stringToBigInt actor.stakeAmount = .error e) ∨
      ∃ e, hexDecode actor.outputAddress = .error e

/-- Nothing that reads parameters in the state `db` fails because of one. -/
structure Serves (height : ℤ) (db : Database) : Prop where
  beginBlock : ∀ w view, ReadsFrom db w view →
    Completes (store height) view Utility.beginBlock.run (fun r _ => r = .ok ()) w
  endBlock : ∀ w view orders proposer, ReadsFrom db w view →
    Completes (store height) view (Utility.endBlock height orders proposer).run
      (fun r _ => ∀ e, r = .error e → UnreadableActor height db) w
  session : Completes (store height) id (hydrateSessionMetadata height).run
    (fun r _ => ∃ metadata, r = .ok metadata ∧ 0 < metadata.numSessionBlocks) db

section Serving

variable {db : Database} {view : Database → Database}

/-- A parameter that is read as an integer parses as one. -/
theorem ParamsTyped.exists_int (h : ParamsTyped height db) {name : String} {type : GovParamType}
    (hname : (name, type) ∈ govParamTypes) (htype : type ≠ .bigInt) :
    ∃ value n, db.params.lookup name height = some value ∧ atoi value = .ok n := by
  obtain ⟨value, hlookup, hwell⟩ := h.stored (name, type) hname
  have hparses := hwell.parses type hname
  have hint : (atoi value).isOk = true := by
    cases type with
    | bigInt => exact absurd rfl htype
    | int | int64 => exact hparses
  cases hatoi : atoi value with
  | error e =>
    rw [hatoi] at hint
    cases hint
  | ok n => exact ⟨value, n, hlookup, hatoi⟩

variable {post : Except Error ℤ → Database → Prop}

theorem completes_getIntParam {name value : String} {n : ℤ} (hparams : (view s).params = db.params)
    (hlookup : db.params.lookup name height = some value) (hn : atoi value = .ok n)
    (hpost : post (.ok n) s) : Completes (store height) view (getIntParam name).run post s := by
  rw [← hparams] at hlookup
  exact completes_of_checks (checks_getIntParam _) (peek_getIntParam hlookup hn) hpost

variable {t : ActorType}

/-- An integer parameter of a kind of actor is read for each of the four kinds. -/
theorem completes_getActorIntParam {paramName : ActorType → String} {value : String} {n : ℤ}
    (hparams : (view s).params = db.params)
    (hlookup : db.params.lookup (paramName t) height = some value) (hn : atoi value = .ok n)
    (hpost : post (.ok n) s) :
    Completes (store height) view (getActorIntParam paramName t.toInt).run post s := by
  have ht : ActorType.ofInt t.toInt = some t := by cases t <;> rfl
  rw [getActorIntParam, forActor, ht]
  exact completes_wrap (completes_getIntParam hparams hlookup hn hpost)

section

variable (h : ParamsTyped height db)
include h

theorem completes_beginBlock (hreads : ReadsFrom db w view) :
    Completes (store height) view Utility.beginBlock.run (fun r _ => r = .ok ()) w := by
  have hmem : (validatorMaximumMissedBlocksParamName, int) ∈ govParamTypes := by
    decide +kernel
  obtain ⟨value, n, hlookup, hn⟩ := h.exists_int hmem (by decide)
  refine completes_then (completes_getIntParam (hreads.params rfl) hlookup hn ⟨n, rfl, ?_⟩)
  exact completes_ret rfl

theorem completes_hydrateSessionMetadata :
    Completes (store height) id (hydrateSessionMetadata height).run
      (fun r _ => ∃ metadata, r = .ok metadata ∧ 0 < metadata.numSessionBlocks) db := by
  have hmem : (blocksPerSessionParamName, int) ∈ govParamTypes := by decide +kernel
  obtain ⟨value, hlookup, hwell⟩ := h.stored _ hmem
  obtain ⟨n, hn, hpositive⟩ := hwell.blocksPerSession rfl
  refine completes_then (completes_ask ⟨value, answer_param hlookup, ?_⟩)
  rw [hn]
  refine completes_then (completes_ret ⟨n, rfl, ?_⟩)
  rw [if_neg hpositive.ne']
  exact completes_ret ⟨_, rfl, hpositive⟩

/-- The rewards move money and fail over nothing. -/
theorem completes_handleProposerRewards (hreads : ReadsFrom db w view) (proposer : Bytes) :
    Completes (store height) view (handleProposerRewards proposer).run
      (fun r s => r = .ok () ∧ s.params = w.params ∧ s.actors = w.actors) w := by
  have hmem : (proposerPercentageOfFeesParamName, int) ∈ govParamTypes := by
    decide +kernel
  obtain ⟨value, hlookup, hwell⟩ := h.stored _ hmem
  obtain ⟨n, hn, hnonneg, hle⟩ := hwell.proposerPercentage rfl
  refine completes_then (completes_of_checks (checks_wrap _ (checks_ask _)) rfl ⟨_, rfl, ?_⟩)
  refine completes_then (completes_wrap (completes_perform ⟨(), rfl, ?_⟩))
  refine completes_then (completes_getIntParam (hreads.params rfl) hlookup hn ⟨n, rfl, ?_⟩)
  have hcut : ¬ (int64 (100 - n) < 0 ∨ 100 < int64 (100 - n)) := by
    rw [Model.int64_eq_self (by omega) (by omega)]
    omega
  refine completes_then (completes_throwIf hcut ⟨(), rfl, ?_⟩)
  refine completes_then (completes_wrap (completes_perform ⟨(), rfl, ?_⟩))
  exact completes_wrap (completes_perform ⟨rfl, rfl, rfl⟩)

omit h in
theorem completes_unbondActor {actor : UnstakingActor}
    (hactor : actor ∈ selectReadyToUnstake (db.actors t) height) (hparams : s.params = w.params)
    (hactors : s.actors = w.actors) :
    Completes (store height) view (unbondActor t actor).run
      (fun r s' => (s'.params = w.params ∧ s'.actors = w.actors) ∧
        ∀ e, r = .error e → UnreadableActor height db) s := by
  rw [unbondActor]
  cases hstake : stringToBigInt actor.stakeAmount with
  | error e => exact completes_ret ⟨⟨hparams, hactors⟩, fun _ _ => ⟨t, actor, hactor, .inl ⟨e, hstake⟩⟩⟩
  | ok amount =>
    cases houtput : hexDecode actor.outputAddress with
    | error e =>
      exact completes_ret ⟨⟨hparams, hactors⟩, fun _ _ => ⟨t, actor, hactor, .inr ⟨e, houtput⟩⟩⟩
    | ok output =>
      refine completes_then (completes_ret ⟨amount, rfl, ?_⟩)
      refine completes_then (completes_ret ⟨output, rfl, ?_⟩)
      refine completes_then (completes_wrap (completes_perform ⟨(), rfl, ?_⟩))
      exact completes_wrap (completes_perform ⟨⟨hparams, hactors⟩, fun _ he => by cases he⟩)

omit h in
theorem completes_unbondUnstakingActors (hreads : ReadsFrom db w view) (order : List ActorType) (hparams : s.params = w.params) (hactors : s.actors = w.actors) :
    Completes (store height) view (unbondUnstakingActors order).run
      (fun r s' => (s'.params = w.params ∧ s'.actors = w.actors) ∧
        ∀ e, r = .error e → UnreadableActor height db) s := by
  refine completes_forM (fun t _ s₁ hs₁ => ?_) ⟨hparams, hactors⟩
  have hready : answer height (view s₁) (.readyToUnstake t)
      = .ok (selectReadyToUnstake (db.actors t) height) := by
    rw [answer, hreads.actors hs₁.2]
  refine completes_then (completes_wrap (completes_ask ⟨_, congrArg (Except.mapError _) hready, ?_⟩))
  exact completes_forM (fun actor hactor s₂ hs₂ => completes_unbondActor hactor hs₂.1 hs₂.2) hs₁

theorem completes_beginUnstakingMaxPausedActors (hreads : ReadsFrom db w view)
    (order : List ActorType) (hparams : s.params = w.params) :
    Completes (store height) view (beginUnstakingMaxPausedActors height order).run
      (fun r _ => ∀ e, r = .error e → UnreadableActor height db) s := by
  have hloop : Completes (store height) view (beginUnstakingMaxPausedActors height order).run
      (fun r s' => s'.params = w.params ∧ ∀ e, r = .error e → UnreadableActor height db) s := by
    refine completes_forM (fun t _ s₁ hs₁ => ?_) hparams
    have hmax : (maxPauseBlocksParamName t, int) ∈ govParamTypes := by
      cases t <;> decide +kernel
    have hunstaking : (unstakingBlocksParamName t, GovParamType.int64) ∈ govParamTypes := by
      cases t <;> decide +kernel
    obtain ⟨maxValue, maxBlocks, hmaxLookup, hmaxBlocks⟩ := h.exists_int hmax (by decide)
    obtain ⟨value, blocks, hlookup, hblocks⟩ := h.exists_int hunstaking (by decide)
    refine completes_then (completes_getActorIntParam (hreads.params hs₁) hmaxLookup hmaxBlocks
      ⟨maxBlocks, rfl, ?_⟩)
    refine completes_then ?_
    refine completes_then (completes_getActorIntParam (hreads.params hs₁) hlookup hblocks
      ⟨blocks, rfl, completes_ret ⟨_, rfl, ?_⟩⟩)
    exact completes_wrap (completes_perform ⟨hs₁, fun _ he => by cases he⟩)
  exact completes_mono hloop fun _ _ hr => hr.2

theorem completes_endBlock (hreads : ReadsFrom db w view) (orders : MapOrders) (proposer : Bytes) :
    Completes (store height) view (Utility.endBlock height orders proposer).run
      (fun r _ => ∀ e, r = .error e → UnreadableActor height db) w := by
  refine completes_then (completes_mono (completes_handleProposerRewards h hreads proposer) ?_)
  rintro r s ⟨rfl, hparams, hactors⟩
  refine ⟨(), rfl, completes_seq (completes_mono
    (completes_unbondUnstakingActors hreads orders.unbonding hparams hactors) ?_)⟩
  intro r s' hr
  refine ⟨fun e he e' he' => hr.2 e he, fun _ _ => ?_⟩
  exact completes_beginUnstakingMaxPausedActors h hreads orders.pausing hr.1.1

/-- **Where parameters are typed.**  Blocks begin and end and sessions are made without failing
over a parameter. -/
theorem serves_of_paramsTyped : Serves height db where
  beginBlock := fun _ _ hreads => completes_beginBlock h hreads
  endBlock := fun _ _ orders proposer hreads => completes_endBlock h hreads orders proposer
  session := completes_hydrateSessionMetadata h

end

end Serving

/-! ## Runs of changes -/

/-- **Parameters keep their types.**  Along a sequence of executed changes that starts where the
parameters are typed, they are typed after every one of them exactly when each change carries a
value that serves; and then no later block and no later session fails over a parameter. -/
theorem params_stay_typed_iff {height' : ℤ} {db db' : Database} {cs : List ParamChange}
    (h : ParamsTyped height db) (hrun : ChangeRun P height db cs height' db') :
    ((∀ cs₁ cs₂ height₁ db₁, cs = cs₁ ++ cs₂ → ChangeRun P height db cs₁ height₁ db₁ →
        ParamsTyped height₁ db₁) ↔ ∀ c ∈ cs, TypedChange P c) ∧
      ((∀ c ∈ cs, TypedChange P c) → ∀ later, height' ≤ later → Serves later db') := by
  refine ⟨⟨typedChange_of_changeRun hrun h, fun hcs cs₁ cs₂ height₁ db₁ hsplit hrun₁ => ?_⟩,
    fun hcs later hlater => ?_⟩
  · refine paramsTyped_of_changeRun hrun₁ h fun c hc => hcs c ?_
    rw [hsplit]
    exact List.mem_append_left _ hc
  · exact serves_of_paramsTyped ((paramsTyped_of_changeRun hrun h hcs).mono hlater)

/-! ## A governed state -/

/-- Every parameter is `10`, and the address `01` owns the length of a session. -/
def governedDatabase : Database :=
  let params := Table.empty.upsertAll (govParamTypes.map Prod.fst) 1 "10"
  let db : Database := ⟨.empty, .empty, params.upsert "blocks_per_session_owner" 1 "01",
    fun _ => .empty, fun _ => []⟩
  db.setAccount 1 "01" 100

def changeBlocksPerSession : MessageChangeParameter where
  owner := [1]
  parameterKey := blocksPerSessionParamName
  parameterValue := ⟨"type.googleapis.com/google.protobuf.Int32Value", []⟩

/-- The owner of the address `01` changes the length of a session to `v`. -/
def changePlatform (v : ℤ) : Platform :=
  { ownerPlatform (.changeParameter changeBlocksPerSession) with
    fromAny := fun any =>
      if any = changeBlocksPerSession.parameterValue then .ok (.int32Value v)
      else .ok (.utility (.changeParameter changeBlocksPerSession)) }

def ownerChange : ParamChange := ⟨ownerTx, 0, 1, id, fun _ => none⟩

theorem lookup_governedDatabase (h : name ∈ govParamTypes.map Prod.fst) :
    governedDatabase.params.lookup name 1 = some "10" := by
  have howner : "blocks_per_session_owner" ∉ govParamTypes.map Prod.fst := by decide +kernel
  have hne : name ≠ "blocks_per_session_owner" := fun heq => howner (heq ▸ h)
  have hlookup := Table.lookup_upsert_ne
    (Table.empty.upsertAll (govParamTypes.map Prod.fst) (1 : ℤ) "10") 1 1 "01" hne
  exact hlookup.trans (Table.lookup_upsertAll (.inl h))

theorem paramsTyped_governedDatabase : ParamsTyped 1 governedDatabase := by
  have hempty : (Table.empty : Table String ℤ String).UpTo 1 := fun _ hr => by cases hr
  refine ⟨(hempty.upsertAll _ _).upsert _ _, fun p hp => ?_⟩
  refine ⟨"10", lookup_governedDatabase (List.mem_map_of_mem hp), fun type _ => ?_, ?_, ?_⟩
  · cases type <;> decide
  · exact fun _ => ⟨10, by decide, by decide⟩
  · exact fun _ => ⟨10, by decide, by decide, by decide⟩

theorem executed_ownerChange (v : ℤ) :
    ∃ db', Executed (changePlatform v) ownerChange 1 governedDatabase db' ∧
      db'.params = governedDatabase.params.upsert blocksPerSessionParamName 1 (toString v) := by
  have hfeeName : messageChangeParameterFee ∈ govParamTypes.map Prod.fst := by decide +kernel
  have hcharged : Charged (changePlatform v) 1 governedDatabase ownerTx
      (.changeParameter changeBlocksPerSession) [1] 10 := by
    refine ⟨rfl, ⟨⟨List.replicate 32 1, [1]⟩, rfl, rfl, rfl⟩, ⟨[[1]], ?_, by simp⟩, ?_, ?_⟩
    · have howner : (getParamOwner blocksPerSessionParamName).run.peek (store 1) governedDatabase
          = some (.ok [1]) := by
        have hname : paramOwner blocksPerSessionParamName = some "blocks_per_session_owner" := by
          decide +kernel
        rw [getParamOwner, hname]
        exact peek_bind_eq_ok.2 ⟨"01", peek_getStringParam (Table.lookup_upsert_self _ _ _ _),
          by decide⟩
      refine peek_bind_eq_ok.2 ⟨[1], ?_, rfl⟩
      rw [peek_wrap, changeBlocksPerSession, howner]
      rfl
    · exact peek_getBigIntParam (lookup_governedDatabase hfeeName) (by decide)
    · have hamount : governedDatabase.accounts.amount (hexEncode [1]) 1 = 100 := by decide
      rw [hamount]
      decide
  refine ⟨apply 1 (governedDatabase.charge 1 [1] 10) (.setParam blocksPerSessionParamName
    (.smallInt v)), ⟨⟨changeBlocksPerSession, rfl⟩, le_rfl, ?_⟩, rfl⟩
  rw [ownerChange, handleTransaction, exec_bind_of_ok (exec_basicValidateTransaction hcharged)]
  exact ⟨_, rfl, rfl⟩

/-- Changing the length of a session to `0` is executed, and the next session divides by it. -/
theorem zero_blocks_per_session_executed :
    ParamsTyped 1 governedDatabase ∧
      ∃ db', Executed (changePlatform 0) ownerChange 1 governedDatabase db' ∧
        ¬ ParamsTyped 1 db' ∧
        (hydrateSessionMetadata 1).run.exec (store 1) id (fun _ => none) db' = none := by
  obtain ⟨db', hexecuted, hparams⟩ := executed_ownerChange 0
  have hlookup : db'.params.lookup blocksPerSessionParamName 1 = some "0" := by
    rw [hparams]
    exact Table.lookup_upsert_self _ _ _ _
  refine ⟨paramsTyped_governedDatabase, db', hexecuted, fun htyped => ?_, ?_⟩
  · have hmem : (blocksPerSessionParamName, GovParamType.int) ∈ govParamTypes := by decide +kernel
    obtain ⟨value, hvalue, hwell⟩ := htyped.stored _ hmem
    rw [hlookup, Option.some.injEq] at hvalue
    obtain ⟨n, hn, hpositive⟩ := hwell.blocksPerSession rfl
    have hzero : atoi "0" = .ok 0 := by decide
    rw [← hvalue, hzero] at hn
    cases hn
    exact absurd hpositive (by decide)
  · have hanswer : (ask (Query.param blocksPerSessionParamName)
        : Fallible Query Answer Update String String String).run.peek (store 1) (id db')
          = some (.ok "0") := by
      rw [peek_ask]
      exact congrArg some (answer_param hlookup)
    rw [hydrateSessionMetadata, exec_bind_check (checks_ask _) hanswer]
    rfl

/-- After a change of the length of a session to `5` everything is served. -/
theorem five_blocks_per_session_serves :
    ∃ db', ChangeRun (changePlatform 5) 1 governedDatabase [ownerChange] 1 db' ∧ Serves 2 db' := by
  obtain ⟨db', hexecuted, -⟩ := executed_ownerChange 5
  have hrun : ChangeRun (changePlatform 5) 1 governedDatabase [ownerChange] 1 db' :=
    .cons hexecuted (.nil _ _)
  refine ⟨db', hrun, (params_stay_typed_iff paramsTyped_governedDatabase hrun).2 ?_ 2 (by decide)⟩
  intro c hc m value text hdecoded hvalue htext
  cases List.mem_singleton.1 hc
  cases hdecoded
  cases hvalue
  cases htext
  refine ⟨fun type _ => ?_, fun _ => ⟨5, by decide, by decide⟩, fun hname => ?_⟩
  · cases type <;> decide
  · exact absurd hname (by decide)

end Pocket.Utility
