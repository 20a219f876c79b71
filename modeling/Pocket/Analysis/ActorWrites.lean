import Pocket.Analysis.ActorTables
import Pocket.Analysis.TransactionOutcome

/-!
# What a transaction does to the rows of actors

Reads go to the state the block has built, or to what was committed before it.  Either way a
transaction can do one of three things to an actor, and to no more than one actor:

* a stake inserts it, when the reads see no such actor;
* a message to unstake gives it an unstaking height, when the reads see it without one;
* a message to unpause takes its paused height away.

`ends_handleTransaction_actors` says this of every end of a transaction, an error or not.
-/

set_option autoImplicit false

namespace Pocket.Utility

open Model (Bytes int64)
open StoreProgram StoreProgram.Prog VersionedTable
open Text (hexEncode hexDecode)

variable {P : Platform} {height : ℤ} {α : Type}

/-! ## What reads see -/

/-- The tables that unbonding depends on are the same. -/
@[mk_iff]
structure SameTables (s s' : Database) : Prop where
  actors : s'.actors = s.actors
  params : s'.params = s.params

theorem SameTables.refl (s : Database) : SameTables s s := ⟨rfl, rfl⟩

theorem SameTables.trans {s s' s'' : Database} (h : SameTables s s') (h' : SameTables s' s'') :
    SameTables s s'' :=
  ⟨h'.actors.trans h.actors, h'.params.trans h.params⟩

/-- What reads see of these tables depends on nothing else. -/
def TableView (view : Database → Database) : Prop :=
  ∀ s s', SameTables s s' → SameTables (view s) (view s')

/-- An update that leaves these tables alone. -/
def KeepsTables (height : ℤ) (w : Update) : Prop := ∀ s, SameTables s (apply height s w)

theorem keeps_sameTables {view : Database → Database} {p : Uow α} {s s' : Database}
    {post : Except Error α → Prop} (hp : p.run.Every (KeepsTables height) post)
    (hs : SameTables s s') : Keeps (store height) view p (SameTables s) s' :=
  keeps_of_every hp (fun _ s'' hw hs'' => hs''.trans (hw s'')) hs

/-! ## One transaction -/

/-- What a transaction can do to the rows of actors, when its reads see `seen`. -/
inductive ActorWrite (height : ℤ) (seen s s' : Database) : Prop
  | kept (h : s'.actors = s.actors)
  | staked (t : ActorType) (address : String) (row : ActorRow) (chains : List String)
      (hnew : (seen.actors t).lookup address height = none) (hrow : row.unstakingHeight = -1)
      (h : s'.actors = (s.insertActor height t address row chains).actors)
  | unstaked (t : ActorType) (address : String) (row : ActorRow) (value : String) (n : ℤ)
      (hrow : (seen.actors t).lookup address height = some row) (hstaked : row.unstakingHeight = -1)
      (hparam : seen.params.lookup (unstakingBlocksParamName t) height = some value)
      (hn : atoi value = .ok n)
      (h : s'.actors = (s.updateRow height t address fun row =>
        { row with unstakingHeight := int64 (height + n) }).actors)
  | unpaused (t : ActorType) (address : String)
      (h : s'.actors = (s.updateRow height t address fun row =>
        { row with pausedHeight := heightNotUsed }).actors)

theorem actors_insertActor (s : Database) (t : ActorType) (address : String) (row : ActorRow)
    (chains : List String) :
    (s.insertActor height t address row chains).actors
      = Function.update s.actors t ((s.actors t).upsert address height
          (match (s.actors t).written address height with
          | some old => { row with publicKey := old.publicKey, outputAddress := old.outputAddress }
          | none => row)) := by
  rw [Database.insertActor]
  split <;> rfl

theorem actors_updateRow (s : Database) (t : ActorType) (address : String)
    (change : ActorRow → ActorRow) :
    (s.updateRow height t address change).actors
      = match (s.actors t).lookup address height with
        | some row => Function.update s.actors t ((s.actors t).upsert address height (change row))
        | none => s.actors := by
  rw [Database.updateRow]
  cases (s.actors t).lookup address height with
  | some row | none => rfl

section Handlers

variable {view : Database → Database} {s₀ s db : Database} {actorType : ℤ}

theorem keeps_actorWrite_of_every {p : Uow α} {post : Except Error α → Prop}
    (hp : p.run.Every (KeepsTables height) post) (hs : SameTables s₀ s) :
    Keeps (store height) view p (ActorWrite height (view s₀) s₀) s :=
  ends_mono (keeps_sameTables hp hs) fun _ _ hs' => .kept hs'.actors

theorem keeps_handleStakeMessage (hview : TableView view) (hs : SameTables s₀ s) (m : MessageStake) :
    Keeps (store height) view (handleStakeMessage P m) (ActorWrite height (view s₀) s₀) s := by
  have hkept : ∀ s', s'.actors = s.actors → ActorWrite height (view s₀) s₀ s' :=
    fun s' h => .kept (h.trans hs.actors)
  have hs' := hkept s rfl
  refine keeps_bind_check (checks_returned _) hs' fun publicKey _ => ?_
  refine keeps_bind_check (checks_checkAboveMinStake _ _) hs' fun amount _ => ?_
  refine keeps_bind_check (checks_getAccountAmount _) hs' fun balance _ => ?_
  refine keeps_bind_throwIf hs' fun _ => ?_
  refine keeps_bind_check (checks_checkBelowMaxChains _ _) hs' fun _ _ => ?_
  refine keeps_bind_check (checks_getActorExists _ _) hs' fun found hfound => ?_
  refine keeps_bind_throwIf hs' fun hnot => ?_
  refine keeps_bind_perform hs' (keeps_bind_perform (hkept _ rfl) ?_)
  rw [insertActor]
  cases ht : ActorType.ofInt m.actorType with
  | none => exact ends_ret.2 (hkept _ rfl)
  | some t =>
    have hseen : ((view s₀).actors t).lookup (hexEncode (P.address publicKey)) height = none := by
      rw [getActorExists, forActor, ht] at hfound
      have hanswer : some (Except.ok (((view s).actors t).lookup (hexEncode (P.address publicKey))
          height).isSome : Except Error Bool) = some (.ok found) := hfound
      rw [Option.some.injEq, Except.ok.injEq, (hview _ _ hs).actors] at hanswer
      rw [← hanswer] at hnot
      exact Option.not_isSome_iff_eq_none.1 hnot
    have hinserted : ∀ (s' : Database) (row : ActorRow) chains, s'.actors = s.actors → row.unstakingHeight = -1 →
        ActorWrite height (view s₀) s₀
          (s'.insertActor height t (hexEncode (P.address publicKey)) row chains) := by
      intro s' row chains hsame hrow
      refine .staked t _ row chains hseen hrow ?_
      rw [actors_insertActor, actors_insertActor, hsame, hs.actors]
    exact keeps_perform (hkept _ rfl) (hinserted _ _ _ rfl rfl)

theorem keeps_callForActor_perform {onError : String → Error} {w : ActorType → Update}
    {inv : Database → Prop} (hs : inv s)
    (hw : ∀ t, ActorType.ofInt actorType = some t → inv (apply height s (w t))) :
    Keeps (store height) view (callForActor actorType onError fun t => perform (w t)) inv s := by
  rw [callForActor]
  cases ht : ActorType.ofInt actorType with
  | none => exact ends_ret.2 hs
  | some t => exact keeps_perform hs (hw t ht)

theorem peek_getActorIntParam {paramName : ActorType → String} {n : ℤ}
    (h : (getActorIntParam paramName actorType).run.peek (store height) db = some (.ok n)) :
    ∃ t value, ActorType.ofInt actorType = some t ∧
      db.params.lookup (paramName t) height = some value ∧ atoi value = .ok n := by
  obtain ⟨t, ht⟩ := actorType_of_forActor h
  rw [getActorIntParam, forActor, ht] at h
  obtain ⟨value, hvalue, hparsed⟩ := peek_bind_eq_ok.1 (peek_wrap_eq_ok.1 h)
  have hanswer : selectLatest db.params id (paramName t) height = .ok value :=
    Option.some.inj (peek_wrap_eq_ok.1 hvalue)
  obtain ⟨text, hlookup, rfl⟩ := lookup_of_selectLatest hanswer
  exact ⟨t, text, ht, hlookup, mapError_eq_ok.1 (Option.some.inj hparsed)⟩

theorem peek_getUnbondingHeight {u : ℤ}
    (h : (getUnbondingHeight height actorType).run.peek (store height) db = some (.ok u)) :
    ∃ t value n, ActorType.ofInt actorType = some t ∧
      db.params.lookup (unstakingBlocksParamName t) height = some value ∧ atoi value = .ok n ∧
        u = int64 (height + n) := by
  obtain ⟨n, hn, hu⟩ := peek_bind_eq_ok.1 h
  obtain ⟨t, value, ht, hlookup, hatoi⟩ := peek_getActorIntParam hn
  exact ⟨t, value, n, ht, hlookup, hatoi, (Except.ok.inj (Option.some.inj hu)).symm⟩

/-- The status `Staked` is read from a row without an unstaking height. -/
theorem peek_getActorStatus {address : Bytes}
    (h : (getActorStatus height actorType address).run.peek (store height) db
      = some (.ok stakeStatusStaked)) :
    ∃ t row, ActorType.ofInt actorType = some t ∧
      (db.actors t).lookup (hexEncode address) height = some row ∧ row.unstakingHeight = -1 := by
  obtain ⟨u, hu, hstatus⟩ := peek_bind_eq_ok.1 h
  obtain ⟨t, ht, hread⟩ := peek_callForActor hu
  have hanswer : selectLatest (db.actors t) ActorRow.unstakingHeight (hexEncode address) height
      = .ok u := Option.some.inj hread
  obtain ⟨row, hrow, rfl⟩ := lookup_of_selectLatest hanswer
  refine ⟨t, row, ht, hrow, ?_⟩
  by_contra hne
  have hstaked := Except.ok.inj (Option.some.inj hstatus)
  rw [if_neg hne] at hstaked
  split at hstaked <;> cases hstaked

theorem keeps_handleUnstakeMessage (hview : TableView view) (hs : SameTables s₀ s)
    (m : MessageUnstake) :
    Keeps (store height) view (handleUnstakeMessage height m) (ActorWrite height (view s₀) s₀) s := by
  have hs' : ActorWrite height (view s₀) s₀ s := .kept hs.actors
  refine keeps_bind_check (checks_wrap _ (checks_getActorStatus _ _)) hs' fun status hstatus => ?_
  refine keeps_bind_throwIf hs' fun hstaked => ?_
  refine keeps_bind_check (checks_getUnbondingHeight _) hs' fun u hu => ?_
  refine keeps_callForActor_perform hs' fun t ht => ?_
  rw [not_not] at hstaked
  rw [hstaked] at hstatus
  obtain ⟨t₁, row, ht₁, hrow, hunset⟩ := peek_getActorStatus (peek_wrap_eq_ok.1 hstatus)
  obtain ⟨t₂, value, n, ht₂, hparam, hn, hu⟩ := peek_getUnbondingHeight hu
  have hkind₁ : t₁ = t := Option.some.inj (ht₁.symm.trans ht)
  have hkind₂ : t₂ = t := Option.some.inj (ht₂.symm.trans ht)
  rw [hkind₁, (hview _ _ hs).actors] at hrow
  rw [hkind₂, (hview _ _ hs).params] at hparam
  refine .unstaked t _ row value n hrow hunset hparam hn ?_
  rw [hu]
  refine (actors_updateRow _ _ _ _).trans ?_
  rw [actors_updateRow, hs.actors]

theorem keeps_handleUnpauseMessage (hs : SameTables s₀ s) (m : MessageUnpause) :
    Keeps (store height) view (handleUnpauseMessage height m) (ActorWrite height (view s₀) s₀) s := by
  have hs' : ActorWrite height (view s₀) s₀ s := .kept hs.actors
  refine keeps_bind_check (checks_getPausedHeightIfExists _ _) hs' fun paused _ => ?_
  refine keeps_bind_throwIf hs' fun _ => ?_
  refine keeps_bind_check (checks_getActorIntParam _ _) hs' fun blocks _ => ?_
  refine keeps_bind_throwIf hs' fun _ => ?_
  refine keeps_callForActor_perform hs' fun t _ => .unpaused t (hexEncode m.address) ?_
  refine (actors_updateRow _ _ _ _).trans ?_
  rw [actors_updateRow, hs.actors]

theorem keeps_handleMessageChangeParameter (hs : SameTables s₀ s) (m : MessageChangeParameter) :
    Keeps (store height) view (handleMessageChangeParameter P m)
      (ActorWrite height (view s₀) s₀) s := by
  have hs' : ActorWrite height (view s₀) s₀ s := .kept hs.actors
  refine keeps_bind_check (checks_returned _) hs' fun value _ => ?_
  cases value with
  | int32Value v | stringValue v | bytesValue v => exact keeps_perform hs' (.kept hs.actors)
  | utility msg | other => exact nofun

end Handlers

/-! ## The whole transaction -/

section Transaction

variable {view : Database → Database} {s : Database}

theorem ends_handleTransaction_actors (hview : TableView view) (tx : Transaction) (index : ℤ) :
    Keeps (store height) view (handleTransaction P height tx index)
      (ActorWrite height (view s) s) s := by
  have hevery := @every_basicValidateTransaction P (KeepsTables height) tx
    (fun _ _ s => ⟨rfl, rfl⟩) fun _ _ s => ⟨rfl, rfl⟩
  have hvalidated : Ends (store height) view (basicValidateTransaction P tx).run
      (fun r s' => SameTables s s' ∧ ∀ m, r ≠ .ok (.editStake m)) s := by
    intro fails r s' hexec
    refine ⟨keeps_sameTables hevery (.refl s) fails r s' hexec, fun m hm => ?_⟩
    obtain ⟨msg, signer, -, hmsg, hedit⟩ := of_exec hevery hexec _ hm
    cases msg with
    | editStake m' => exact hedit m' rfl
    | _ => cases hmsg
  refine ends_bind.2 (ends_mono hvalidated fun r s' hr => ?_)
  obtain ⟨hs', hedit⟩ := hr
  cases r with
  | error e => exact ends_ret.2 (.kept hs'.actors)
  | ok msg =>
    refine keeps_attempt ?_
    cases msg with
    | send m =>
      exact keeps_actorWrite_of_every (meets_handleMessageSend m (fun _ _ s => ⟨rfl, rfl⟩)
        fun _ _ s => ⟨rfl, rfl⟩) hs'
    | stake m => exact keeps_handleStakeMessage hview hs' m
    | editStake m => exact absurd rfl (hedit m)
    | unstake m => exact keeps_handleUnstakeMessage hview hs' m
    | unpause m => exact keeps_handleUnpauseMessage hs' m
    | changeParameter m => exact keeps_handleMessageChangeParameter hs' m

end Transaction

end Pocket.Utility
