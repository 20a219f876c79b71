import Pocket.Analysis.ActorWrites
import Pocket.Analysis.NoReplay
import Pocket.Analysis.SqlExecution

/-!
# Who changes actors and parameters

A transaction of a proposal is executed after its signature has verified, and its message names the
object it is about twice: once when the candidates for its signer are looked up, and once when the
handler writes.  These are the same object.  Messages to unstake or unpause an actor have its
operator and its recorded output address as candidates, a change of a parameter has the recorded
owner, and a stake does not touch an actor that is there.  So what is stored of an actor or of a
parameter changes only through a transaction of somebody who may change it
(`onlyAuthorised_of_processTx`, and over a whole proposal by induction).

That is so for statements with their arguments as data.  A service URL with a quote in it can bring
a row of somebody else's actor into the insert of one's own.
-/

set_option autoImplicit false

namespace Pocket.Utility

open Model (Bytes)
open StoreProgram StoreProgram.Prog VersionedTable SqlLexer
open Text (hexEncode hexDecode hexEncode_injective)

/-! ## Who may change what -/

/-- The transaction has a signature over all of it but the signature, which verifies under a key
with the address `signer`. -/
def SignedBy (P : Platform) (tx : Transaction) (signer : Bytes) : Prop :=
  ∃ signature publicKey signBytes, tx.signature = some signature ∧
    newPublicKeyFromBytes signature.publicKey = .ok publicKey ∧ signer = P.address publicKey ∧
    signableBytes P tx = .ok signBytes ∧ P.verify publicKey signBytes signature.signature = true

/-- `signer` is the operator or the recorded output address of the actor. -/
def ControlsActor (height : ℤ) (seen : Database) (t : ActorType) (address : String)
    (signer : Bytes) : Prop :=
  hexEncode signer = address ∨ ∃ row, (seen.actors t).lookup address height = some row ∧
    hexDecode row.outputAddress = .ok signer

/-- `signer` is the address that is stored as the owner of the parameter. -/
def OwnsParam (height : ℤ) (seen : Database) (name : String) (signer : Bytes) : Prop :=
  ∃ owner value, paramOwner name = some owner ∧ seen.params.lookup owner height = some value ∧
    hexDecode value = .ok signer

/-- All that is stored of an actor: its rows, and those of its chains. -/
def actorRows (db : Database) (t : ActorType) (address : String) :
    List (Row String ℤ ActorRow) × List ChainRow :=
  ((db.actors t).rows.filter fun row => row.key = address,
    (db.chains t).filter fun row => row.address = address)

def paramRows (db : Database) (name : String) : List (Row String ℤ String) :=
  db.params.rows.filter fun row => row.key = name

/-- One of the transactions is signed by somebody with the right to `may`. -/
def SignedByOne (X : Host) (txs : List Bytes) (may : Bytes → Prop) : Prop :=
  ∃ bz ∈ txs, ∃ tx signer, X.unmarshal bz = .ok tx ∧ SignedBy X.toPlatform tx signer ∧ may signer

/-- From `db` to `db'`, actors that `seen` has and parameters are changed by those who may. -/
structure OnlyAuthorised (X : Host) (height : ℤ) (seen : Database) (txs : List Bytes)
    (db db' : Database) : Prop where
  actors : ∀ t address row, (seen.actors t).lookup address height = some row →
    actorRows db' t address ≠ actorRows db t address →
      SignedByOne X txs (ControlsActor height seen t address)
  params : ∀ name, paramRows db' name ≠ paramRows db name →
    SignedByOne X txs (OwnsParam height seen name)

variable {may : Bytes → Prop} {msg : Message} {index fee : ℤ} {seen : Database} {P : Platform}

section Compose

variable {X : Host} {height : ℤ} {txs txs' : List Bytes} {db db₁ db' : Database}

theorem SignedByOne.mono (h : SignedByOne X txs may) (hsub : ∀ bz ∈ txs, bz ∈ txs') :
    SignedByOne X txs' may := by
  obtain ⟨bz, hbz, htx⟩ := h
  exact ⟨bz, hsub bz hbz, htx⟩

theorem OnlyAuthorised.refl (db : Database) : OnlyAuthorised X height seen txs db db :=
  ⟨fun _ _ _ _ h => absurd rfl h, fun _ h => absurd rfl h⟩

theorem OnlyAuthorised.cons {bz : Bytes} (hfirst : OnlyAuthorised X height seen [bz] db db₁)
    (hrest : OnlyAuthorised X height seen txs db₁ db') :
    OnlyAuthorised X height seen (bz :: txs) db db' := by
  have hhead : ∀ b ∈ [bz], b ∈ bz :: txs := fun b hb => by simp_all
  have htail : ∀ b ∈ txs, b ∈ bz :: txs := fun b hb => List.mem_cons_of_mem _ hb
  constructor
  · intro t address row hrow hchanged
    by_cases hsame : actorRows db₁ t address = actorRows db t address
    · rw [← hsame] at hchanged
      exact (hrest.actors t address row hrow hchanged).mono htail
    · exact (hfirst.actors t address row hrow hsame).mono hhead
  · intro name hchanged
    by_cases hsame : paramRows db₁ name = paramRows db name
    · rw [← hsame] at hchanged
      exact (hrest.params name hchanged).mono htail
    · exact (hfirst.params name hsame).mono hhead

end Compose

/-! ## What an update leaves alone -/

section Frame

variable {height : ℤ} {t t' : ActorType} {address address' : String}

theorem actorRows_setActors_upsert (db : Database) (hother : t' = t → address ≠ address')
    (row : ActorRow) :
    actorRows (db.setActors t' ((db.actors t').upsert address' height row)) t address
      = actorRows db t address := by
  by_cases ht : t' = t
  · subst ht
    simp only [actorRows, Database.setActors, Function.update_self]
    rw [Table.filter_upsert_ne _ _ _ (hother rfl)]
  · simp only [actorRows, Database.setActors, Function.update_of_ne (Ne.symm ht)]

section

variable (db : Database) (hother : t' = t → address ≠ address')
include hother

theorem actorRows_insertChains (chains : List String) :
    actorRows (db.insertChains height t' address' chains) t address = actorRows db t address := by
  by_cases ht : t' = t
  · subst ht
    simp only [actorRows, Database.insertChains, Function.update_self]
    rw [filter_foldl_insertChain fun chain => by simpa using (hother rfl).symm]
  · simp only [actorRows, Database.insertChains, Function.update_of_ne (Ne.symm ht)]

/-- The insert of another actor. -/
theorem actorRows_insertActor (row : ActorRow) (chains : List String) :
    actorRows (db.insertActor height t' address' row chains) t address = actorRows db t address := by
  rw [Database.insertActor]
  split
  · exact actorRows_setActors_upsert db hother _
  · rw [actorRows_insertChains _ hother, actorRows_setActors_upsert db hother]

/-- A change to the row of another actor. -/
theorem actorRows_updateRow (change : ActorRow → ActorRow) :
    actorRows (db.updateRow height t' address' change) t address = actorRows db t address := by
  rw [Database.updateRow]
  split
  · exact actorRows_setActors_upsert db hother _
  · rfl

end

theorem params_insertActor (db : Database) (row : ActorRow) (chains : List String) :
    (db.insertActor height t address row chains).params = db.params := by
  rw [Database.insertActor]
  split <;> rfl

theorem params_updateRow (db : Database) (change : ActorRow → ActorRow) :
    (db.updateRow height t address change).params = db.params := by
  rw [Database.updateRow]
  split <;> rfl

end Frame

/-! ## What a message may write -/

/-- The updates of a message of `signer`, when its reads see `seen`. -/
inductive AuthorisedUpdate (height : ℤ) (seen : Database) (signer : Bytes) : Update → Prop
  | setAccount (address : String) (amount : ℤ) :
    AuthorisedUpdate height seen signer (.setAccount address amount)
  | addAccount (address : String) (amount : ℤ) :
    AuthorisedUpdate height seen signer (.addAccount address amount)
  | addPool (address : String) (amount : ℤ) :
    AuthorisedUpdate height seen signer (.addPool address amount)
  | insertActor (t : ActorType) (address : String) (row : ActorRow) (chains : List String)
      (hnew : (seen.actors t).lookup address height = none) :
    AuthorisedUpdate height seen signer (.insertActor t address row chains)
  | setUnstakingHeight (t : ActorType) (address : String) (unstakingHeight : ℤ)
      (hcontrols : ControlsActor height seen t address signer) :
    AuthorisedUpdate height seen signer (.setUnstakingHeight t address unstakingHeight)
  | setPausedHeight (t : ActorType) (address : String) (pausedHeight : ℤ)
      (hcontrols : ControlsActor height seen t address signer) :
    AuthorisedUpdate height seen signer (.setPausedHeight t address pausedHeight)
  | setParam (name : String) (value : ParamValue) (howns : OwnsParam height seen name signer) :
    AuthorisedUpdate height seen signer (.setParam name value)

section Message

variable {height : ℤ} {s : Database} {tx : Transaction} {signer : Bytes} {candidates : List Bytes}

/-- The candidates of a message about an actor are its recorded output address and its operator. -/
theorem controls_of_candidate {actorType : ℤ} {operator : Bytes} (hread : (do
      let output ← getActorOutputAddress actorType operator
      return [output, operator] : Uow (List Bytes)).run.peek (store height) seen
        = some (.ok candidates)) (hmem : signer ∈ candidates) {t : ActorType}
    (ht : ActorType.ofInt actorType = some t) :
    ControlsActor height seen t (hexEncode operator) signer := by
  obtain ⟨output, houtput, hcandidates⟩ := peek_bind_eq_ok.1 hread
  obtain rfl : [output, operator] = candidates := Except.ok.inj (Option.some.inj hcandidates)
  rcases List.mem_cons.1 hmem with rfl | hoperator
  · obtain ⟨t', ht', hbody⟩ := peek_callForActor houtput
    obtain rfl : t' = t := Option.some.inj (ht'.symm.trans ht)
    obtain ⟨text, htext, hdecoded⟩ := peek_bind_eq_ok.1 hbody
    obtain ⟨row, hrow, rfl⟩ := lookup_of_selectLatest (Option.some.inj htext)
    exact .inr ⟨row, hrow, Option.some.inj hdecoded⟩
  · rw [List.mem_singleton.1 hoperator]
    exact .inl rfl

/-- The candidate of a change is the recorded owner of the parameter. -/
theorem owns_of_candidate {m : MessageChangeParameter}
    (hread : (getSignerCandidates P (.changeParameter m)).run.peek (store height) seen
      = some (.ok candidates)) (hmem : signer ∈ candidates) :
    OwnsParam height seen m.parameterKey signer := by
  obtain ⟨address, haddress, hcandidates⟩ := peek_bind_eq_ok.1 hread
  obtain rfl : [address] = candidates := Except.ok.inj (Option.some.inj hcandidates)
  obtain rfl : signer = address := List.mem_singleton.1 hmem
  have howner := peek_wrap_eq_ok.1 haddress
  rw [getParamOwner] at howner
  cases hname : paramOwner m.parameterKey with
  | none =>
    rw [hname] at howner
    cases howner
  | some owner =>
    rw [hname] at howner
    obtain ⟨text, htext, hdecoded⟩ := peek_bind_eq_ok.1 howner
    have hanswer : selectLatest seen.params id owner height = .ok text :=
      Option.some.inj (peek_wrap_eq_ok.1 htext)
    obtain ⟨value, hvalue, rfl⟩ := lookup_of_selectLatest hanswer
    exact ⟨owner, value, hname, hvalue, mapError_eq_ok.1 (Option.some.inj hdecoded)⟩

variable {inv : Database → Prop}

theorem keeps_handleStakeMessage_authorised
    (hinv : ∀ w s, AuthorisedUpdate height seen signer w → inv s → inv (apply height s w))
    (m : MessageStake) (hs : inv s) :
    Keeps (store height) (fun _ => seen) (handleStakeMessage P m) inv s := by
  refine keeps_bind_check (checks_returned _) hs fun publicKey _ => ?_
  refine keeps_bind_check (checks_checkAboveMinStake _ _) hs fun amount _ => ?_
  refine keeps_bind_check (checks_getAccountAmount _) hs fun balance _ => ?_
  refine keeps_bind_throwIf hs fun _ => ?_
  refine keeps_bind_check (checks_checkBelowMaxChains _ _) hs fun _ _ => ?_
  refine keeps_bind_check (checks_getActorExists _ _) hs fun found hfound => ?_
  refine keeps_bind_throwIf hs fun hnot => ?_
  have hpaid := hinv _ s (.setAccount (hexEncode m.signer) (balance - amount)) hs
  have hstaked := hinv _ _ (.addPool (hexEncode Pool.appStake.address) amount) hpaid
  refine keeps_bind_perform hs (keeps_bind_perform hpaid ?_)
  rw [insertActor]
  cases ht : ActorType.ofInt m.actorType with
  | none => exact ends_ret.2 hstaked
  | some t =>
    have hnew : (seen.actors t).lookup (hexEncode (P.address publicKey)) height = none := by
      rw [getActorExists, forActor, ht] at hfound
      have hanswer : ((seen.actors t).lookup (hexEncode (P.address publicKey)) height).isSome
          = found := Except.ok.inj (Option.some.inj hfound)
      rw [← hanswer] at hnot
      exact Option.not_isSome_iff_eq_none.1 hnot
    exact keeps_perform hstaked (hinv _ _ (.insertActor t _ _ _ hnew) hstaked)

/-- **A message writes what its signer may write.** -/
theorem keeps_handleMessage_authorised (hcharged : Charged P height seen tx msg signer fee)
    (hinv : ∀ w s, AuthorisedUpdate height seen signer w → inv s → inv (apply height s w))
    (hs : inv s) :
    Keeps (store height) (fun _ => seen) (handleMessage P height (msg.setSigner signer)) inv s := by
  obtain ⟨candidates, hcandidates, hmem⟩ := hcharged.candidate
  cases msg with
  | send m =>
    exact keeps_of_every (meets_handleMessageSend m .addAccount .setAccount) hinv hs
  | stake m => exact keeps_handleStakeMessage_authorised hinv _ hs
  | editStake m => exact absurd hcharged not_charged_editStake
  | unstake m =>
    refine keeps_bind_check (checks_wrap _ (checks_getActorStatus _ _)) hs fun status _ => ?_
    refine keeps_bind_throwIf hs fun _ => ?_
    refine keeps_bind_check (checks_getUnbondingHeight _) hs fun unbondingHeight _ => ?_
    refine keeps_callForActor_perform hs fun t ht => ?_
    exact hinv _ s (.setUnstakingHeight t _ _ (controls_of_candidate hcandidates hmem ht)) hs
  | unpause m =>
    refine keeps_bind_check (checks_getPausedHeightIfExists _ _) hs fun pausedHeight _ => ?_
    refine keeps_bind_throwIf hs fun _ => ?_
    refine keeps_bind_check (checks_getActorIntParam _ _) hs fun minPauseBlocks _ => ?_
    refine keeps_bind_throwIf hs fun _ => ?_
    refine keeps_callForActor_perform hs fun t ht => ?_
    exact hinv _ s (.setPausedHeight t _ _ (controls_of_candidate hcandidates hmem ht)) hs
  | changeParameter m =>
    have howns : OwnsParam height seen m.parameterKey signer := owns_of_candidate hcandidates hmem
    have hset : ∀ value, inv (apply height s (.setParam m.parameterKey value)) :=
      fun value => hinv _ s (.setParam _ value howns) hs
    refine keeps_bind_check (checks_returned _) hs fun value _ => ?_
    cases value with
    | int32Value v | stringValue v | bytesValue v => exact keeps_perform hs (hset _)
    | utility msg | other => exact nofun

/-- The whole transaction, of whoever has the key of its signature. -/
theorem keeps_handleTransaction_authorised
    (hinv : ∀ signer fee msg, Charged P height seen tx msg signer fee →
      ∀ w s, AuthorisedUpdate height seen signer w → inv s → inv (apply height s w))
    (hset : ∀ s address amount, inv s → inv (s.setAccount height address amount))
    (hadd : ∀ s address amount, inv s → inv (s.setPool height address amount)) (hs : inv s) :
    Keeps (store height) (fun _ => seen) (handleTransaction P height tx index) inv s := by
  have hkept : Keeps (store height) (fun _ => seen) (basicValidateTransaction P tx) inv s := by
    have hevery := @every_basicValidateTransaction P
      (fun w => ∀ s, inv s → inv (apply height s w)) tx
      (fun address amount s hs => hset s address amount hs)
      fun address amount s hs => hadd s address _ hs
    exact keeps_of_every hevery (fun w s hw hs => hw s hs) hs
  have hcharged := @succeeds_basicValidateTransaction P height (fun _ => seen) s tx
  have hvalidated : Ends (store height) (fun _ => seen) (basicValidateTransaction P tx).run
      (fun r s' => inv s' ∧ ∀ handled, r = .ok handled → ∃ msg signer fee,
        handled = msg.setSigner signer ∧ Charged P height seen tx msg signer fee) s :=
    fun fails r s' hexec => ⟨hkept fails r s' hexec, hcharged fails r s' hexec⟩
  refine keeps_bind hvalidated fun handled s' hhandled hs' => keeps_attempt ?_
  obtain ⟨msg, signer, fee, rfl, hcharged⟩ := hhandled
  exact keeps_handleMessage_authorised hcharged (hinv signer fee msg hcharged) hs'

end Message

/-! ## A proposal -/

section Proposal

variable {X : Host} {height : ℤ} {calls : BlockCalls} {r : Except String Unit} {s' s : BlockState}

/-- Whoever a valid transaction was charged to has signed it. -/
theorem signedBy_of_validateBasic {tx : Transaction} {signer : Bytes}
    (hvalid : tx.validateBasic P = .ok ()) (hcharged : Charged P height seen tx msg signer fee) :
    SignedBy P tx signer := by
  obtain ⟨signature, hsignature, hkey, hsigner⟩ := hcharged.signed
  have hpub : newPublicKeyFromBytes signature.publicKey = .ok signature.publicKey := if_pos hkey
  rw [Transaction.validateBasic] at hvalid
  split at hvalid
  · cases hvalid
  · simp only [hsignature] at hvalid
    obtain ⟨_, -, hvalid⟩ := except_bind_eq_ok.1 hvalid
    obtain ⟨publicKey, hkey', hvalid⟩ := except_bind_eq_ok.1 hvalid
    obtain ⟨_, -, hvalid⟩ := except_bind_eq_ok.1 hvalid
    obtain ⟨signBytes, hbytes, hvalid⟩ := except_bind_eq_ok.1 hvalid
    have hsame : publicKey = signature.publicKey :=
      Except.ok.inj ((mapError_eq_ok.1 hkey').symm.trans hpub)
    split at hvalid
    · next hverify =>
      rw [hsame] at hverify
      exact ⟨signature, _, signBytes, hsignature, hpub, hsigner, mapError_eq_ok.1 hbytes, hverify⟩
    · cases hvalid

theorem onlyAuthorised_of_exec {bz : Bytes} {tx : Transaction} {fails : ℕ → Option String}
    {r : Except Error IndexedTransaction} {db db' : Database} (htx : X.unmarshal bz = .ok tx)
    (hvalid : tx.validateBasic X.toPlatform = .ok ())
    (hexec : (handleTransaction X.toPlatform height tx index).run.exec (store height)
      (fun _ => seen) fails db = some (r, db')) : OnlyAuthorised X height seen [bz] db db' := by
  have hsigned : ∀ {msg signer fee} {may : Bytes → Prop},
      Charged X.toPlatform height seen tx msg signer fee → may signer → SignedByOne X [bz] may :=
    fun hcharged hmay => ⟨bz, List.mem_singleton.2 rfl, tx, _, htx,
      signedBy_of_validateBasic hvalid hcharged, hmay⟩
  constructor
  · intro t address row hrow hchanged
    by_contra hnone
    have hkept : Keeps (store height) (fun _ => seen) (handleTransaction X.toPlatform height tx index)
        (fun s => actorRows s t address = actorRows db t address) db := by
      refine keeps_handleTransaction_authorised ?_ (fun _ _ _ hs => hs) (fun _ _ _ hs => hs) rfl
      intro signer fee msg hcharged w s hw hs
      have hcontrols : ¬ ControlsActor height seen t address signer :=
        fun h => hnone (hsigned hcharged h)
      have hother : ∀ t' address', ControlsActor height seen t' address' signer → t' = t →
          address ≠ address' := by
        rintro t' address' h rfl rfl
        exact hcontrols h
      rw [← hs]
      cases hw with
      | setAccount | addAccount | addPool | setParam => rfl
      | insertActor t' address' row' chains hnew =>
        refine actorRows_insertActor s (fun ht haddress => ?_) _ _
        rw [ht, ← haddress, hrow] at hnew
        cases hnew
      | setUnstakingHeight t' address' unstakingHeight h
      | setPausedHeight t' address' pausedHeight h =>
        exact actorRows_updateRow s (hother t' address' h) _
    exact hchanged (hkept fails r db' hexec)
  · intro name hchanged
    by_contra hnone
    have hkept : Keeps (store height) (fun _ => seen) (handleTransaction X.toPlatform height tx index)
        (fun s => paramRows s name = paramRows db name) db := by
      refine keeps_handleTransaction_authorised ?_ (fun _ _ _ hs => hs) (fun _ _ _ hs => hs) rfl
      intro signer fee msg hcharged w s hw hs
      rw [← hs]
      cases hw with
      | setAccount | addAccount | addPool => rfl
      | insertActor t address row chains hnew =>
        exact congrArg (List.filter _) (congrArg Table.rows (params_insertActor s row chains))
      | setUnstakingHeight t address unstakingHeight h
      | setPausedHeight t address pausedHeight h =>
        exact congrArg (List.filter _) (congrArg Table.rows (params_updateRow s _))
      | setParam name' value howns =>
        have hne : name ≠ name' := fun heq => hnone (hsigned hcharged (heq ▸ howns))
        exact Table.filter_upsert_ne _ _ _ hne
    exact hchanged (hkept fails r db' hexec)

/-- One transaction of a proposal. -/
theorem onlyAuthorised_of_processTx {i : ℕ} {bz : Bytes}
    (h : processTx X height seen calls i bz s = some (r, s')) :
    OnlyAuthorised X height seen [bz] s.db s'.db := by
  rcases processTx_cases h with ⟨err, -, rfl⟩ | ⟨tx, r₁, s₁, htx, hvalid, hexec, hend⟩
  · exact .refl _
  have hdb : s'.db = s₁.db := by
    rcases hend with ⟨_, -, -, rfl⟩ | ⟨_, _, -, -, -, rfl⟩
    · rfl
    · rfl
  obtain ⟨result, hrun⟩ := exec_of_executeTx hexec
  rw [hdb]
  exact onlyAuthorised_of_exec htx hvalid hrun

/-- A whole proposal, by induction over its transactions. -/
theorem onlyAuthorised_of_process {i : ℕ} {txs : List Bytes}
    (h : processProposalBlockTransactions X height seen calls i txs s = some (r, s')) :
    OnlyAuthorised X height seen txs s.db s'.db := by
  induction txs generalizing i s with
  | nil =>
    cases h
    exact .refl _
  | cons bz txs ih =>
    rw [processProposalBlockTransactions] at h
    rcases andThen_cases h with ⟨err, hfirst, -⟩ | ⟨_, s₁, hfirst, hrest⟩
    · exact (onlyAuthorised_of_processTx hfirst).cons (.refl _)
    · exact (onlyAuthorised_of_processTx hfirst).cons (ih hrest)

end Proposal

/-! ## A stake that lowers the stake of another -/

/-- A validator `03` has staked 50. -/
def victimDatabase : Database :=
  stakeDatabase.setActors .val
    (Table.empty.upsert "03" 1 ⟨"03", "50", "https://validator", "03", -1, -1⟩)

/-- Every transaction stakes a validator for the address `01`. -/
def stakingHost (serviceUrl : String) : Host where
  toPlatform := ownerPlatform (stakeValidator serviceUrl)
  unmarshal := fun _ => .ok ownerTx
  sha3 := id
  maxTxsBytesTotal := 1000
  maxTxs := 10

/-- The row of the validator that stakes. -/
def stakedRow (serviceUrl : String) : ActorRow :=
  ⟨hexEncode (List.replicate 32 1), "15", serviceUrl, "01", -1, -1⟩

/-- Only accounts and pools are written before the validator is inserted. -/
def stakeUpdates (serviceUrl : String) : List Update :=
  [.setAccount "01" 85, .addPool (hexEncode Pool.appStake.address) 15,
    .insertActor .val "01" (stakedRow serviceUrl) []]

theorem plan_stakeValidator (server : Server) (serviceUrl : String) :
    (handleMessage (stakingHost serviceUrl).toPlatform 2 (stakeValidator serviceUrl)).run.plan
        (server.store 2) victimDatabase
      = some (.ok (), stakeUpdates serviceUrl) := by
  have hamount : (checkAboveMinStake 4 "15").run.plan (server.store 2) victimDatabase
      = some (.ok 15, []) := by rfl
  refine plan_bind_eq_ok.2 ⟨List.replicate 32 1, [], _, rfl, ?_, rfl⟩
  refine plan_bind_eq_ok.2 ⟨15, [], _, hamount, ?_, rfl⟩
  refine plan_bind_eq_ok.2 ⟨100, [], _, rfl, ?_, rfl⟩
  rfl

theorem exists_plan_ownerTx (server : Server) (serviceUrl : String) :
    ∃ idxTx, (handleTransaction (stakingHost serviceUrl).toPlatform 2 ownerTx 0).run.plan
        (server.store 2) victimDatabase
      = some (.ok idxTx, [.setAccount "01" 100, .addPool (hexEncode Pool.feeCollector.address) 0] ++
          stakeUpdates serviceUrl) := by
  obtain ⟨idxTx, hidxTx⟩ : ∃ idxTx, txToIdxTx (stakingHost serviceUrl).toPlatform ownerTx 2 0
      (stakeValidator serviceUrl) (.ok ()) = .ok idxTx := ⟨_, rfl⟩
  have hfee : (basicValidateTransaction (stakingHost serviceUrl).toPlatform ownerTx).run.plan
      (server.store 2) victimDatabase = some (.ok (stakeValidator serviceUrl),
        [.setAccount "01" 100, .addPool (hexEncode Pool.feeCollector.address) 0]) := by
    rfl
  have hattempt : (attempt (handleMessage (stakingHost serviceUrl).toPlatform 2
      (stakeValidator serviceUrl)) : Uow (Except Error Unit)).run.plan (server.store 2) victimDatabase
      = some (.ok (.ok ()), stakeUpdates serviceUrl) := by
    rw [plan_attempt, plan_stakeValidator]
    rfl
  refine ⟨idxTx, plan_bind_eq_ok.2 ⟨stakeValidator serviceUrl, _, _, hfee, ?_, rfl⟩⟩
  refine plan_bind_eq_ok.2 ⟨.ok (), _, [], hattempt, ?_, (List.append_nil _).symm⟩
  rw [hidxTx]
  rfl

/-- The transaction goes through, and the insert of the validator is the last of its updates. -/
theorem exists_stakingHost_run (server : Server) (serviceUrl : String) :
    ∃ s' db, server.processProposalBlockTransactions (stakingHost serviceUrl) 2 victimDatabase
        quietCalls 0 [[0]] ⟨victimDatabase, [], .empty, .empty⟩ = some (.ok (), s') ∧
      s'.db = Update.execute server 2 db (.insertActor .val "01" (stakedRow serviceUrl) []) := by
  have hvalid : ownerTx.validateBasic (stakingHost serviceUrl).toPlatform = .ok () := rfl
  obtain ⟨hash, hhash⟩ : ∃ hash, (stakingHost serviceUrl).hash ownerTx = .ok hash := ⟨_, rfl⟩
  obtain ⟨idxTx, hplan⟩ := exists_plan_ownerTx server serviceUrl
  obtain ⟨s', hrun, hdb⟩ := @exists_processTx_eq_plan server [0] (stakingHost serviceUrl) 2
    victimDatabase quietCalls 0 ownerTx idxTx _ hash rfl hvalid hhash hplan rfl rfl
    ⟨victimDatabase, [], .empty, .empty⟩
  simp only [stakeUpdates, List.cons_append, List.nil_append, List.foldl_cons, List.foldl_nil] at hdb
  refine ⟨s', _, ?_, hdb⟩
  rw [Server.processProposalBlockTransactions, processProposalBlockTransactions, ← Server.processTx,
    hrun]
  rfl

theorem signer_of_stakingHost {serviceUrl : String}
    (h : SignedByOne (stakingHost serviceUrl) [[0]] may) : may [1] := by
  obtain ⟨bz, -, tx, signer, -, ⟨_, _, _, -, -, rfl, -⟩, hmay⟩ := h
  exact hmay

end Pocket.Utility
