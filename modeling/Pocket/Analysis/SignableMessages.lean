import Pocket.Analysis.AuthorisedChanges

/-!
# Who can sign what

Three switches decide about a message: the one over the candidates for its signer, the one over its fee and
the one over its handler.  The first has no case for an edited stake, although the fee and the handler are
there, so nobody can sign one.  Every other message can be signed by whoever it is meant for, as long as the
candidates can be read: a stake has to carry a public key, and the recorded output address of an actor has
to be hexadecimal text, also when its operator signs.
-/

set_option autoImplicit false

namespace Pocket.Utility

open Model (Bytes)
open StoreProgram StoreProgram.Prog VersionedTable
open Text (hexEncode hexDecode hexEncode_injective)

variable {P : Platform} {height actorType fee : ℤ} {seen : Database} {signer operator : Bytes}
  {msg : Message} {tx : Transaction}

/-- The actor is stored, and `signer` is its operator or its output address. -/
def SignsFor (height : ℤ) (seen : Database) (actorType : ℤ) (operator signer : Bytes) : Prop :=
  ∃ t row, ActorType.ofInt actorType = some t ∧
    (seen.actors t).lookup (hexEncode operator) height = some row ∧
    ControlsActor height seen t (hexEncode operator) signer

/-- The one the message is meant to be signed by.  Of a stake the operator is the address of the
public key in it. -/
def MeantFor (P : Platform) (height : ℤ) (seen : Database) (signer : Bytes) : Message → Prop
  | .send m => signer = m.fromAddress
  | .stake m => signer = m.outputAddress ∨
      ∃ pk, newPublicKeyFromBytes m.publicKey = .ok pk ∧ signer = P.address pk
  | .editStake m => SignsFor height seen m.actorType m.address signer
  | .unstake m => SignsFor height seen m.actorType m.address signer
  | .unpause m => SignsFor height seen m.actorType m.address signer
  | .changeParameter m => OwnsParam height seen m.parameterKey signer

/-- The recorded output address of the actor is hexadecimal text. -/
def OutputReadable (height : ℤ) (seen : Database) (actorType : ℤ) (operator : Bytes) : Prop :=
  ∃ t row output, ActorType.ofInt actorType = some t ∧
    (seen.actors t).lookup (hexEncode operator) height = some row ∧
    hexDecode row.outputAddress = .ok output

/-- The candidates of the message can be read. -/
def Signable (height : ℤ) (seen : Database) : Message → Prop
  | .send _ => True
  | .stake m => m.publicKey.length = 32
  | .editStake _ => False
  | .unstake m => OutputReadable height seen m.actorType m.address
  | .unpause m => OutputReadable height seen m.actorType m.address
  | .changeParameter _ => True

/-! ## The candidates -/

theorem peek_getActorOutputAddress {output : Bytes} :
    (getActorOutputAddress actorType operator).run.peek (store height) seen = some (.ok output) ↔
      ∃ t row, ActorType.ofInt actorType = some t ∧
        (seen.actors t).lookup (hexEncode operator) height = some row ∧
        hexDecode row.outputAddress = .ok output := by
  constructor
  · intro h
    obtain ⟨t, ht, hbody⟩ := peek_callForActor h
    obtain ⟨text, htext, hdecoded⟩ := peek_bind_eq_ok.1 hbody
    obtain ⟨row, hrow, rfl⟩ := lookup_of_selectLatest (Option.some.inj htext)
    exact ⟨t, row, ht, hrow, Option.some.inj hdecoded⟩
  · rintro ⟨t, row, ht, hrow, hdecoded⟩
    have hanswer : (store height).answer seen (.outputAddress t (hexEncode operator))
        = .ok row.outputAddress := by
      change selectLatest (seen.actors t) ActorRow.outputAddress (hexEncode operator) height = _
      rw [selectLatest, hrow]
    rw [getActorOutputAddress, callForActor, peek_wrap_eq_ok, ht]
    refine peek_bind_eq_ok.2 ⟨row.outputAddress, congrArg some hanswer, ?_⟩
    rw [hdecoded]
    rfl

theorem actor_candidate_iff (hsigns : SignsFor height seen actorType operator signer) :
    (∃ candidates, (do
        let output ← getActorOutputAddress actorType operator
        return [output, operator] : Uow (List Bytes)).run.peek (store height) seen
          = some (.ok candidates) ∧ signer ∈ candidates)
      ↔ OutputReadable height seen actorType operator := by
  constructor
  · rintro ⟨candidates, hread, -⟩
    obtain ⟨output, houtput, -⟩ := peek_bind_eq_ok.1 hread
    obtain ⟨t, row, ht, hrow, hdecoded⟩ := peek_getActorOutputAddress.1 houtput
    exact ⟨t, row, output, ht, hrow, hdecoded⟩
  · rintro ⟨t, row, output, ht, hrow, hdecoded⟩
    have houtput := peek_getActorOutputAddress.2 ⟨t, row, ht, hrow, hdecoded⟩
    refine ⟨[output, operator], peek_bind_eq_ok.2 ⟨output, houtput, rfl⟩, ?_⟩
    obtain ⟨t', row', ht', hrow', hcontrols⟩ := hsigns
    obtain rfl : t = t' := Option.some.inj (ht.symm.trans ht')
    rcases hcontrols with hoperator | ⟨row'', hrow'', hsigner⟩
    · exact List.mem_cons_of_mem _ (List.mem_singleton.2 (hexEncode_injective hoperator))
    · obtain rfl : row = row'' := Option.some.inj (hrow.symm.trans hrow'')
      exact List.mem_cons.2 (.inl (Except.ok.inj (hsigner.symm.trans hdecoded)))

theorem peek_getParamOwner {name : String} (howns : OwnsParam height seen name signer) :
    (getParamOwner name).run.peek (store height) seen = some (.ok signer) := by
  obtain ⟨owner, value, hname, hvalue, hdecoded⟩ := howns
  rw [getParamOwner, hname]
  refine peek_bind_eq_ok.2 ⟨value, peek_getStringParam hvalue, ?_⟩
  rw [hdecoded]
  rfl

/-- The one a message is meant for is a candidate exactly when the candidates can be read. -/
theorem candidate_iff_signable (hmeant : MeantFor P height seen signer msg) :
    (∃ candidates, (getSignerCandidates P msg).run.peek (store height) seen = some (.ok candidates)
      ∧ signer ∈ candidates) ↔ Signable height seen msg := by
  cases msg with
  | send m => exact iff_of_true ⟨[m.fromAddress], rfl, List.mem_singleton.2 hmeant⟩ trivial
  | stake m =>
    constructor
    · rintro ⟨candidates, hread, -⟩
      obtain ⟨pk, hpk, -⟩ := peek_bind_eq_ok.1 hread
      have hkey : newPublicKeyFromBytes m.publicKey = .ok pk :=
        mapError_eq_ok.1 (Option.some.inj hpk)
      show m.publicKey.length = 32
      by_contra hlength
      rw [newPublicKeyFromBytes, if_neg hlength] at hkey
      cases hkey
    · intro hlength
      have hkey : newPublicKeyFromBytes m.publicKey = .ok m.publicKey := if_pos hlength
      refine ⟨[m.outputAddress, P.address m.publicKey],
        peek_bind_eq_ok.2 ⟨m.publicKey, by rw [hkey]; rfl, rfl⟩, ?_⟩
      rcases hmeant with houtput | ⟨pk, hpk, hoperator⟩
      · exact List.mem_cons.2 (.inl houtput)
      · obtain rfl : m.publicKey = pk := Except.ok.inj (hkey.symm.trans hpk)
        exact List.mem_cons_of_mem _ (List.mem_singleton.2 hoperator)
  | editStake m =>
    refine iff_of_false ?_ id
    rintro ⟨candidates, hread, -⟩
    cases hread
  | unstake m | unpause m => exact actor_candidate_iff hmeant
  | changeParameter m =>
    refine iff_of_true ⟨[signer], ?_, List.mem_singleton.2 rfl⟩ trivial
    exact peek_bind_eq_ok.2 ⟨signer, peek_wrap_eq_ok.2 (peek_getParamOwner hmeant), rfl⟩

/-! ## The checks up to the fee -/

/-- What a transaction writes for a fee: the account was read in `seen`. -/
def feeUpdates (height : ℤ) (seen : Database) (signer : Bytes) (fee : ℤ) : List Update :=
  [.setAccount (hexEncode signer) (seen.accounts.amount (hexEncode signer) height - fee),
    .addPool (hexEncode Pool.feeCollector.address) fee]

theorem plan_validateAndDeductTxFees {address : Bytes}
    (hfee : (getFee msg).run.peek (store height) seen = some (.ok fee))
    (haffordable : fee ≤ seen.accounts.amount (hexEncode address) height) :
    (validateAndDeductTxFees address msg).run.plan (store height) seen
      = some (.ok (), feeUpdates height seen address fee) := by
  have hcovered : ¬ seen.accounts.amount (hexEncode address) height - fee < 0 := by omega
  have hfee' := plan_of_peek (checks_getFee _) hfee
  refine plan_bind_eq_ok.2 ⟨fee, [], _, hfee', ?_, rfl⟩
  refine plan_bind_eq_ok.2 ⟨seen.accounts.amount (hexEncode address) height, [], _, rfl, ?_, rfl⟩
  refine plan_bind_eq_ok.2 ⟨(), [], _, by rw [throwIf, if_neg hcovered]; rfl, ?_, rfl⟩
  rfl

theorem plan_basicValidateTransaction (h : Charged P height seen tx msg signer fee) :
    (basicValidateTransaction P tx).run.plan (store height) seen
      = some (.ok (msg.setSigner signer), feeUpdates height seen signer fee) := by
  obtain ⟨signature, hsignature, hlength, hsigner⟩ := h.signed
  have hkey : newPublicKeyFromBytes signature.publicKey = .ok signature.publicKey := if_pos hlength
  have hmsg : (validateTxMessage P tx).run.plan (store height) seen = some (.ok msg, []) :=
    plan_of_peek (checks_validateTxMessage tx) (peek_validateTxMessage.2 h.decoded)
  have hvalid := plan_of_peek (checks_validateTxSignature _ _)
    (peek_validateTxSignature.2 ⟨rfl, h.candidate⟩)
  have hfee : (getFee (msg.setSigner signer)).run.peek (store height) seen = some (.ok fee) := by
    rw [getFee_setSigner]
    exact h.fee_eq
  refine plan_bind_eq_ok.2 ⟨msg, [], _, hmsg, ?_, rfl⟩
  simp only [hsignature, hkey, ← hsigner]
  refine plan_bind_eq_ok.2 ⟨signer, [], _, hvalid, ?_, rfl⟩
  have hpaid := plan_validateAndDeductTxFees hfee h.affordable
  exact plan_bind_eq_ok.2 ⟨(), _, [], hpaid, rfl, (List.append_nil _).symm⟩

/-- A transaction passes the checks up to the fee exactly when it is `Charged`. -/
theorem validated_iff_charged (db : Database) (hdecoded : P.fromAny tx.msg = .ok (.utility msg))
    {signature : Signature} (hsignature : tx.signature = some signature) :
    (∃ db', (basicValidateTransaction P tx).run.exec (store height) (fun _ => seen)
        (fun _ => none) db = some (.ok (msg.setSigner (P.address signature.publicKey)), db'))
      ↔ ∃ fee, Charged P height seen tx msg (P.address signature.publicKey) fee := by
  constructor
  · rintro ⟨db', hexec⟩
    obtain ⟨msg', signer', fee, -, hcharged⟩ :=
      succeeds_basicValidateTransaction _ _ _ hexec _ rfl
    obtain rfl : msg = msg' := by
      have := hdecoded.symm.trans hcharged.decoded
      simpa using this
    obtain ⟨signature', hsignature', -, rfl⟩ := hcharged.signed
    obtain rfl : signature = signature' := Option.some.inj (hsignature.symm.trans hsignature')
    exact ⟨fee, hcharged⟩
  · rintro ⟨fee, hcharged⟩
    rw [exec_eq_plan, plan_basicValidateTransaction hcharged]
    exact ⟨_, rfl⟩

/-- **Which messages can be signed.**  For every state `seen` that is read and every state `db` that is
written, a message that is signed by the one it is meant for, and whose fee is covered, is
returned exactly when its candidates can be read. -/
theorem validated_iff_signable (seen db : Database) {tx : Transaction} {msg : Message}
    (hdecoded : P.fromAny tx.msg = .ok (.utility msg)) {signature : Signature}
    (hsignature : tx.signature = some signature) (hkey : signature.publicKey.length = 32)
    (hmeant : MeantFor P height seen (P.address signature.publicKey) msg) {fee : ℤ}
    (hfee : (getFee msg).run.peek (store height) seen = some (.ok fee))
    (hcovered : fee ≤ seen.accounts.amount (hexEncode (P.address signature.publicKey)) height) :
    (∃ db', (basicValidateTransaction P tx).run.exec (store height) (fun _ => seen)
        (fun _ => none) db = some (.ok (msg.setSigner (P.address signature.publicKey)), db'))
      ↔ Signable height seen msg := by
  rw [validated_iff_charged db hdecoded hsignature, ← candidate_iff_signable hmeant]
  constructor
  · rintro ⟨fee, hcharged⟩
    exact hcharged.candidate
  · intro hcandidate
    exact ⟨fee, hdecoded, ⟨signature, hsignature, hkey, rfl⟩, hcandidate, hfee, hcovered⟩

/-! ## The operator of one application -/

/-- An application with the operator `01`, whose messages cost nothing. -/
def operatorDatabase : Database :=
  let db := ownerDatabase "0"
  { db with
    params := [(messageEditStakeFee .app, "0"), (messageUnstakeFee .app, "0")].foldl
      (fun params p => params.upsert p.1 1 p.2) db.params
    actors := fun
      | .app => Table.empty.upsert "01" 1
        { publicKey := "", stakedTokens := "10", serviceUrl := "", outputAddress := "02"
          pausedHeight := -1, unstakingHeight := -1 }
      | _ => .empty }

def operatorEdit : Message :=
  .editStake { actorType := 1, address := [1], chains := [], amount := "20", serviceUrl := "" }

/-- The operator signs an edit of the stake, which costs nothing and has a handler, and is told that the
message is unknown. -/
theorem edit_stake_unknown :
    let P := ownerPlatform operatorEdit
    MeantFor P 1 operatorDatabase [1] operatorEdit
      ∧ (getFee operatorEdit).run.peek (store 1) operatorDatabase = some (.ok 0)
      ∧ (basicValidateTransaction P ownerTx).run.plan (store 1) operatorDatabase
        = some (.error (errUnknownMessage "*types.MessageEditStake"), [])
      ∧ ¬ ∃ db', (basicValidateTransaction P ownerTx).run.exec (store 1) (fun _ => operatorDatabase)
        (fun _ => none) operatorDatabase = some (.ok (operatorEdit.setSigner [1]), db') := by
  intro P
  have hplan : (basicValidateTransaction P ownerTx).run.plan (store 1) operatorDatabase
      = some (.error (errUnknownMessage "*types.MessageEditStake"), []) := rfl
  refine ⟨⟨.app, _, rfl, rfl, .inl rfl⟩, by decide, hplan, ?_⟩
  rintro ⟨db', hexec⟩
  rw [exec_eq_plan, hplan] at hexec
  cases hexec

def operatorUnstake : Message := .unstake { actorType := 1, address := [1] }

/-- The operator can sign that the application unstakes. -/
theorem operator_signs_unstake :
    let P := ownerPlatform operatorUnstake
    Signable 1 operatorDatabase operatorUnstake
      ∧ ∃ db', (basicValidateTransaction P ownerTx).run.exec (store 1) (fun _ => operatorDatabase)
        (fun _ => none) operatorDatabase = some (.ok (operatorUnstake.setSigner [1]), db') := by
  intro P
  have hsignable : Signable 1 operatorDatabase operatorUnstake :=
    ⟨.app, _, [2], rfl, rfl, by decide⟩
  have hmeant : MeantFor P 1 operatorDatabase [1] operatorUnstake :=
    ⟨.app, _, rfl, rfl, .inl rfl⟩
  have hfee : (getFee operatorUnstake).run.peek (store 1) operatorDatabase = some (.ok 0) := by
    decide
  exact ⟨hsignable, (@validated_iff_signable P 1 operatorDatabase operatorDatabase ownerTx
    operatorUnstake rfl _ rfl rfl hmeant 0 hfee (by decide)).2 hsignable⟩

end Pocket.Utility
