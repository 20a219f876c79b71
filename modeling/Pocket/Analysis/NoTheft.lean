import Pocket.Analysis.TransactionOutcome

/-!
# Who a transaction can take money from

A transaction is safe when, whichever of its calls fail, it lowers no account but its
signer's and leaves no account, pool or stake below zero.  Amounts in messages are signed
decimal texts and no check on the path asks for their sign, so this is not so for every
transaction; `no_theft_iff` says for which it is.
-/

set_option autoImplicit false

namespace Pocket.Utility

open Model (Bytes)
open StoreProgram StoreProgram.Prog VersionedTable
open Text (hexEncode hexEncode_injective)

variable {P : Platform} {height fee : ℤ} {db s : Database} {t : ActorType} {tx : Transaction}

/-! ## Safe states -/

/-- The text is a number that is not negative. -/
def NonNegativeText (text : String) : Prop := ∃ n, stringToBigInt text = .ok n ∧ 0 ≤ n

/-- No balance and no stake is negative. -/
structure NonNegative (height : ℤ) (db : Database) : Prop where
  accounts : ∀ address, 0 ≤ db.accounts.amount address height
  pools : ∀ address, 0 ≤ db.pools.amount address height
  stakes : ∀ t address text, db.stakedTokens height t address = some text → NonNegativeText text

/-- `db'` is what is left of `db` after something that only the owner of the account `signer`
may have paid for. -/
structure Safe (height : ℤ) (signer : String) (db db' : Database) : Prop extends
    NonNegative height db' where
  untouched : ∀ address, address ≠ signer →
    db.accounts.amount address height ≤ db'.accounts.amount address height

namespace Safe

variable {signer : String} {s' : Database}

theorem refl (h : NonNegative height db) : Safe height signer db db :=
  ⟨h, fun _ _ => le_rfl⟩

section

variable (h : Safe height signer db s)
include h

theorem keepsMoney (hkeeps : KeepsMoney height s s') : Safe height signer db s' := by
  refine ⟨⟨?_, ?_, ?_⟩, ?_⟩
  · rw [hkeeps.accounts]
    exact h.accounts
  · rw [hkeeps.pools]
    exact h.pools
  · rw [hkeeps.stakes]
    exact h.stakes
  · rw [hkeeps.accounts]
    exact h.untouched

/-- Writing an account is safe exactly when the amount is not negative and, for an account
that is not the signer's, not below what the account had. -/
theorem setAccount_iff (address : String) (amount : ℤ) :
    Safe height signer db (s.setAccount height address amount) ↔
      0 ≤ amount ∧ (address ≠ signer → db.accounts.amount address height ≤ amount) := by
  have hwritten : (s.setAccount height address amount).accounts.amount address height = amount :=
    Table.amount_upsert_self _ _ _ _
  have hother : ∀ address', address' ≠ address →
      (s.setAccount height address amount).accounts.amount address' height
        = s.accounts.amount address' height := fun address' hne => Table.amount_upsert_ne _ _ _ hne
  constructor
  · intro hsafe
    exact ⟨hwritten ▸ hsafe.accounts address, fun hne => hwritten ▸ hsafe.untouched address hne⟩
  · rintro ⟨hnonneg, hkept⟩
    refine ⟨⟨fun address' => ?_, h.pools, h.stakes⟩, fun address' hne => ?_⟩
    · by_cases heq : address' = address
      · rw [heq, hwritten]
        exact hnonneg
      · rw [hother _ heq]
        exact h.accounts _
    · by_cases heq : address' = address
      · rw [heq, hwritten]
        exact hkept (heq ▸ hne)
      · rw [hother _ heq]
        exact h.untouched _ hne

/-- A write to a pool is safe if and only if the new balance is not negative. -/
theorem setPool_iff (address : String) (amount : ℤ) :
    Safe height signer db (s.setPool height address amount) ↔ 0 ≤ amount := by
  have hwritten : (s.setPool height address amount).pools.amount address height = amount :=
    Table.amount_upsert_self _ _ _ _
  constructor
  · intro hsafe
    exact hwritten ▸ hsafe.pools address
  · intro hnonneg
    refine ⟨⟨h.accounts, fun address' => ?_, h.stakes⟩, h.untouched⟩
    by_cases heq : address' = address
    · rw [heq, hwritten]
      exact hnonneg
    · have hother : (s.setPool height address amount).pools.amount address' height
          = s.pools.amount address' height := Table.amount_upsert_ne _ _ _ heq
      rw [hother]
      exact h.pools _

/-- A new version of an actor is safe if and only if its stake is not negative. -/
theorem insertActor_iff (t : ActorType) (address : String) (row : ActorRow) (chains : List String) :
    Safe height signer db (s.insertActor height t address row chains) ↔
      NonNegativeText row.stakedTokens := by
  have haccounts : (s.insertActor height t address row chains).accounts = s.accounts := by
    rw [Database.insertActor]
    split <;> rfl
  have hpools : (s.insertActor height t address row chains).pools = s.pools := by
    rw [Database.insertActor]
    split <;> rfl
  constructor
  · intro hsafe
    refine hsafe.stakes t address _ ?_
    rw [stakedTokens_insertActor, if_pos ⟨rfl, rfl⟩]
  · intro hstake
    refine ⟨⟨haccounts ▸ h.accounts, hpools ▸ h.pools, fun t' address' text htext => ?_⟩,
      haccounts ▸ h.untouched⟩
    rw [stakedTokens_insertActor] at htext
    split at htext
    · exact Option.some.inj htext ▸ hstake
    · exact h.stakes t' address' text htext

end

end Safe

/-! ## Safe transactions -/

/-- The address of the key that signed the transaction. -/
def signerOf (P : Platform) (tx : Transaction) : Bytes :=
  match tx.signature with
  | some signature => P.address signature.publicKey
  | none => []

/-- A parameter set to a value of a type that no parameter has: the process ends before it
calls anything. -/
def Unsupported (P : Platform) : Message → Prop
  | .changeParameter m => P.fromAny m.parameterValue = .ok .other ∨
      ∃ msg, P.fromAny m.parameterValue = .ok (.utility msg)
  | _ => False

/-- A send of a negative amount is safe only when the signer takes it from itself and has it;
a stake of a negative amount is safe only when some check of the handler stops it. -/
def MessageSafe (P : Platform) (height : ℤ) (db : Database) (signer : Bytes) (fee : ℤ) :
    Message → Prop
  | .send m => ∀ amount, stringToBigInt m.amount = .ok amount →
      0 ≤ amount ∨ m.toAddress = m.fromAddress ∧
        0 ≤ db.accounts.amount (hexEncode signer) height - fee + amount
  | .stake m => ∀ amount,
      StakeAccepted P height (db.charge height signer fee) { m with signer } amount → 0 ≤ amount
  | _ => True

/-- The transaction is refused, or its fee leaves the fee collector with something and its
message is safe. -/
def TheftFree (P : Platform) (height : ℤ) (db : Database) (tx : Transaction) : Prop :=
  ∀ msg signer fee, Charged P height db tx msg signer fee →
    Unsupported P msg ∨
      0 ≤ db.pools.amount (hexEncode Pool.feeCollector.address) height + fee ∧
        MessageSafe P height db signer fee msg

theorem Charged.signer_eq_signerOf {msg : Message} {signer : Bytes}
    (h : Charged P height db tx msg signer fee) : signer = signerOf P tx := by
  obtain ⟨signature, hsignature, -, hsigner⟩ := h.signed
  rw [signerOf, hsignature, hsigner]

/-! Every handler makes a call before it writes, unless it refuses outright or crashes; when
that call fails, the transaction ends where the fee left it. -/

section FirstCall

variable {inv : Database → Prop} {m : MessageChangeParameter}

theorem of_wp_handleMessageSend {m : MessageSend}
    (h : (handleMessageSend m).run.wp (store height) (fun _ => True) (fun _ => inv) s) : inv s := by
  rw [handleMessageSend] at h
  cases hamount : stringToBigInt m.amount with
  | error e =>
    rw [hamount] at h
    exact h
  | ok amount =>
    rw [hamount] at h
    exact of_wp_bind_query (e := "") (checks_getAccountAmount _) rfl trivial h

theorem of_wp_handleStakeMessage {m : MessageStake} (ht : ActorType.ofInt m.actorType = some t)
    (h : (handleStakeMessage P m).run.wp (store height) (fun _ => True) (fun _ => inv) s) :
    inv s := by
  rw [handleStakeMessage] at h
  cases hkey : newPublicKeyFromBytes m.publicKey with
  | error e =>
    rw [hkey] at h
    exact h
  | ok publicKey =>
    have hquery : ∃ q k, (checkAboveMinStake m.actorType m.amount).run = .query q k := by
      rw [checkAboveMinStake, getMinRequiredStakeAmount, forActor, ht]
      exact ⟨_, _, rfl⟩
    obtain ⟨q, k, hquery⟩ := hquery
    rw [hkey] at h
    exact of_wp_bind_query (e := "") (checks_checkAboveMinStake _ _) hquery trivial h

theorem of_wp_handleUnstakeMessage {m : MessageUnstake} (ht : ActorType.ofInt m.actorType = some t)
    (h : (handleUnstakeMessage height m).run.wp (store height) (fun _ => True) (fun _ => inv) s) :
    inv s := by
  have hquery : ∃ q k, (wrap (fun _ => errInvalidStatus stakeStatusUnknown stakeStatusStaked)
      (getActorStatus height m.actorType m.address)).run = .query q k := by
    rw [getActorStatus, callForActor, ht]
    exact ⟨_, _, rfl⟩
  obtain ⟨q, k, hquery⟩ := hquery
  rw [handleUnstakeMessage] at h
  exact of_wp_bind_query (e := "") (checks_wrap _ (checks_getActorStatus _ _)) hquery trivial h

theorem of_wp_handleUnpauseMessage {m : MessageUnpause} (ht : ActorType.ofInt m.actorType = some t)
    (h : (handleUnpauseMessage height m).run.wp (store height) (fun _ => True) (fun _ => inv) s) :
    inv s := by
  have hquery : ∃ q k, (getPausedHeightIfExists m.actorType m.address).run = .query q k := by
    rw [getPausedHeightIfExists, callForActor, ht]
    exact ⟨_, _, rfl⟩
  obtain ⟨q, k, hquery⟩ := hquery
  rw [handleUnpauseMessage] at h
  exact of_wp_bind_query (e := "") (checks_getPausedHeightIfExists _ _) hquery trivial h

theorem of_wp_handleMessageChangeParameter (hsupported : ¬ Unsupported P (.changeParameter m))
    (h : (handleMessageChangeParameter P m).run.wp (store height) (fun _ => True) (fun _ => inv) s) :
    inv s := by
  rw [handleMessageChangeParameter] at h
  cases hvalue : P.fromAny m.parameterValue with
  | error e =>
    rw [hvalue] at h
    exact h
  | ok value =>
    rw [hvalue] at h
    cases value with
    | int32Value v | stringValue v | bytesValue v => exact h.1 "" trivial
    | utility msg => exact absurd (.inr ⟨msg, hvalue⟩) hsupported
    | other => exact absurd (.inl hvalue) hsupported

theorem wp_of_unsupported {post : Except Error Unit → Database → Prop}
    (h : Unsupported P (.changeParameter m)) :
    (handleMessageChangeParameter P m).run.wp (store height) (fun _ => True) post s := by
  rw [handleMessageChangeParameter]
  rcases h with hvalue | ⟨msg, hvalue⟩
  · rw [hvalue]
    trivial
  · rw [hvalue]
    trivial

end FirstCall

/-! ## The two handlers that move money -/

/-- A send is safe if and only if its amount is not negative, or it goes back to its own sender,
who can afford it. -/
theorem wp_handleMessageSend_safe_iff {m : MessageSend}
    (hs : Safe height (hexEncode m.fromAddress) db s)
    (hsame : ∀ address, address ≠ hexEncode m.fromAddress →
      s.accounts.amount address height = db.accounts.amount address height) :
    (handleMessageSend m).run.wp (store height) (fun _ => True)
        (fun _ => Safe height (hexEncode m.fromAddress) db) s ↔
      ∀ amount, stringToBigInt m.amount = .ok amount →
        0 ≤ amount ∨ m.toAddress = m.fromAddress ∧
          0 ≤ s.accounts.amount (hexEncode m.fromAddress) height + amount := by
  rw [wp_handleMessageSend fun _ => hs]
  refine forall₂_congr fun amount _ => ?_
  have hsender := hs.accounts (hexEncode m.fromAddress)
  have hrecipient := hs.accounts (hexEncode m.toAddress)
  constructor
  · intro h
    by_cases hpos : 0 ≤ amount
    · exact .inl hpos
    -- a negative amount always passes the check of the sender's funds
    obtain ⟨hcredit, -⟩ := h (by omega)
    obtain ⟨hnonneg, hkept⟩ := (hs.setAccount_iff _ _).1 (hcredit "" trivial)
    by_cases hto : m.toAddress = m.fromAddress
    · exact .inr ⟨hto, hto ▸ hnonneg⟩
    · have hne : hexEncode m.toAddress ≠ hexEncode m.fromAddress :=
        fun heq => hto (hexEncode_injective heq)
      have hlowered := hkept hne
      rw [hsame _ hne] at hlowered
      omega
  · intro h hcovered
    have hcredited : Safe height (hexEncode m.fromAddress) db
        (s.setAccount height (hexEncode m.toAddress)
          (s.accounts.amount (hexEncode m.toAddress) height + amount)) := by
      rw [hs.setAccount_iff]
      rcases h with hpos | ⟨hto, hnonneg⟩
      · exact ⟨by omega, fun hne => by rw [hsame _ hne]; omega⟩
      · exact ⟨hto ▸ hnonneg, fun hne => absurd (congrArg hexEncode hto) hne⟩
    refine ⟨fun _ _ => hcredited, (hcredited.setAccount_iff _ _).2 ⟨by omega, ?_⟩⟩
    exact fun hne => absurd rfl hne

/-- A stake is safe if and only if no negative amount is accepted. -/
theorem wp_handleStakeMessage_safe_iff {m : MessageStake}
    (ht : ActorType.ofInt m.actorType = some t) (hs : Safe height (hexEncode m.signer) db s) :
    (handleStakeMessage P m).run.wp (store height) (fun _ => True)
        (fun _ => Safe height (hexEncode m.signer) db) s ↔
      ∀ amount, StakeAccepted P height s m amount → 0 ≤ amount := by
  rw [wp_handleStakeMessage fun _ => hs]
  refine forall₂_congr fun amount haccepted => ?_
  have hpaid : Safe height (hexEncode m.signer) db (s.setAccount height (hexEncode m.signer)
      (s.accounts.amount (hexEncode m.signer) height - amount)) := by
    rw [hs.setAccount_iff]
    have := haccepted.affordable
    exact ⟨by omega, fun hne => absurd rfl hne⟩
  have hpool := hpaid.pools (hexEncode Pool.appStake.address)
  rw [insertActor, ht]
  simp only [wp_perform]
  constructor
  · rintro ⟨-, hstaked, hinserted⟩
    obtain ⟨n, hn, hnonneg⟩ := ((hstaked "" trivial).insertActor_iff _ _ _ _).1 hinserted
    have heq : n = amount := Except.ok.inj (hn.symm.trans haccepted.amount_eq)
    exact heq ▸ hnonneg
  · intro hpos
    have hstaked : Safe height (hexEncode m.signer) db (s.stake height m.signer amount) :=
      (hpaid.setPool_iff _ _).2 (by omega)
    exact ⟨fun _ _ => hpaid, fun _ _ => hstaked,
      (hstaked.insertActor_iff _ _ _ _).2 ⟨amount, haccepted.amount_eq, hpos⟩⟩

/-! ## The whole transaction -/

/-- After the fee the handler is safe exactly when the fee was and the message is. -/
theorem wp_handleMessage_safe_iff {msg : Message} {signer : Bytes} (hdb : NonNegative height db)
    (hcharged : Charged P height db tx msg signer fee) :
    (handleMessage P height (msg.setSigner signer)).run.wp (store height) (fun _ => True)
        (fun _ => Safe height (hexEncode signer) db) (db.charge height signer fee) ↔
      Unsupported P msg ∨
        0 ≤ db.pools.amount (hexEncode Pool.feeCollector.address) height + fee ∧
          MessageSafe P height db signer fee msg := by
  have hpaid : Safe height (hexEncode signer) db (db.setAccount height (hexEncode signer)
      (db.accounts.amount (hexEncode signer) height - fee)) := by
    rw [(Safe.refl hdb).setAccount_iff]
    have := hcharged.affordable
    exact ⟨by omega, fun hne => absurd rfl hne⟩
  have hcharge : Safe height (hexEncode signer) db (db.charge height signer fee) ↔
      0 ≤ db.pools.amount (hexEncode Pool.feeCollector.address) height + fee :=
    hpaid.setPool_iff _ _
  rw [← hcharge]
  have hfee := hcharged.fee_eq
  cases msg with
  | send m =>
    obtain rfl := hcharged.signer_eq
    have hsame : ∀ address, address ≠ hexEncode m.fromAddress →
        (db.charge height m.fromAddress fee).accounts.amount address height
          = db.accounts.amount address height := fun address hne => Table.amount_upsert_ne _ _ _ hne
    have hsender : (db.charge height m.fromAddress fee).accounts.amount
        (hexEncode m.fromAddress) height
          = db.accounts.amount (hexEncode m.fromAddress) height - fee :=
      Table.amount_upsert_self _ _ _ _
    refine Iff.trans ?_ (or_iff_right id).symm
    change (handleMessageSend m).run.wp _ _ _ _ ↔ _
    constructor
    · intro h
      have hs := of_wp_handleMessageSend h
      exact ⟨hs, fun amount hamount => hsender ▸ (wp_handleMessageSend_safe_iff hs hsame).1 h amount hamount⟩
    · rintro ⟨hs, hsafe⟩
      exact (wp_handleMessageSend_safe_iff hs hsame).2 fun amount hamount =>
        hsender.symm ▸ hsafe amount hamount
  | stake m =>
    obtain ⟨t, ht⟩ := actorType_of_forActor hfee
    refine Iff.trans ?_ (or_iff_right id).symm
    change (handleStakeMessage P { m with signer }).run.wp _ _ _ _ ↔ _
    constructor
    · intro h
      have hs := of_wp_handleStakeMessage (m := { m with signer }) ht h
      exact ⟨hs, (wp_handleStakeMessage_safe_iff (m := { m with signer }) ht hs).1 h⟩
    · rintro ⟨hs, hsafe⟩
      exact (wp_handleStakeMessage_safe_iff (m := { m with signer }) ht hs).2 hsafe
  | editStake m => exact absurd hcharged not_charged_editStake
  | unstake m =>
    obtain ⟨t, ht⟩ := actorType_of_forActor hfee
    refine Iff.trans ?_ (or_iff_right id).symm
    constructor
    · intro h
      exact ⟨of_wp_handleUnstakeMessage (m := { m with signer }) ht h, trivial⟩
    · rintro ⟨hs, -⟩
      exact wp_handleUnstakeMessage fun _ _ hkeeps => hs.keepsMoney hkeeps
  | unpause m =>
    obtain ⟨t, ht⟩ := actorType_of_forActor hfee
    refine Iff.trans ?_ (or_iff_right id).symm
    constructor
    · intro h
      exact ⟨of_wp_handleUnpauseMessage (m := { m with signer }) ht h, trivial⟩
    · rintro ⟨hs, -⟩
      exact wp_handleUnpauseMessage fun _ _ hkeeps => hs.keepsMoney hkeeps
  | changeParameter m =>
    constructor
    · intro h
      by_cases hunsupported : Unsupported P (.changeParameter m)
      · exact .inl hunsupported
      · exact .inr ⟨of_wp_handleMessageChangeParameter (m := { m with signer }) hunsupported h, trivial⟩
    · rintro (hunsupported | ⟨hs, -⟩)
      · exact wp_of_unsupported (m := { m with signer }) hunsupported
      · exact wp_handleMessageChangeParameter fun _ _ hkeeps => hs.keepsMoney hkeeps

/-- **A transaction takes from nobody but its signer, and leaves nothing below zero, exactly
when it is `TheftFree`**, whatever calls fail on the way. -/
theorem no_theft_iff (P : Platform) (height : ℤ) (db : Database) (tx : Transaction) (index : ℤ)
    (hdb : NonNegative height db) :
    (∀ fails r db', (handleTransaction P height tx index).run.exec (store height) id fails db
        = some (r, db') → Safe height (hexEncode (signerOf P tx)) db db') ↔
      TheftFree P height db tx := by
  have hwp : (∀ fails r db', (handleTransaction P height tx index).run.exec (store height) id fails
      db = some (r, db') → Safe height (hexEncode (signerOf P tx)) db db') ↔
      (handleTransaction P height tx index).run.wp (store height) (fun _ => True)
        (fun _ => Safe height (hexEncode (signerOf P tx)) db) db := by
    rw [wp_iff_exec]
    exact forall_congr' fun fails => ⟨fun h _ => h, fun h => h fun _ _ _ => trivial⟩
  rw [hwp, wp_handleTransaction fun _ => .refl hdb]
  refine forall₃_congr fun msg signer fee => forall_congr' fun hcharged => ?_
  rw [← hcharged.signer_eq_signerOf]
  refine (and_iff_right fun _ _ => ?_).trans (wp_handleMessage_safe_iff hdb hcharged)
  rw [(Safe.refl hdb).setAccount_iff]
  have := hcharged.affordable
  exact ⟨by omega, fun hne => absurd rfl hne⟩

theorem nonNegative_ownerDatabase (fee : String) : NonNegative 1 (ownerDatabase fee) := by
  have hempty : NonNegative 1 ⟨.empty, .empty, Table.empty.upsert messageSendFee 1 fee,
      fun _ => .empty, fun _ => []⟩ :=
    ⟨fun _ => le_rfl, fun _ => le_rfl, nofun⟩
  have hrefl : Safe 1 "" _ _ := .refl hempty
  have hfirst := (hrefl.setAccount_iff "01" 100).2
    ⟨by decide, fun _ => (by decide : (0 : ℤ) ≤ 100)⟩
  exact ((hfirst.setAccount_iff "02" 50).2
    ⟨by decide, fun _ => (by decide : (0 : ℤ) ≤ 50)⟩).toNonNegative

/-- A send of -5 to the account `02` is valid, succeeds, and takes 5 from it. -/
theorem negative_send_steals :
    let P := ownerPlatform (.send ⟨[1], [2], "-5"⟩)
    NonNegative 1 (ownerDatabase "1") ∧ ownerTx.validateBasic P = .ok () ∧ signerOf P ownerTx = [1] ∧
      (ownerDatabase "1").accounts.amount (hexEncode [2]) 1 = 50 ∧
      ((handleTransaction P 1 ownerTx 0).run.exec (store 1) id (fun _ => none)
          (ownerDatabase "1")).map (fun r => (r.1.map IndexedTransaction.resultCode,
            r.2.accounts.amount (hexEncode [2]) 1)) = some (.ok 0, 45) := by
  refine ⟨nonNegative_ownerDatabase "1", ?_⟩
  decide

/-- A send of 5 is safe, whatever fails. -/
theorem no_theft_of_plain_send :
    let P := ownerPlatform (.send ⟨[1], [2], "5"⟩)
    NonNegative 1 (ownerDatabase "1") ∧
      ∀ fails r db', (handleTransaction P 1 ownerTx 0).run.exec (store 1) id fails
        (ownerDatabase "1") = some (r, db') →
          Safe 1 (hexEncode (signerOf P ownerTx)) (ownerDatabase "1") db' := by
  refine ⟨nonNegative_ownerDatabase "1",
    (no_theft_iff _ 1 (ownerDatabase "1") ownerTx 0 (nonNegative_ownerDatabase "1")).2 ?_⟩
  intro msg signer fee hcharged
  cases hcharged.decoded
  obtain rfl : 1 = fee := Except.ok.inj (Option.some.inj hcharged.fee_eq)
  refine .inr ⟨by decide, fun amount hamount => .inl ?_⟩
  obtain rfl : 5 = amount := Except.ok.inj hamount
  decide

end Pocket.Utility
