import Pocket.Utility.TxPipeline

/-!
# What a unit of work executes and indexes

`executeTx_cases` and `processTx_cases` say what can become of one transaction.  A unit of work
executes the transactions of a block one after the other and indexes each at the next position of
its height.  `Attempt` is how far it got: it has executed some of the transactions it was offered,
in their order, and the index after it is the index before it with their entries.
-/

set_option autoImplicit false

namespace Pocket.Utility

open Model (Bytes)
open StoreProgram

/-! ## One transaction -/

variable {X : Host} {height : ℤ} {committed : Database} {calls : BlockCalls} {tx : Transaction}
  {α β : Type} {s s' : BlockState} {i : ℕ} {r : Except String IndexedTransaction}
  {fails : ℕ → Option String} {o : Outcome α} {P : Platform} {p : Uow α}

/-- The entry for the index holds the bytes that the transaction marshals to, its height and its
position. -/
theorem marshal_of_txToIdxTx {index : ℤ} {msg : Message} {result : Except Error Unit}
    {idxTx : IndexedTransaction} (h : txToIdxTx P tx height index msg result = .ok idxTx) :
    P.marshal tx = .ok idxTx.tx ∧ idxTx.height = height ∧ idxTx.index = index := by
  unfold txToIdxTx at h
  cases hmarshal : P.marshal tx with
  | error e =>
    rw [hmarshal] at h
    cases h
  | ok bz =>
    rw [hmarshal] at h
    cases h
    exact ⟨rfl, rfl, rfl⟩

/-- Whatever the calls of the transaction return, this is the entry it ends with. -/
theorem every_handleTransaction (tx : Transaction) (index : ℤ) :
    (handleTransaction P height tx index).run.Every (fun _ => True) fun r =>
      ∀ idxTx, r = .ok idxTx →
        P.marshal tx = .ok idxTx.tx ∧ idxTx.height = height ∧ idxTx.index = index := by
  refine meets_bind_fallible.2 (Prog.meets_mono (Prog.every_trivial _) fun r _ => ⟨by simp, ?_⟩)
  refine fun msg _ => meets_bind_fallible.2
    (Prog.meets_mono (Prog.every_trivial _) fun r _ => ⟨by simp, ?_⟩)
  exact fun result _ idxTx h => marshal_of_txToIdxTx h

/-- The hash of a transaction is that of the bytes it marshals to. -/
theorem hash_of_marshal {bz : Bytes} (h : X.marshal tx = .ok bz) :
    X.hash tx = .ok (X.txHash bz) := by
  rw [Host.hash, h]
  rfl

/-- A program of the unit of work changes nothing but its database. -/
theorem runUow_eq {r : Except String α} (h : runUow height committed p fails s = some (r, s')) :
    s' = { s with db := s'.db } := by
  obtain ⟨⟨result, db⟩, -, hout⟩ := Option.map_eq_some_iff.1 h
  cases hout
  rfl

/-- A result without an error comes from an execution of the program. -/
theorem exec_of_runUow {a : α} (h : runUow height committed p fails s = some (.ok a, s')) :
    p.run.exec (store height) (fun _ => committed) fails s.db = some (.ok a, s'.db) := by
  obtain ⟨⟨result, db⟩, hexec, hout⟩ := Option.map_eq_some_iff.1 h
  cases result with
  | error e => cases hout
  | ok b =>
    cases hout
    exact hexec

/-- Either the first call failed and its error is returned, or the second was made. -/
theorem andThen_cases {f : α → BlockState → Outcome β} {r : Except String β}
    (h : o.andThen f = some (r, s')) :
    (∃ err, o = some (.error err, s') ∧ r = .error err) ∨
      ∃ a s₁, o = some (.ok a, s₁) ∧ f a s₁ = some (r, s') := by
  obtain ⟨⟨result, s₁⟩, ho, hf⟩ := Option.bind_eq_some_iff.1 h
  cases result with
  | error err =>
    cases hf
    exact .inl ⟨err, ho, rfl⟩
  | ok a => exact .inr ⟨a, s₁, ho, hf⟩

/-- What executing a transaction can do. -/
theorem executeTx_cases {index : ℕ}
    (h : executeTx X height committed calls i index tx s = some (r, s')) :
    s'.index = s.index ∧ s'.mempool = s.mempool ∧
      ((∃ err, r = .error err ∧ s'.executed = s.executed) ∨
        ∃ idxTx, r = .ok idxTx ∧ X.marshal tx = .ok idxTx.tx ∧ idxTx.height = height ∧
          idxTx.index = index ∧ s'.executed = s.executed ++ [tx]) := by
  rw [executeTx] at h
  rcases andThen_cases h with ⟨err, hrun, rfl⟩ | ⟨idxTx, s₁, hrun, hdone⟩
  · rw [runUow_eq hrun]
    exact ⟨rfl, rfl, .inl ⟨err, rfl, rfl⟩⟩
  · obtain ⟨hmarshal, hheight, hposition⟩ :=
      Prog.of_exec (every_handleTransaction tx index) (exec_of_runUow hrun) idxTx rfl
    cases hdone
    rw [runUow_eq hrun]
    exact ⟨rfl, rfl, .inr ⟨idxTx, rfl, hmarshal, hheight, hposition, rfl⟩⟩

/-- The database after a transaction is the one that the execution of its message leaves. -/
theorem exec_of_executeTx {index : ℕ}
    (h : executeTx X height committed calls i index tx s = some (r, s')) :
    ∃ result, (handleTransaction X.toPlatform height tx index).run.exec (store height)
      (fun _ => committed) (calls.txFails i) s.db = some (result, s'.db) := by
  rw [executeTx] at h
  rcases andThen_cases h with ⟨err, hrun, -⟩ | ⟨idxTx, s₁, hrun, hdone⟩
  · obtain ⟨⟨result, db⟩, hexec, hout⟩ := Option.map_eq_some_iff.1 hrun
    obtain rfl := (Prod.mk.inj hout).2
    exact ⟨result, hexec⟩
  · have hexec := exec_of_runUow hrun
    cases hdone
    exact ⟨_, hexec⟩

/-- What one transaction of a proposal can do: it is refused before it is executed, or it is
executed, and then it is indexed and taken out of the mempool unless it returned an error. -/
theorem processTx_cases {bz : Bytes} {r : Except String Unit}
    (h : processTx X height committed calls i bz s = some (r, s')) :
    (∃ err, r = .error err ∧ s' = s) ∨
    ∃ tx r₁ s₁, X.unmarshal bz = .ok tx ∧ tx.validateBasic X.toPlatform = .ok () ∧
      executeTx X height committed calls i i tx s = some (r₁, s₁) ∧
      ((∃ err, r₁ = .error err ∧ r = .error err ∧ s' = s₁) ∨
        ∃ idxTx hash, r₁ = .ok idxTx ∧ X.hash tx = .ok hash ∧ r = .ok () ∧ s' = { s₁ with
          mempool := if s₁.mempool.containsIndex hash
            then s₁.mempool.remove X.mempoolOptions bz else s₁.mempool
          index := s₁.index.index X idxTx }) := by
  rw [processTx] at h
  cases htx : X.unmarshal bz with
  | error err =>
    rw [htx] at h
    cases h
    exact .inl ⟨err, rfl, rfl⟩
  | ok tx =>
    simp only [htx] at h
    cases hvalid : tx.validateBasic X.toPlatform with
    | error err =>
      simp only [hvalid] at h
      cases h
      exact .inl ⟨_, rfl, rfl⟩
    | ok u =>
      simp only [hvalid] at h
      rcases andThen_cases h with ⟨err, hexec, rfl⟩ | ⟨idxTx, s₁, hexec, hdone⟩
      · exact .inr ⟨tx, _, s', rfl, hvalid, hexec, .inl ⟨err, rfl, rfl, rfl⟩⟩
      · obtain ⟨-, -, ⟨err, herr, -⟩ | ⟨_, hok, hmarshal, -⟩⟩ := executeTx_cases hexec
        · cases herr
        · cases hok
          simp only [hash_of_marshal hmarshal] at hdone
          split at hdone
          · cases hdone
          · cases hdone
            exact .inr ⟨tx, _, s₁, rfl, hvalid, hexec,
              .inr ⟨idxTx, _, rfl, hash_of_marshal hmarshal, rfl, rfl⟩⟩

/-- The mempool gives out its oldest transaction. -/
theorem pop_eq_some {mempool mempool' : TxMempool} {bz : Bytes}
    (h : mempool.pop X.mempoolOptions = some (bz, mempool')) :
    mempool.queue = bz :: mempool'.queue := by
  rw [FifoSet.pop] at h
  split at h
  · cases h
  · next item queue hqueue =>
    cases h
    exact hqueue

end Pocket.Utility

namespace Pocket.Persistence

open Model (Bytes)
open Utility

/-! ## Blocks that are run -/

section Attempts

variable {X : Host} {height : ℤ} {committed : Database} {calls : BlockCalls}

/-- A transaction that was executed at the height, from its bytes to its entry in the index. -/
structure Executed (X : Host) (height : ℤ) where
  bz : Bytes
  tx : Transaction
  idxTx : IndexedTransaction
  unmarshal_eq : X.unmarshal bz = .ok tx
  marshal_eq : X.marshal tx = .ok idxTx.tx
  height_eq : idxTx.height = height

/-- The hash that the entry is found under. -/
def Executed.hash (e : Executed X height) : String := X.txHash e.idxTx.tx

theorem Executed.hash_eq (e : Executed X height) : X.hash e.tx = .ok e.hash :=
  hash_of_marshal e.marshal_eq

/-- The entry holds the transaction as it is marshalled, whatever bytes it came from. -/
theorem Executed.canonical_eq (e : Executed X height) :
    (X.unmarshal e.bz).bind X.marshal = .ok e.idxTx.tx := by
  rw [e.unmarshal_eq]
  exact e.marshal_eq

/-- The index with the entries of these transactions, written one after the other. -/
def indexAll (index : TxIndex) (es : List (Executed X height)) : TxIndex :=
  es.foldl (fun index e => index.index X e.idxTx) index

theorem indexAll_snoc (index : TxIndex) (es : List (Executed X height)) (e : Executed X height) :
    indexAll index (es ++ [e]) = (indexAll index es).index X e.idxTx := List.foldl_concat ..

/-- From `s` to `s'` these transactions were executed and indexed, at the positions of the list. -/
structure Attempt (s : BlockState) (es : List (Executed X height)) (s' : BlockState) : Prop where
  executed : s'.executed = s.executed ++ es.map Executed.tx
  index : s'.index = indexAll s.index es
  positions : ∀ (j : ℕ) e, es[j]? = some e → e.idxTx.index = j

namespace Attempt

variable {s₀ s s' : BlockState} {es : List (Executed X height)}

/-- Nothing has been executed yet. -/
theorem refl (s : BlockState) : Attempt s ([] : List (Executed X height)) s :=
  ⟨(List.append_nil _).symm, rfl, fun _ _ h => by cases h⟩

/-- What touches neither the index nor the list of executed transactions keeps the attempt. -/
theorem same (h : Attempt s₀ es s) (hexecuted : s'.executed = s.executed)
    (hindex : s'.index = s.index) : Attempt s₀ es s' :=
  ⟨hexecuted.trans h.executed, hindex.trans h.index, h.positions⟩

/-- One more transaction is executed and indexed at the next position. -/
theorem snoc (h : Attempt s₀ es s) (e : Executed X height) (hposition : e.idxTx.index = es.length)
    (hexecuted : s'.executed = s.executed ++ [e.tx]) (hindex : s'.index = s.index.index X e.idxTx) :
    Attempt s₀ (es ++ [e]) s' := by
  refine ⟨?_, ?_, fun j e' he' => ?_⟩
  · rw [hexecuted, h.executed, List.map_append, List.append_assoc]
    rfl
  · rw [hindex, h.index, indexAll_snoc]
  · rcases lt_trichotomy j es.length with hlt | heq | hgt
    · rw [List.getElem?_append_left hlt] at he'
      exact h.positions j e' he'
    · rw [heq, List.getElem?_concat_length] at he'
      cases he'
      rw [hposition, heq]
    · have hlength : (es ++ [e]).length ≤ j := by
        rw [List.length_append]
        exact hgt
      rw [List.getElem?_eq_none hlength] at he'
      cases he'

end Attempt

/-- Whatever the function returns, it made an attempt at what it was offered, and with a block that
it returns it has got to the end of it. -/
def OutcomeAttempt {α : Type} (X : Host) (height : ℤ) (offered : List Bytes) (txsOf : α → List Bytes)
    (s : BlockState) (o : Outcome α) : Prop :=
  ∀ r s', o = some (r, s') → ∃ es : List (Executed X height), Attempt s es s' ∧
    (es.map Executed.bz).Sublist offered ∧ ∀ a, r = .ok a → es.map Executed.bz = txsOf a

variable {s₀ s s' : BlockState} {es : List (Executed X height)} {r : Except String Unit}

/-- One transaction of a proposal is the next of the attempt, or the end of it. -/
theorem attempt_processTx {bz : Bytes} (hs : Attempt s₀ es s)
    (h : processTx X height committed calls es.length bz s = some (r, s')) :
    (∃ err, r = .error err ∧ Attempt s₀ es s') ∨
      r = .ok () ∧ ∃ e : Executed X height, e.bz = bz ∧ Attempt s₀ (es ++ [e]) s' := by
  rcases processTx_cases h with ⟨err, rfl, rfl⟩ | ⟨tx, r₁, s₁, htx, -, hexec, hend⟩
  · exact .inl ⟨err, rfl, hs⟩
  obtain ⟨hindex, -, ⟨err, rfl, hexecuted⟩ | ⟨idxTx, rfl, hmarshal, hheight, hposition, hexecuted⟩⟩ :=
    executeTx_cases hexec
  · rcases hend with ⟨err, -, rfl, rfl⟩ | ⟨_, _, hok, -⟩
    · exact .inl ⟨err, rfl, hs.same hexecuted hindex⟩
    · cases hok
  · rcases hend with ⟨_, herr, -⟩ | ⟨_, hash, hok, -, rfl, rfl⟩
    · cases herr
    · cases hok
      let e : Executed X height := ⟨bz, tx, idxTx, htx, hmarshal, hheight⟩
      refine .inr ⟨rfl, e, rfl, hs.snoc e hposition hexecuted ?_⟩
      exact congrArg (fun index => TxIndex.index X index idxTx) hindex

/-- The loop over the transactions of a proposal executes them in order, until one is refused. -/
theorem attempt_processProposalBlockTransactions {txs : List Bytes} (hs : Attempt s₀ es s)
    (h : processProposalBlockTransactions X height committed calls es.length txs s = some (r, s')) :
    ∃ es' : List (Executed X height), Attempt s₀ (es ++ es') s' ∧
      (es'.map Executed.bz).Sublist txs ∧ (r = .ok () → es'.map Executed.bz = txs) := by
  induction txs generalizing es s with
  | nil =>
    cases h
    exact ⟨[], by rwa [List.append_nil], .refl _, fun _ => rfl⟩
  | cons bz txs ih =>
    rw [processProposalBlockTransactions] at h
    cases hfirst : processTx X height committed calls es.length bz s with
    | none =>
      rw [hfirst] at h
      cases h
    | some out =>
      obtain ⟨result, s₁⟩ := out
      rw [hfirst] at h
      rcases attempt_processTx hs hfirst with ⟨err, rfl, hs₁⟩ | ⟨rfl, e, hbz, hs₁⟩
      · cases h
        exact ⟨[], by rwa [List.append_nil], List.nil_sublist _, fun hok => by cases hok⟩
      · have hlength : (es ++ [e]).length = es.length + 1 := List.length_append
        obtain ⟨es', hs', hsub, hdone⟩ := ih hs₁ (by rw [hlength]; exact h)
        refine ⟨e :: es', ?_, ?_, fun hok => ?_⟩
        · rw [← List.singleton_append, ← List.append_assoc]
          exact hs'
        · rw [List.map_cons, hbz]
          exact hsub.cons_cons bz
        · rw [List.map_cons, hbz, hdone hok]

/-- The hooks before and after the transactions are not part of the attempt. -/
theorem attempt_runUow {α : Type} {p : Uow α} {fails : ℕ → Option String} {r : Except String α}
    (hs : Attempt s₀ es s) (h : runUow height committed p fails s = some (r, s')) :
    Attempt s₀ es s' := by
  have hs' := runUow_eq h
  refine hs.same ?_ ?_
  · rw [hs']
  · rw [hs']

/-- `ApplyBlock` makes an attempt at the transactions of the proposal. -/
theorem attempt_applyBlock (proposal : Proposal) (s : BlockState) :
    OutcomeAttempt X height proposal.txs (fun _ => proposal.txs) s
      (applyBlock X height committed calls proposal s) := by
  intro r s' h
  rw [applyBlock] at h
  split at h
  · cases h
    exact ⟨[], .refl s, List.nil_sublist _, fun _ hok => by cases hok⟩
  · rcases andThen_cases h with ⟨err, hbegin, rfl⟩ | ⟨_, s₁, hbegin, h⟩
    · exact ⟨[], attempt_runUow (.refl s) hbegin, List.nil_sublist _, fun _ hok => by cases hok⟩
    have hs₁ : Attempt s ([] : List (Executed X height)) s₁ := attempt_runUow (.refl s) hbegin
    rcases andThen_cases h with ⟨err, hprocess, rfl⟩ | ⟨_, s₂, hprocess, h⟩
    · obtain ⟨es, hs₂, hsub, -⟩ := attempt_processProposalBlockTransactions hs₁ hprocess
      exact ⟨es, hs₂, hsub, fun _ hok => by cases hok⟩
    obtain ⟨es, hs₂, hsub, hdone⟩ := attempt_processProposalBlockTransactions hs₁ hprocess
    rcases andThen_cases h with ⟨err, hend, rfl⟩ | ⟨_, s₃, hend, h⟩
    · exact ⟨es, attempt_runUow hs₂ hend, hsub, fun _ hok => by cases hok⟩
    have hs₃ := attempt_runUow hs₂ hend
    split at h
    · cases h
    · split at h
      · cases h
      · cases h
        exact ⟨es, hs₃, hsub, fun _ _ => hdone rfl⟩

/-- The transactions reaped so far are those of the attempt. -/
theorem attempt_reapMempool {maxTxBytes : UInt64} {rounds i : ℕ} {total : UInt64}
    {r : Except String (List Bytes)} (hs : Attempt s₀ es s)
    (h : reapMempool X height committed calls maxTxBytes rounds i (es.map Executed.bz) total s
      = some (r, s')) :
    ∃ es' : List (Executed X height), Attempt s₀ es' s' ∧
      (es'.map Executed.bz).Sublist (es.map Executed.bz ++ s.mempool.queue) ∧
      ∀ txs, r = .ok txs → es'.map Executed.bz = txs := by
  induction rounds generalizing i total s es with
  | zero =>
    cases h
    exact ⟨es, hs, List.sublist_append_left _ _, fun _ hok => Except.ok.inj hok⟩
  | succ rounds ih =>
    rw [reapMempool] at h
    cases hpop : s.mempool.pop X.mempoolOptions with
    | none =>
      rw [hpop] at h
      cases h
      exact ⟨es, hs, List.sublist_append_left _ _, fun _ hok => Except.ok.inj hok⟩
    | some popped =>
      obtain ⟨bz, mempool⟩ := popped
      simp only [hpop] at h
      have hpopped : Attempt s₀ es { s with mempool } := hs.same rfl rfl
      cases htx : X.unmarshal bz with
      | error err =>
        rw [htx] at h
        cases h
        exact ⟨es, hpopped, List.sublist_append_left _ _, fun _ hok => by cases hok⟩
      | ok tx =>
        simp only [htx] at h
        split at h
        · split at h
          · cases h
            exact ⟨es, hpopped, List.sublist_append_left _ _, fun _ hok => by cases hok⟩
          · cases h
            exact ⟨es, hs.same rfl rfl, List.sublist_append_left _ _,
              fun _ hok => Except.ok.inj hok⟩
        · split at h
          · cases h
          · next err s₁ hexec =>
            obtain ⟨hindex, hmempool, ⟨_, -, hexecuted⟩ | ⟨_, hok, -⟩⟩ := executeTx_cases hexec
            · obtain ⟨es', hs', hsub, hdone⟩ := ih (hpopped.same hexecuted hindex) h
              rw [hmempool] at hsub
              rw [pop_eq_some hpop]
              exact ⟨es', hs', hsub.trans ((List.sublist_cons_self _ _).append_left _), hdone⟩
            · cases hok
          · next idxTx s₁ hexec =>
            obtain ⟨hindex, hmempool, ⟨_, herr, -⟩ |
              ⟨_, hok, hmarshal, hheight, hposition, hexecuted⟩⟩ := executeTx_cases hexec
            · cases herr
            · cases hok
              rw [List.length_map] at hposition
              split at h
              · cases h
              · let e : Executed X height := ⟨bz, tx, idxTx, htx, hmarshal, hheight⟩
                have hsnoc : Attempt s₀ (es ++ [e]) { s₁ with index := s₁.index.index X idxTx } :=
                  hpopped.snoc e hposition hexecuted
                    (congrArg (fun index => TxIndex.index X index idxTx) hindex)
                have hbytes : (es ++ [e]).map Executed.bz = es.map Executed.bz ++ [bz] :=
                  List.map_append
                rw [← hbytes] at h
                obtain ⟨es', hs', hsub, hdone⟩ := ih hsnoc h
                rw [hbytes, List.append_assoc, hmempool] at hsub
                rw [pop_eq_some hpop]
                exact ⟨es', hs', hsub, hdone⟩

/-- `CreateProposalBlock` makes an attempt at the transactions of the mempool. -/
theorem attempt_createProposalBlock (proposer : Bytes) (maxTxBytes : UInt64) (s : BlockState) :
    OutcomeAttempt X height s.mempool.queue Prod.snd s
      (createProposalBlock X height committed calls proposer maxTxBytes s) := by
  intro r s' h
  rcases andThen_cases h with ⟨err, hbegin, rfl⟩ | ⟨_, s₁, hbegin, h⟩
  · exact ⟨[], attempt_runUow (.refl s) hbegin, List.nil_sublist _, fun _ hok => by cases hok⟩
  have hmempool : s₁.mempool = s.mempool := by rw [runUow_eq hbegin]
  have hs₁ : Attempt s ([] : List (Executed X height)) s₁ := attempt_runUow (.refl s) hbegin
  rcases andThen_cases h with ⟨err, hreap, rfl⟩ | ⟨txs, s₂, hreap, h⟩
  · obtain ⟨es, hs₂, hsub, -⟩ := attempt_reapMempool hs₁ hreap
    exact ⟨es, hs₂, hmempool ▸ hsub, fun _ hok => by cases hok⟩
  obtain ⟨es, hs₂, hsub, hdone⟩ := attempt_reapMempool hs₁ hreap
  rcases andThen_cases h with ⟨err, hend, rfl⟩ | ⟨_, s₃, hend, h⟩
  · exact ⟨es, attempt_runUow hs₂ hend, hmempool ▸ hsub, fun _ hok => by cases hok⟩
  obtain ⟨stateHash, -, hout⟩ := Option.map_eq_some_iff.1 h
  cases hout
  refine ⟨es, attempt_runUow hs₂ hend, hmempool ▸ hsub, fun a hok => ?_⟩
  cases hok
  exact hdone txs rfl

/-! ## What the index holds after an attempt -/

variable {index : TxIndex}

/-- The newest entry is found under its hash, and under any other hash what was found before. -/
theorem byHash_indexAll_snoc (index : TxIndex) (es : List (Executed X height))
    (e : Executed X height) :
    (indexAll index (es ++ [e])).byHash
      = Function.update (indexAll index es).byHash e.hash (some e.idxTx) := by
  rw [indexAll_snoc]
  rfl

theorem byHash_indexAll_of_not_mem {hash : String} (h : ∀ e ∈ es, e.hash ≠ hash) :
    (indexAll index es).byHash hash = index.byHash hash := by
  induction es using List.reverseRecOn with
  | nil => rfl
  | append_singleton es e ih =>
    have hlast : e.hash ≠ hash := h e (List.mem_append_right _ List.mem_cons_self)
    rw [byHash_indexAll_snoc, Function.update_of_ne hlast.symm]
    exact ih fun e' he' => h e' (List.mem_append_left _ he')

/-- Under the hash of a transaction of the attempt is one of the attempt. -/
theorem byHash_indexAll_of_mem (index : TxIndex) {hash : String} (h : ∃ e ∈ es, e.hash = hash) :
    ∃ e ∈ es, e.hash = hash ∧ (indexAll index es).byHash hash = some e.idxTx := by
  induction es using List.reverseRecOn with
  | nil =>
    obtain ⟨e, he, -⟩ := h
    cases he
  | append_singleton es e ih =>
    have hmem : e ∈ es ++ [e] := List.mem_append_right _ List.mem_cons_self
    by_cases hlast : e.hash = hash
    · refine ⟨e, hmem, hlast, ?_⟩
      rw [byHash_indexAll_snoc, ← hlast, Function.update_self]
    · obtain ⟨e', he', hhash⟩ := h
      have hbefore : e' ∈ es := by
        rcases List.mem_append.1 he' with he' | he'
        · exact he'
        · rw [List.mem_singleton.1 he'] at hhash
          exact absurd hhash hlast
      obtain ⟨e'', he'', hhash'', hfound⟩ := ih ⟨e', hbefore, hhash⟩
      refine ⟨e'', List.mem_append_left _ he'', hhash'', ?_⟩
      rw [byHash_indexAll_snoc, Function.update_of_ne (Ne.symm hlast)]
      exact hfound

theorem isSome_byHash_indexAll {hash : String} :
    ((indexAll index es).byHash hash).isSome ↔
      (index.byHash hash).isSome ∨ ∃ e ∈ es, e.hash = hash := by
  by_cases h : ∃ e ∈ es, e.hash = hash
  · obtain ⟨e, -, -, hfound⟩ := byHash_indexAll_of_mem index h
    rw [hfound]
    exact iff_of_true rfl (.inr h)
  · have hother : ∀ e ∈ es, e.hash ≠ hash := fun e he hhash => h ⟨e, he, hhash⟩
    rw [byHash_indexAll_of_not_mem hother, or_iff_left h]

end Attempts

end Pocket.Persistence
