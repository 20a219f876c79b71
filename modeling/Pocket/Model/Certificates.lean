import Pocket.Model.Pacemaker

/-!
# Quorum certificates on a node

Validation of a received certificate, assembly of one from the leader's message pool, and
the choice of the highest certificate among the `NewRound` messages.  The loops are the
source's: validation counts the entries of the signature list, assembly pops the pool
until it is empty.
-/

set_option autoImplicit false

namespace Pocket.Model

variable (P : Platform) (env : Env) {step : ℤ}

/-- The counting loop of `validateQuorumCertificate`, with its counter `numValid`.
SOURCE: consensus/hotstuff_replica.go:289-305 -/
def countValidSignatures (validatorMap : String → Option Actor) (msgToJustify : HotstuffMessage) :
    ℕ → List PartialSignature → ℕ
  | numValid, [] => numValid
  | numValid, partialSig :: rest =>
    match validatorMap partialSig.address with
    | none => countValidSignatures validatorMap msgToJustify numValid rest
    | some validator =>
      if isSignatureValid P msgToJustify validator.publicKey partialSig.signature then
        countValidSignatures validatorMap msgToJustify (numValid + 1) rest
      else countValidSignatures validatorMap msgToJustify numValid rest

/-- Whether `validateQuorumCertificate` returns nil.
SOURCE: consensus/hotstuff_replica.go:263-311 -/
def validateQuorumCertificate (m : NodeState) (qc : Option QuorumCertificate) : Bool :=
  match qc with
  | none => false
  | some qc =>
    match qc.block, qc.thresholdSignature with
    | some _, some ts =>
      if ts.signatures.isEmpty then false
      else
        match env.getValidatorsAtHeight m.height with
        | none => false
        | some validators =>
          validateOptimisticThresholdMet
            (countValidSignatures P (newActorMapper validators).validatorMap
              (qcToHotstuffMessage qc) 0 ts.signatures)
            validators
    | _, _ => false

/-- SOURCE: consensus/helpers.go:119-126 -/
def didReceiveEnoughMessageForStep (m : NodeState) (step : ℤ) : Bool :=
  match env.getValidatorsAtHeight m.height, m.hotstuffMempool step with
  | some validators, some pool => validateOptimisticThresholdMet pool.size validators
  | _, _ => false

/-- Whether the assembly loop keeps the signature of a pooled message.
SOURCE: consensus/helpers.go:46-61 -/
def usablePartialSignature (height : ℕ) (step : ℤ) (round : ℕ) (msg : HotstuffMessage) :
    Option PartialSignature :=
  match msg.getPartialSignature with
  | none => none
  | some ps =>
    if msg.height ≠ height ∨ msg.step ≠ step ∨ msg.round ≠ round then none
    else if ps.signature = [] ∨ ps.address = "" then none
    else some ps

/-- The assembly loop: pop until the pool is empty.  The first argument bounds the number
of iterations by the number of pooled messages.  SOURCE: consensus/helpers.go:40-62 -/
def popPartialSignatures (height : ℕ) (step : ℤ) (round : ℕ) :
    ℕ → HotstuffFIFOMempool → List PartialSignature →
      List PartialSignature × HotstuffFIFOMempool
  | 0, pool, pss => (pss, pool)
  | n + 1, pool, pss =>
    match pool.pop P with
    | none => (pss, pool)
    | some (msg, pool') =>
      match usablePartialSignature height step round msg with
      | none => popPartialSignatures height step round n pool' pss
      | some ps => popPartialSignatures height step round n pool' (pss ++ [ps])

/-- SOURCE: consensus/helpers.go:98-103 -/
def getThresholdSignature (partialSigs : List PartialSignature) : ThresholdSignature :=
  { signatures := partialSigs }

/-- The certificate the leader assembles at its own height and round.  The signatures are
counted, not checked against `m.block`.  SOURCE: consensus/helpers.go:39-83 -/
def getQuorumCertificate (step : ℤ) (m : NodeState) : Call QuorumCertificate × NodeState :=
  match m.hotstuffMempool step with
  | none => (.halt, m)
  | some pool =>
    let popped := popPartialSignatures P m.height step m.round pool.messages.length pool []
    let m := { m with hotstuffMempool := Function.update m.hotstuffMempool step (some popped.2) }
    match env.getValidatorsAtHeight m.height with
    | none => (.err, m)
    | some validators =>
      if validateOptimisticThresholdMet popped.1.length validators then
        (.ok { height := m.height, step := step, round := m.round, block := m.block,
               thresholdSignature := some (getThresholdSignature popped.1) }, m)
      else (.err, m)

/-- SOURCE: consensus/helpers.go:85-96 -/
def findHighQC (msgs : List HotstuffMessage) : Option QuorumCertificate :=
  msgs.foldl (fun qc msg =>
    match msg.getQuorumCertificate with
    | none => qc
    | some mqc =>
      match qc with
      | none => some mqc
      | some q => if q.height < mqc.height then some mqc else qc) none

/-- SOURCE: consensus/hotstuff_leader.go:462-465 -/
def isPrepareQCFromPast (m : NodeState) (highPrepareQC : QuorumCertificate) : Bool :=
  decide (highPrepareQC.height < m.height) || decide (highPrepareQC.round < m.round)

/-- SOURCE: consensus/hotstuff_leader.go:446-460 -/
def shouldPrepareNewBlock (m : NodeState) (highPrepareQC : Option QuorumCertificate) : Bool :=
  match highPrepareQC with
  | none => true
  | some qc => isPrepareQCFromPast m qc || qc.block.isNone

/-! ## What the loops compute -/

/-- INTERNAL: the pool after the assembly loop has run is empty, and the signatures are
those of the usable messages, in pool order. -/
theorem popPartialSignatures_eq (height : ℕ) (step : ℤ) (round : ℕ) :
    ∀ (n : ℕ) (pool : HotstuffFIFOMempool) (pss : List PartialSignature),
      pool.messages.length ≤ n →
      (popPartialSignatures P height step round n pool pss).1 =
        pss ++ pool.messages.filterMap (usablePartialSignature height step round) := by
  intro n
  induction n with
  | zero =>
    intro pool pss hn
    have hnil : pool.messages = [] := List.eq_nil_of_length_eq_zero (by omega)
    simp [popPartialSignatures, hnil]
  | succ n ih =>
    intro pool pss hn
    cases hmsgs : pool.messages with
    | nil => simp [popPartialSignatures, HotstuffFIFOMempool.pop, hmsgs]
    | cons msg rest =>
      have hrest : rest.length ≤ n := by simpa [hmsgs] using hn
      have hpop : pool.pop P = some (msg, HotstuffFIFOMempool.decrementCounters P msg
          { pool with messages := rest }) := by
        simp [HotstuffFIFOMempool.pop, hmsgs]
      simp only [popPartialSignatures, hpop]
      cases hps : usablePartialSignature height step round msg with
      | none =>
        simp only [List.filterMap_cons, hps]
        exact ih _ _ hrest
      | some ps =>
        simp only [List.filterMap_cons, hps]
        rw [ih _ _ hrest]
        simp [HotstuffFIFOMempool.decrementCounters]

theorem mem_popPartialSignatures (height : ℕ) (step : ℤ) (round : ℕ) {x : HotstuffMessage} :
    ∀ (n : ℕ) (pool : HotstuffFIFOMempool) (pss : List PartialSignature),
      x ∈ (popPartialSignatures P height step round n pool pss).2.messages → x ∈ pool.messages := by
  intro n
  induction n with
  | zero => exact fun _ _ hx => hx
  | succ n ih =>
    intro pool pss hx
    rw [popPartialSignatures] at hx
    cases hpop : pool.pop P with
    | none => simpa [hpop] using hx
    | some popped =>
      obtain ⟨msg, pool'⟩ := popped
      rw [HotstuffFIFOMempool.pop_eq_some hpop]
      simp only [hpop] at hx
      cases hps : usablePartialSignature height step round msg with
      | none | some ps => exact List.mem_cons_of_mem _ (ih _ _ (by simpa only [hps] using hx))

theorem getQuorumCertificate_pools {msg : HotstuffMessage} {pools : ℤ → Option HotstuffFIFOMempool}
    {m : NodeState} (h : PoolsFrom msg pools m.hotstuffMempool) :
    PoolsFrom msg pools (getQuorumCertificate P env step m).2.hotstuffMempool := by
  unfold getQuorumCertificate
  split
  · exact h
  · rename_i pool hpool
    have hpopped : PoolsFrom msg pools (Function.update m.hotstuffMempool step
        (some (popPartialSignatures P m.height step m.round pool.messages.length pool []).2)) := by
      refine h.update fun p hp x hx => ?_
      obtain rfl := Option.some.inj hp
      exact .inr ⟨pool, hpool, mem_popPartialSignatures P _ _ _ _ _ _ hx⟩
    simp only
    repeat' split
    all_goals exact hpopped

theorem getQuorumCertificate_snd (step : ℤ) (m : NodeState) :
    ∃ pools, (getQuorumCertificate P env step m).2 = { m with hotstuffMempool := pools } := by
  unfold getQuorumCertificate
  split
  · exact ⟨_, rfl⟩
  · simp only
    repeat' split
    all_goals exact ⟨_, rfl⟩

/-- INTERNAL: a certificate that was assembled is for the node's height and round, the
step asked for and the node's current block, and its signatures are the usable ones of the
pool, more than two thirds of the validators in number. -/
theorem getQuorumCertificate_ok {m m' : NodeState} {qc : QuorumCertificate}
    (h : getQuorumCertificate P env step m = (.ok qc, m')) :
    ∃ pool validators pss, m.hotstuffMempool step = some pool
      ∧ env.getValidatorsAtHeight m.height = some validators
      ∧ pss = pool.messages.filterMap (usablePartialSignature m.height step m.round)
      ∧ validateOptimisticThresholdMet pss.length validators = true
      ∧ qc = { height := m.height, step := step, round := m.round, block := m.block,
               thresholdSignature := some { signatures := pss } } := by
  unfold getQuorumCertificate at h
  split at h
  · simp at h
  rename_i pool hpool
  simp only at h
  split at h
  · simp at h
  rename_i validators hvals
  split at h
  · rename_i hmet
    simp only [popPartialSignatures_eq P _ _ _ _ _ _ le_rfl, List.nil_append] at hmet h
    simp only [Prod.mk.injEq, Call.ok.injEq] at h
    exact ⟨pool, validators, _, hpool, hvals, rfl, hmet, h.1.symm⟩
  · simp at h

end Pocket.Model
