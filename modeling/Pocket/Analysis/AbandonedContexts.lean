import Pocket.Analysis.Restart

/-!
# What abandoned write contexts leave behind

A write context that is released leaves no rows, but what it indexed and the leaves that its
`ComputeStateHash` set stay.  A run is compared with the run of its committed contexts alone:
`Trace` is where the two may differ, in the leaves of the trees, in the positions of the index and
in the hashes that lead to transactions.

* An abandoned context adds what it sets to the trace.
* A committed context takes what it sets off the trace, because both runs set it, as long as its
  own reads of the index do not meet the trace.
* The hash of the next block is the same when it sets every leaf of the trace.
-/

set_option autoImplicit false

namespace Pocket.Persistence.PersistenceModule

open TreeStore

open Model (Bytes)
open Utility (TxIndex IndexedTransaction)
open LeafMap (AgreeOff keysOf)

variable {B : Backend} {m m' m₁ m₁' : PersistenceModule}

/-! ## Traces -/

/-- Where two runs may differ. -/
structure Trace where
  leaves : Set (TreeName × Bytes)
  positions : Set (ℤ × ℤ)
  hashes : Set String

namespace Trace

def none : Trace := ⟨∅, ∅, ∅⟩

def union (D D' : Trace) : Trace :=
  ⟨D.leaves ∪ D'.leaves, D.positions ∪ D'.positions, D.hashes ∪ D'.hashes⟩

def diff (D D' : Trace) : Trace :=
  ⟨D.leaves \ D'.leaves, D.positions \ D'.positions, D.hashes \ D'.hashes⟩

end Trace

/-- The leaves that a computation of the state hash sets. -/
def contextLeaves (B : Backend) (m : PersistenceModule) : Set (TreeName × Bytes) :=
  {p | ∃ ctx, m.writeContext = some ctx ∧ p ∈ keysOf (leaves B ctx.sql m.index ctx.height)}

/-- What a call sets outside of the SQL transaction. -/
def sets (B : Backend) (m : PersistenceModule) : Call → Trace
  | .write _ => .none
  | .indexTransaction idxTx =>
    ⟨∅, {(idxTx.height, idxTx.index)}, {Text.hexEncode (B.sha3 idxTx.tx)}⟩
  | .computeStateHash _ _ => ⟨contextLeaves B m, ∅, ∅⟩

/-- The trace after the calls of a context, in the run that has the abandoned ones. -/
def traceCalls (B : Backend) (committed : Bool) : PersistenceModule → Trace → List Call → Trace
  | _, D, [] => D
  | m, D, c :: cs =>
    match m.call B c with
    | none => D
    | some m' =>
      traceCalls B committed m' (if committed then D.diff (m.sets B c) else D.union (m.sets B c)) cs

/-- What is indexed for the height of the context is outside of the trace. -/
def ReadsClean (D : Trace) (m : PersistenceModule) : Prop :=
  ∀ ctx, m.writeContext = some ctx → ∀ i : ℕ, (ctx.height, (i : ℤ)) ∉ D.positions ∧
    ∀ hash, m.index.refs (.height ctx.height i) = some hash → hash ∉ D.hashes

/-- Every computation of the state hash among the calls of a committed context reads clean. -/
def CallsClean (B : Backend) : PersistenceModule → Trace → List Call → Prop
  | _, _, [] => True
  | m, D, c :: cs => (c.computes = true → ReadsClean D m) ∧
    ∀ m', m.call B c = some m' → CallsClean B m' (D.diff (m.sets B c)) cs

/-- The module with a context that was just opened. -/
def opened (m : PersistenceModule) (height : ℤ) : PersistenceModule :=
  { m with writeContext := some ⟨height, m.sql, ""⟩ }

def traceSessions (B : Backend) : PersistenceModule → Trace → List Session → Trace
  | _, D, [] => D
  | m, D, s :: ss =>
    match m.session B s with
    | none => D
    | some m' => traceSessions B m' (traceCalls B s.committed (m.opened s.height) D s.calls) ss

def SessionsClean (B : Backend) : PersistenceModule → Trace → List Session → Prop
  | _, _, [] => True
  | m, D, s :: ss => (s.committed = true → CallsClean B (m.opened s.height) D s.calls) ∧
    ∀ m', m.session B s = some m' →
      SessionsClean B m' (traceCalls B s.committed (m.opened s.height) D s.calls) ss

/-! ## The blocks of a run -/

/-- A call without the orders in which the maps of trees were gone through. -/
def Call.unordered : Call → Call
  | .computeStateHash _ _ => .computeStateHash treeOrder treeOrder
  | c => c

/-- A committed context without these orders, and with a certificate and a time of its own. -/
def Session.block (s : Session) : Session :=
  ⟨s.height, s.calls.map Call.unordered, .commit [] [] (0, 0)⟩

def blocksOf (ss : List Session) : List Session :=
  (ss.filter Session.committed).map Session.block

/-- The run leaves a trace that its committed contexts and the block after it do not read, and the
block after it sets every leaf that is left of it. -/
structure Covered (B : Backend) (ss : List Session) (height : ℤ) (cs : List Call) : Prop where
  sessions : SessionsClean B blank .none ss
  calls : ∀ m, blank.sessions B ss = some m →
    CallsClean B (m.opened height) (traceSessions B blank .none ss) cs
  leaves : ∀ m m₁, blank.sessions B ss = some m → (m.opened height).calls B cs = some m₁ →
    ReadsClean (traceCalls B true (m.opened height) (traceSessions B blank .none ss) cs) m₁ ∧
    (traceCalls B true (m.opened height) (traceSessions B blank .none ss) cs).leaves
      ⊆ contextLeaves B m₁

/-! ## Two modules that differ in the trace only -/

structure Agrees (D : Trace) (m m' : PersistenceModule) : Prop where
  sound : m.Sound
  sound' : m'.Sound
  sql : m'.sql = m.sql
  heights : m'.blocks.map Prod.fst = m.blocks.map Prod.fst
  trees : AgreeOff D.leaves m.trees.merkleTrees m'.trees.merkleTrees
  positions : ∀ height i, (height, i) ∉ D.positions →
    m.index.refs (.height height i) = m'.index.refs (.height height i)
  hashes : ∀ hash, hash ∉ D.hashes → m.index.byHash hash = m'.index.byHash hash

/-- The contexts of the two are at the same height and see the same rows. -/
def SameContext (m m' : PersistenceModule) : Prop :=
  m'.writeContext.map (fun ctx => (ctx.height, ctx.sql))
    = m.writeContext.map fun ctx => (ctx.height, ctx.sql)

theorem Agrees.refl (h : m.Sound) : Agrees .none m m :=
  ⟨h, h, rfl, rfl, fun _ _ _ => rfl, fun _ _ _ => rfl, fun _ _ => rfl⟩

variable {D : Trace} {c : Call} {ctx : Context} {cs : List Call} {ss : List Session} {height : ℤ}

theorem Agrees.mono {D' : Trace} (h : Agrees D m m') (hleaves : D.leaves ⊆ D'.leaves)
    (hpositions : D.positions ⊆ D'.positions) (hhashes : D.hashes ⊆ D'.hashes) : Agrees D' m m' where
  sound := h.sound
  sound' := h.sound'
  sql := h.sql
  heights := h.heights
  trees := fun T k hk => h.trees T k fun hD => hk (hleaves hD)
  positions := fun height i hi => h.positions height i fun hD => hi (hpositions hD)
  hashes := fun hash hhash => h.hashes hash fun hD => hhash (hhashes hD)

/-! ## A call in one of them -/

theorem Agrees.call_left (h : Agrees D m m') (hc : m.call B c = some m₁) :
    Agrees (D.union (m.sets B c)) m₁ m' := by
  have hsound := sound_call h.sound hc
  cases c with
  | write statement =>
    cases hc
    refine Agrees.mono ⟨hsound, h.sound', h.sql, h.heights, h.trees, h.positions, h.hashes⟩ ?_ ?_ ?_
    · exact Set.subset_union_left
    · exact Set.subset_union_left
    · exact Set.subset_union_left
  | indexTransaction idxTx =>
    cases hc
    refine ⟨hsound, h.sound', h.sql, h.heights, fun T k hk => ?_, fun height i hi => ?_,
      fun hash hhash => ?_⟩
    · exact h.trees T k fun hD => hk (.inl hD)
    · have hother : ¬ (height = idxTx.height ∧ i = idxTx.index) := by
        rintro ⟨rfl, rfl⟩
        exact hi (.inr rfl)
      refine (refs_index m.index idxTx height i).trans ?_
      rw [if_neg hother]
      exact h.positions height i fun hD => hi (.inl hD)
    · refine (Function.update_of_ne (fun heq => hhash (.inr heq)) _ _).trans ?_
      exact h.hashes hash fun hD => hhash (.inl hD)
  | computeStateHash o₁ o₂ =>
    obtain ⟨⟨hash, m₂⟩, hcompute, heq⟩ := Option.map_eq_some_iff.1 hc
    obtain ⟨ctx, ts, hctx, hupdate, rfl⟩ := computeStateHash_eq_some_iff.1 hcompute
    cases heq
    have htrees := h.trees.update_left o₁.nodup (updateEach_of_update hupdate)
    refine ⟨hsound, h.sound', h.sql, h.heights, fun T k hk => htrees T k fun hD => hk ?_,
      fun height i hi => h.positions height i fun hD => hi (.inl hD),
      fun hash hhash => h.hashes hash fun hD => hhash (.inl hD)⟩
    rcases hD with hold | hset
    · exact .inl hold
    · exact .inr ⟨ctx, hctx, hset⟩

/-! ## A call in both of them -/

theorem SameContext.exists_context (h : SameContext m m') (hctx : m.writeContext = some ctx) :
    ∃ ctx', m'.writeContext = some ctx' ∧ ctx'.height = ctx.height ∧ ctx'.sql = ctx.sql := by
  rw [SameContext, hctx, Option.map_some, Option.map_eq_some_iff] at h
  obtain ⟨ctx', hctx', heq⟩ := h
  exact ⟨ctx', hctx', congrArg Prod.fst heq, congrArg Prod.snd heq⟩

/-- Clean reads are the same reads. -/
theorem Agrees.getByHeight_eq (h : Agrees D m m')
    (hctx : m.writeContext = some ctx) (hclean : ReadsClean D m) :
    getByHeight m.index ctx.height = getByHeight m'.index ctx.height := by
  refine getByHeight_congr (fun i => ?_) fun i hash hhash => ?_
  · exact h.positions _ _ (hclean ctx hctx i).1
  · exact h.hashes hash ((hclean ctx hctx i).2 hash hhash)

theorem Agrees.leaves_eq (h : Agrees D m m') {ctx' : Context} (hctx : m.writeContext = some ctx)
    (hheight : ctx'.height = ctx.height) (hsql : ctx'.sql = ctx.sql) (hclean : ReadsClean D m) :
    leaves B ctx'.sql m'.index ctx'.height = leaves B ctx.sql m.index ctx.height := by
  rw [hheight, hsql]
  exact (leaves_congr (h.getByHeight_eq hctx hclean)).symm

section

variable (h : Agrees D m m') (hctx : SameContext m m')
include h hctx

/-- Whether a call succeeds is the same in both. -/
theorem Agrees.exists_call (hclean : c.computes = true → ReadsClean D m)
    (hc : m'.call B c.unordered = some m₁') : ∃ m₁, m.call B c = some m₁ := by
  cases c with
  | write statement | indexTransaction idxTx => exact ⟨_, rfl⟩
  | computeStateHash o₁ o₂ =>
    obtain ⟨⟨hash, m₂⟩, hcompute, -⟩ := Option.map_eq_some_iff.1 hc
    obtain ⟨ctx', ts, hctx', hupdate, -⟩ := computeStateHash_eq_some_iff.1 hcompute
    obtain ⟨ctx, hctx₁, hheight, hsql⟩ := SameContext.exists_context (hctx.symm) hctx'
    have hleaves := h.leaves_eq (B := B) hctx₁ hheight.symm hsql.symm (hclean rfl)
    obtain ⟨hash', ts', hupdate'⟩ := exists_update
      (fun T => hleaves ▸ exists_leaves hupdate T) m.trees o₁ o₂
    exact ⟨_, congrArg (Option.map Prod.snd)
      (computeStateHash_eq_some_iff.2 ⟨ctx, ts', hctx₁, hupdate', rfl⟩)⟩

theorem Agrees.call_both (hclean : c.computes = true → ReadsClean D m) (hc : m.call B c = some m₁) :
    ∃ m₁', m'.call B c.unordered = some m₁' ∧ Agrees (D.diff (m.sets B c)) m₁ m₁' ∧
      SameContext m₁ m₁' := by
  have hsound := sound_call h.sound hc
  cases c with
  | write statement =>
    cases hc
    refine ⟨_, rfl, ?_, ?_⟩
    · refine Agrees.mono ⟨hsound, ⟨h.sound'.roots, h.sound'.index⟩, h.sql, h.heights, h.trees,
        h.positions, h.hashes⟩ ?_ ?_ ?_
      · exact (Set.sdiff_empty).superset
      · exact (Set.sdiff_empty).superset
      · exact (Set.sdiff_empty).superset
    · have hwritten := congrArg (Option.map fun p : ℤ × SqlState => (p.1, statement p.2)) hctx
      rw [Option.map_map, Option.map_map] at hwritten
      rw [SameContext, Option.map_map, Option.map_map]
      exact hwritten
  | indexTransaction idxTx =>
    cases hc
    have hsound' : (m'.indexTransaction B idxTx).Sound :=
      ⟨h.sound'.roots, indexSound_index h.sound'.index idxTx⟩
    refine ⟨_, rfl, ⟨hsound, hsound', h.sql, h.heights, fun T k hk => ?_, fun height i hi => ?_,
      fun hash hhash => ?_⟩, hctx⟩
    · exact h.trees T k fun hD => hk ⟨hD, fun hempty => hempty⟩
    · refine (refs_index m.index idxTx height i).trans (Eq.trans ?_
        (refs_index m'.index idxTx height i).symm)
      by_cases hslot : height = idxTx.height ∧ i = idxTx.index
      · rw [if_pos hslot, if_pos hslot]
      · rw [if_neg hslot, if_neg hslot]
        refine h.positions height i fun hD => hi ⟨hD, fun heq => hslot ?_⟩
        exact ⟨congrArg Prod.fst heq, congrArg Prod.snd heq⟩
    · show Function.update m.index.byHash _ _ hash = Function.update m'.index.byHash _ _ hash
      by_cases heq : hash = Text.hexEncode (B.sha3 idxTx.tx)
      · rw [heq, Function.update_self, Function.update_self]
      · rw [Function.update_of_ne heq, Function.update_of_ne heq]
        exact h.hashes hash fun hD => hhash ⟨hD, heq⟩
  | computeStateHash o₁ o₂ =>
    obtain ⟨⟨hash, m₂⟩, hcompute, heq⟩ := Option.map_eq_some_iff.1 hc
    obtain ⟨ctx, ts, hctx₁, hupdate, rfl⟩ := computeStateHash_eq_some_iff.1 hcompute
    cases heq
    obtain ⟨ctx', hctx', hheight, hsql⟩ := hctx.exists_context hctx₁
    have hleaves := h.leaves_eq (B := B) hctx₁ hheight hsql (hclean rfl)
    obtain ⟨hash', ts', hupdate'⟩ := exists_update
      (fun T => hleaves ▸ exists_leaves hupdate T) m'.trees treeOrder treeOrder
    have hcall' : m'.call B (.computeStateHash treeOrder treeOrder) = some { m' with
        trees := ts', writeContext := some { ctx' with stateHash := hash' } } :=
      congrArg (Option.map Prod.snd)
        (computeStateHash_eq_some_iff.2 ⟨ctx', ts', hctx', hupdate', rfl⟩)
    refine ⟨_, hcall', ⟨hsound, sound_call h.sound' hcall', h.sql, h.heights, fun T k hk => ?_,
      fun height i hi => h.positions height i fun hD => hi ⟨hD, fun hempty => hempty⟩,
      fun hash hhash => h.hashes hash fun hD => hhash ⟨hD, fun hempty => hempty⟩⟩, ?_⟩
    · have heach := updateEach_of_update hupdate
      have heach' := updateEach_of_update hupdate'
      rw [hleaves] at heach'
      refine (h.trees.update_both o₁.nodup treeOrder.nodup o₁.mem treeOrder.mem heach heach') T k
        fun hD => hk ?_
      refine ⟨hD.1, fun hset => hD.2 ?_⟩
      obtain ⟨ctx₂, hctx₂, hmem⟩ := hset
      rw [hctx₁] at hctx₂
      cases hctx₂
      exact hmem
    · rw [SameContext, Option.map_some, Option.map_some, hheight, hsql]

/-- Where the leaves of the trace are all set, the hashes are the same. -/
theorem Agrees.stateHash_eq {o₁ o₂ o₃ o₄ : TreeOrder} {hash hash' : String}
    (hclean : ReadsClean D m) (hset : D.leaves ⊆ contextLeaves B m)
    (hhash : m.computeStateHash B o₁ o₂ = some (hash, m₁))
    (hhash' : m'.computeStateHash B o₃ o₄ = some (hash', m₁')) : hash = hash' := by
  obtain ⟨ctx, ts, hctx₁, hupdate, -⟩ := computeStateHash_eq_some_iff.1 hhash
  obtain ⟨ctx', ts', hctx', hupdate', -⟩ := computeStateHash_eq_some_iff.1 hhash'
  obtain ⟨ctx₂, hctx₂, hheight, hsql⟩ := hctx.exists_context hctx₁
  cases Option.some.inj (hctx'.symm.trans hctx₂)
  rw [update, h.leaves_eq hctx₁ hheight hsql hclean, ← update] at hupdate'
  refine (update_hash_eq_iff h.sound.roots h.sound'.roots hupdate hupdate').2
    fun T k hk => h.trees T k fun hD => hk ?_
  obtain ⟨ctx₂, hctx₂, hmem⟩ := hset hD
  cases Option.some.inj (hctx₁.symm.trans hctx₂)
  exact hmem

end

/-! ## Whole contexts -/

theorem Agrees.calls_left (h : Agrees D m m')
    (hcs : m.calls B cs = some m₁) : Agrees (traceCalls B false m D cs) m₁ m' := by
  induction cs generalizing m D with
  | nil =>
    cases hcs
    exact h
  | cons c cs ih =>
    obtain ⟨m₂, hc, hrest⟩ := Option.bind_eq_some_iff.1 hcs
    rw [traceCalls, hc]
    exact ih (h.call_left hc) hrest

section

variable (h : Agrees D m m') (hctx : SameContext m m')
include h hctx

theorem Agrees.calls_both (hclean : CallsClean B m D cs) (hcs : m.calls B cs = some m₁) :
    ∃ m₁', m'.calls B (cs.map Call.unordered) = some m₁' ∧
      Agrees (traceCalls B true m D cs) m₁ m₁' ∧ SameContext m₁ m₁' := by
  induction cs generalizing m m' D with
  | nil =>
    cases hcs
    exact ⟨m', rfl, h, hctx⟩
  | cons c cs ih =>
    obtain ⟨m₂, hc, hrest⟩ := Option.bind_eq_some_iff.1 hcs
    obtain ⟨m₂', hc', hagrees, hctx₂⟩ := h.call_both hctx hclean.1 hc
    rw [traceCalls, hc, List.map_cons, calls, hc']
    exact ih hagrees hctx₂ (hclean.2 m₂ hc) hrest

theorem Agrees.exists_calls (hclean : CallsClean B m D cs)
    (hcs : m'.calls B (cs.map Call.unordered) = some m₁') : ∃ m₁, m.calls B cs = some m₁ := by
  induction cs generalizing m m' D with
  | nil => exact ⟨m, rfl⟩
  | cons c cs ih =>
    obtain ⟨m₂', hc', hrest⟩ := Option.bind_eq_some_iff.1 hcs
    obtain ⟨m₂, hc⟩ := h.exists_call hctx hclean.1 hc'
    obtain ⟨m₃', hc₃, hagrees, hctx₂⟩ := h.call_both hctx hclean.1 hc
    cases Option.some.inj (hc'.symm.trans hc₃)
    rw [calls, hc]
    exact ih hagrees hctx₂ (hclean.2 m₂ hc) hrest

/-- A commit that succeeds in one succeeds in the other. -/
theorem Agrees.commit_both {proposerAddr quorumCert : Bytes} {now : ℤ × ℤ}
    (hfinish : m.finish B (.commit proposerAddr quorumCert now) = some m₁) :
    ∃ m₁', m'.finish B (.commit [] [] (0, 0)) = some m₁' ∧ Agrees D m₁ m₁' := by
  obtain ⟨ctx, block, hctx₁, hblock, hnew, rfl⟩ :=
    commit_eq_ok_iff.1 (finish_commit_eq_some_iff.1 hfinish)
  obtain ⟨ctx', hctx', hheight, hsql⟩ := hctx.exists_context hctx₁
  obtain ⟨previous, idxTxs, hprevious, -, -⟩ := prepareBlock_eq_ok_iff.1 hblock
  have hbefore := exists_prevBlockHash_iff.1 ⟨previous, hprevious⟩
  rw [any_height_eq, decide_eq_false_iff_not] at hnew
  rw [← hheight, ← h.heights] at hbefore hnew
  obtain ⟨block', idxTxs', -, -, hcommit'⟩ :=
    exists_commit (B := B) hctx' h.sound'.index hbefore hnew [] [] (0, 0)
  refine ⟨_, finish_commit_eq_some_iff.2 hcommit', ?_⟩
  refine ⟨⟨h.sound.roots, h.sound.index⟩, ⟨h.sound'.roots, h.sound'.index⟩, hsql, ?_, h.trees,
    h.positions, h.hashes⟩
  rw [List.map_append, List.map_append, h.heights, hheight]
  rfl

end

/-! ## Whole runs -/

theorem Agrees.opened (h : Agrees D m m') (height : ℤ) :
    Agrees D (m.opened height) (m'.opened height) ∧
      SameContext (m.opened height) (m'.opened height) := by
  refine ⟨⟨⟨h.sound.roots, h.sound.index⟩, ⟨h.sound'.roots, h.sound'.index⟩, h.sql, h.heights,
    h.trees, h.positions, h.hashes⟩, ?_⟩
  show some (height, m'.sql) = some (height, m.sql)
  rw [h.sql]

/-- One session: an abandoned one is passed over, a committed one is in both runs. -/
theorem Agrees.session {s : Session} (h : Agrees D m m')
    (hclosed : m.writeContext = none) (hclosed' : m'.writeContext = none)
    (hclean : s.committed = true → CallsClean B (m.opened s.height) D s.calls)
    (hs : m.session B s = some m₁) :
    ∃ m₁', m'.sessions B (blocksOf [s]) = some m₁' ∧ m₁'.writeContext = none ∧
      Agrees (traceCalls B s.committed (m.opened s.height) D s.calls) m₁ m₁' := by
  obtain ⟨m₂, hcalls, hfinish⟩ := (session_eq_some_iff hclosed).1 hs
  have hopened := h.opened s.height
  cases s with
  | mk height cs ending =>
    cases ending with
    | release =>
      cases hfinish
      have hsame : Agrees D (m.opened height) m' := ⟨hopened.1.sound, h.sound', h.sql, h.heights,
        h.trees, h.positions, h.hashes⟩
      have hagrees := hsame.calls_left hcalls
      exact ⟨m', rfl, hclosed', ⟨hagrees.sound.roots, hagrees.sound.index⟩, hagrees.sound',
        hagrees.sql, hagrees.heights, hagrees.trees, hagrees.positions, hagrees.hashes⟩
    | commit proposerAddr quorumCert now =>
      obtain ⟨m₂', hcalls', hagrees, hctx⟩ := hopened.1.calls_both hopened.2 (hclean rfl) hcalls
      obtain ⟨m₁', hfinish', hcommitted⟩ := hagrees.commit_both hctx hfinish
      have hs' : m'.session B (Session.block ⟨height, cs, .commit proposerAddr quorumCert now⟩)
          = some m₁' := (session_eq_some_iff hclosed').2 ⟨m₂', hcalls', hfinish'⟩
      refine ⟨m₁', ?_, closed_of_finish hfinish', hcommitted⟩
      show (m'.session B _).bind _ = some m₁'
      rw [hs']
      rfl

theorem sessions_append (ss ss' : List Session) :
    m.sessions B (ss ++ ss') = (m.sessions B ss).bind fun m₁ => m₁.sessions B ss' := by
  induction ss generalizing m with
  | nil => rfl
  | cons s ss ih =>
    rw [List.cons_append, sessions, sessions, Option.bind_assoc]
    exact congrArg _ (funext fun m₁ => ih)

theorem blocksOf_cons (s : Session) (ss : List Session) :
    blocksOf (s :: ss) = blocksOf [s] ++ blocksOf ss := by
  rw [← List.singleton_append, blocksOf, List.filter_append, List.map_append]
  rfl

/-- **The run of the blocks alone** differs from the run in its trace only. -/
theorem Agrees.sessions (h : Agrees D m m')
    (hclosed : m.writeContext = none) (hclosed' : m'.writeContext = none)
    (hclean : SessionsClean B m D ss) (hss : m.sessions B ss = some m₁) :
    ∃ m₁', m'.sessions B (blocksOf ss) = some m₁' ∧ Agrees (traceSessions B m D ss) m₁ m₁' ∧
      m₁.writeContext = none ∧ m₁'.writeContext = none := by
  induction ss generalizing m m' D with
  | nil =>
    cases hss
    exact ⟨m', rfl, h, hclosed, hclosed'⟩
  | cons s ss ih =>
    obtain ⟨m₂, hs, hrest⟩ := Option.bind_eq_some_iff.1 hss
    obtain ⟨m₂', hs', hclosed₂', hagrees⟩ := h.session hclosed hclosed' hclean.1 hs
    have hclosed₂ : m₂.writeContext = none := by
      obtain ⟨_, _, hfinish⟩ := (session_eq_some_iff hclosed).1 hs
      exact closed_of_finish hfinish
    obtain ⟨m₁', hrest', hagrees₁, hclosed₁⟩ := ih hagrees hclosed₂ hclosed₂' (hclean.2 m₂ hs) hrest
    rw [traceSessions, hs, blocksOf_cons, sessions_append, hs']
    exact ⟨m₁', hrest', hagrees₁, hclosed₁⟩

theorem stateHashOf_eq_some_iff (hclosed : m.writeContext = none)
    {o₁ o₂ : TreeOrder} {hash : String} :
    m.stateHashOf B height cs o₁ o₂ = some hash ↔
      ∃ m₁ m₂, (m.opened height).calls B cs = some m₁ ∧
        m₁.computeStateHash B o₁ o₂ = some (hash, m₂) := by
  rw [stateHashOf, newRWContext, hclosed]
  simp only [Option.bind_eq_some_iff, Option.map_eq_some_iff, Prod.exists, exists_and_right,
    exists_eq_right]
  exact exists_congr fun m₁ => exists_and_left.symm

/-- The hash of the next block is the one that the run of the blocks alone gives. -/
theorem Covered.stateHashOf_iff (h : Covered B ss height cs) (hss : blank.sessions B ss = some m)
    (o₁ o₂ : TreeOrder) (hash : String) :
    ∃ n, blank.sessions B (blocksOf ss) = some n ∧
      (m.stateHashOf B height cs o₁ o₂ = some hash ↔
        n.stateHashOf B height (cs.map Call.unordered) treeOrder treeOrder = some hash) := by
  obtain ⟨n, hn, hagrees, hclosed, hclosed'⟩ :=
    (Agrees.refl sound_blank).sessions rfl rfl h.sessions hss
  obtain ⟨hopened, hctx⟩ := hagrees.opened height
  refine ⟨n, hn, ?_⟩
  rw [stateHashOf_eq_some_iff hclosed, stateHashOf_eq_some_iff hclosed']
  have hclean := h.calls m hss
  constructor
  · rintro ⟨m₁, m₂, hcs, hhash⟩
    obtain ⟨n₁, hcs', hagrees₁, hctx₁⟩ := hopened.calls_both hctx hclean hcs
    obtain ⟨hreads, hset⟩ := h.leaves m m₁ hss hcs
    have hcall : m₁.call B (.computeStateHash o₁ o₂) = some m₂ := congrArg (Option.map Prod.snd) hhash
    obtain ⟨n₂, hcall', -⟩ := hagrees₁.call_both hctx₁ (fun _ => hreads) hcall
    obtain ⟨⟨hash', n₃⟩, hhash', -⟩ := Option.map_eq_some_iff.1 hcall'
    rw [hagrees₁.stateHash_eq hctx₁ hreads hset hhash hhash']
    exact ⟨n₁, n₃, hcs', hhash'⟩
  · rintro ⟨n₁, n₂, hcs', hhash'⟩
    obtain ⟨m₁, hcs⟩ := hopened.exists_calls hctx hclean hcs'
    obtain ⟨n₃, hcs₃, hagrees₁, hctx₁⟩ := hopened.calls_both hctx hclean hcs
    cases Option.some.inj (hcs'.symm.trans hcs₃)
    obtain ⟨hreads, hset⟩ := h.leaves m m₁ hss hcs
    have hcall' : n₁.call B (.computeStateHash treeOrder treeOrder) = some n₂ :=
      congrArg (Option.map Prod.snd) hhash'
    obtain ⟨m₂, hcall⟩ := hagrees₁.exists_call (c := .computeStateHash o₁ o₂) hctx₁
      (fun _ => hreads) hcall'
    obtain ⟨⟨hash'', m₃⟩, hhash, -⟩ := Option.map_eq_some_iff.1 hcall
    rw [← hagrees₁.stateHash_eq hctx₁ hreads hset hhash hhash']
    exact ⟨m₁, m₃, hcs, hhash⟩

/-- **Abandoned contexts and the state hash**: two runs with the same blocks, whose traces are
covered, give the next block the same hash. -/
theorem stateHash_of_same_blocks {ss ss' : List Session} {height : ℤ} {cs cs' : List Call}
    (hss : blank.sessions B ss = some m) (hss' : blank.sessions B ss' = some m')
    (hblocks : blocksOf ss = blocksOf ss') (hcs : cs.map Call.unordered = cs'.map Call.unordered)
    (hcovered : Covered B ss height cs) (hcovered' : Covered B ss' height cs')
    (o₁ o₂ o₃ o₄ : TreeOrder) :
    m.stateHashOf B height cs o₁ o₂ = m'.stateHashOf B height cs' o₃ o₄ := by
  refine Option.ext fun hash => ?_
  obtain ⟨n, hn, hiff⟩ := hcovered.stateHashOf_iff hss o₁ o₂ hash
  obtain ⟨n', hn', hiff'⟩ := hcovered'.stateHashOf_iff hss' o₃ o₄ hash
  rw [← hblocks, hn] at hn'
  cases hn'
  rw [hiff, hiff', hcs]

/-! ## A payment that was given up -/

/-- A context without transactions whose hash is computed and that is then released. -/
def rowsAbandoned (height : ℤ) (statement : SqlState → SqlState) : Session :=
  ⟨height, [.write statement, .computeStateHash treeOrder treeOrder], .release⟩

/-- Such a context leaves its leaves in the trees, and nothing else. -/
theorem session_rowsAbandoned (hclosed : m.writeContext = none) (height : ℤ)
    (f : SqlState → SqlState) (hleaves : ∀ T, ∃ ls, leaves B (f m.sql) m.index height T = some ls) :
    ∃ ts, m.session B (rowsAbandoned height f) = some { m with trees := ts, writeContext := none } ∧
      LeafMap.updateEach (leaves B (f m.sql) m.index height) TreeName.all m.trees.merkleTrees
        = some ts.merkleTrees := by
  obtain ⟨hash, ts, hcalls, htrees⟩ := exists_calls_rows m height f hleaves
  exact ⟨ts, (session_eq_some_iff hclosed).2 ⟨_, hcalls, rfl⟩, htrees⟩

theorem readsClean_of_empty (hpositions : D.positions = ∅) (hhashes : D.hashes = ∅)
    (m : PersistenceModule) : ReadsClean D m := by
  intro ctx _ i
  rw [hpositions, hhashes]
  exact ⟨fun h => h, fun _ _ h => h⟩

theorem callsClean_of_empty (hpositions : D.positions = ∅) (hhashes : D.hashes = ∅)
    (m : PersistenceModule) (cs : List Call) : CallsClean B m D cs := by
  induction cs generalizing m D with
  | nil => trivial
  | cons c cs ih =>
    refine ⟨fun _ => readsClean_of_empty hpositions hhashes m, fun m' _ => ih ?_ ?_ m'⟩
    · exact (congrArg (· \ _) hpositions).trans (Set.empty_sdiff _)
    · exact (congrArg (· \ _) hhashes).trans (Set.empty_sdiff _)

/-- A committed context only takes something off the trace. -/
theorem traceCalls_committed_subset (m : PersistenceModule) (cs : List Call) :
    (traceCalls B true m D cs).leaves ⊆ D.leaves ∧
      (traceCalls B true m D cs).positions ⊆ D.positions ∧
      (traceCalls B true m D cs).hashes ⊆ D.hashes := by
  induction cs generalizing m D with
  | nil => exact ⟨subset_rfl, subset_rfl, subset_rfl⟩
  | cons c cs ih =>
    rw [traceCalls]
    cases m.call B c with
    | none => exact ⟨subset_rfl, subset_rfl, subset_rfl⟩
    | some m' =>
      have hrest := ih (D := D.diff (m.sets B c)) m'
      exact ⟨hrest.1.trans Set.sdiff_subset, hrest.2.1.trans Set.sdiff_subset,
        hrest.2.2.trans Set.sdiff_subset⟩

/-- A run whose trace has leaves only is covered when the next block sets them. -/
theorem covered_of_leaves (hclean : SessionsClean B blank .none ss)
    (hpositions : (traceSessions B blank .none ss).positions = ∅)
    (hhashes : (traceSessions B blank .none ss).hashes = ∅)
    (hleaves : ∀ m m₁, blank.sessions B ss = some m → (m.opened height).calls B cs = some m₁ →
      (traceSessions B blank .none ss).leaves ⊆ contextLeaves B m₁) : Covered B ss height cs := by
  refine ⟨hclean, fun m _ => callsClean_of_empty hpositions hhashes _ _, fun m m₁ hm hm₁ => ?_⟩
  obtain ⟨hleaves', hpositions', hhashes'⟩ :=
    traceCalls_committed_subset (B := B) (D := traceSessions B blank .none ss) (m.opened height) cs
  rw [hpositions] at hpositions'
  rw [hhashes] at hhashes'
  exact ⟨readsClean_of_empty (Set.subset_empty_iff.1 hpositions') (Set.subset_empty_iff.1 hhashes') _,
    hleaves'.trans (hleaves m m₁ hm hm₁)⟩

/-- The trace of a statement and the hash after it. -/
theorem traceCalls_rows (hpositions : D.positions = ∅) (hhashes : D.hashes = ∅)
    (committed : Bool) (m : PersistenceModule) (f : SqlState → SqlState) (o₁ o₂ : TreeOrder) :
    let D' := traceCalls B committed m D [.write f, .computeStateHash o₁ o₂]
    D'.positions = ∅ ∧ D'.hashes = ∅ ∧ ∀ p ∈ D'.leaves, p ∈ D.leaves ∨ (committed = false ∧
      p ∈ contextLeaves B { m with
        writeContext := m.writeContext.map fun ctx => { ctx with sql := f ctx.sql } }) := by
  simp only [traceCalls, call]
  cases committed with
  | false =>
    split
    · refine ⟨by simp [Trace.union, Trace.none, sets, hpositions],
        by simp [Trace.union, Trace.none, sets, hhashes], fun p hp => ?_⟩
      exact .inl (hp.resolve_right fun hempty => hempty)
    · refine ⟨by simp [Trace.union, Trace.none, sets, hpositions],
        by simp [Trace.union, Trace.none, sets, hhashes], fun p hp => ?_⟩
      rcases hp with (hold | hempty) | hset
      · exact .inl hold
      · exact hempty.elim
      · exact .inr ⟨rfl, hset⟩
  | true =>
    split
    · exact ⟨by simp [Trace.diff, hpositions], by simp [Trace.diff, hhashes],
        fun p hp => .inl hp.1⟩
    · exact ⟨by simp [Trace.diff, hpositions], by simp [Trace.diff, hhashes],
        fun p hp => .inl hp.1.1⟩

theorem traceSessions_rowsBlock (f : SqlState → SqlState) :
    let D := traceSessions B blank .none [rowsBlock 0 f]
    D.positions = ∅ ∧ D.hashes = ∅ ∧ ∀ p, p ∉ D.leaves := by
  rw [traceSessions]
  cases blank.session B (rowsBlock 0 f) with
  | none => exact ⟨rfl, rfl, fun _ h => h⟩
  | some m =>
    obtain ⟨hpositions, hhashes, hleaves⟩ := traceCalls_rows (B := B) (D := .none) rfl rfl true
      (blank.opened 0) f treeOrder treeOrder
    refine ⟨hpositions, hhashes, fun p hp => ?_⟩
    rcases hleaves p hp with hnone | ⟨hfalse, -⟩
    · exact hnone
    · cases hfalse

/-- Genesis has no abandoned context before it. -/
theorem covered_rowsBlock (f : SqlState → SqlState) (height : ℤ) (cs : List Call) :
    Covered B [rowsBlock 0 f] height cs := by
  obtain ⟨hpositions, hhashes, hleaves⟩ := traceSessions_rowsBlock (B := B) f
  refine covered_of_leaves ⟨fun _ => callsClean_of_empty rfl rfl _ _, fun _ _ => trivial⟩ hpositions
    hhashes fun _ _ _ _ p hp => ?_
  exact (hleaves p hp).elim

/-- The next block writes what the abandoned context had written. -/
theorem covered_rowsAbandoned {f f' : SqlState → SqlState}
    (hm : blank.sessions B [rowsBlock 0 f] = some m)
    (hm' : blank.sessions B [rowsBlock 0 f, rowsAbandoned height f'] = some m')
    (hsql : m'.sql = m.sql) (hindex : m'.index = m.index) :
    Covered B [rowsBlock 0 f, rowsAbandoned height f'] height [.write f'] := by
  obtain ⟨_, hsession, hlast⟩ := Option.bind_eq_some_iff.1 hm
  cases hlast
  have ⟨m₁, hsession₁, hrest⟩ := Option.bind_eq_some_iff.1 hm'
  cases Option.some.inj (hsession.symm.trans hsession₁)
  obtain ⟨m₂, habandoned, -⟩ := Option.bind_eq_some_iff.1 hrest
  obtain ⟨hpositions, hhashes, hleaves⟩ := traceSessions_rowsBlock (B := B) f
  obtain ⟨hpositions', hhashes', hleaves'⟩ := traceCalls_rows (B := B) hpositions hhashes false
    (m.opened height) f' treeOrder treeOrder
  have htrace : traceSessions B blank .none [rowsBlock 0 f, rowsAbandoned height f']
      = traceCalls B false (m.opened height) (traceSessions B blank .none [rowsBlock 0 f])
        (rowsAbandoned height f').calls := by
    simp only [traceSessions, hsession, habandoned]
    rfl
  refine covered_of_leaves ⟨fun _ => callsClean_of_empty rfl rfl _ _,
    fun _ _ => ⟨fun h => (nomatch h), fun _ _ => trivial⟩⟩ ?_ ?_ ?_
  · rw [htrace]
    exact hpositions'
  · rw [htrace]
    exact hhashes'
  · rw [htrace]
    intro m₃ m₄ hm₃ hm₄ p hp
    cases Option.some.inj (hm'.symm.trans hm₃)
    cases hm₄
    rcases hleaves' p hp with hp | ⟨-, ctx, hctx, hp⟩
    · exact (hleaves p hp).elim
    · cases hctx
      have hset : p ∈ keysOf (leaves B (f' m'.sql) m'.index height) := by
        rw [hsql, hindex]
        exact hp
      exact ⟨_, rfl, hset⟩

/-- The runs of genesis alone, and with a payment to the account `02` that was given up. -/
theorem exists_abandoned (B : Backend) :
    ∃ m m', blank.sessions B [rowsBlock 0 (payTo 0 "01")] = some m ∧
      blank.sessions B [rowsBlock 0 (payTo 0 "01"), rowsAbandoned 1 (payTo 1 "02")] = some m' ∧
      m.sql = payTo 0 "01" blank.sql ∧ m'.sql = payTo 0 "01" blank.sql ∧
      m.index = .empty ∧ m'.index = .empty ∧
      (m.trees.merkleTrees .account).lookup [2] = none ∧
      (m'.trees.merkleTrees .account).lookup [2] ≠ none := by
  obtain ⟨m, hm, hsql, hindex, -, htrees⟩ := session_rowsBlock (B := B) rfl sound_blank.index 0
    (payTo 0 "01") (fun T => ⟨_, leaves_firstPayment T⟩) (.inl rfl) nofun
  have hclosed : m.writeContext = none := by
    obtain ⟨_, _, hfinish⟩ := (session_eq_some_iff rfl).1 hm
    exact closed_of_finish hfinish
  have hleaves : ∀ T, leaves B (payTo 1 "02" m.sql) m.index 1 T
      = some (if T = .account then [([2], B.marshalAccount ⟨"02", "1"⟩)] else []) := by
    rw [hsql, hindex]
    exact leaves_twoPayments
  obtain ⟨ts, hm', htrees'⟩ := session_rowsAbandoned (B := B) hclosed 1 (payTo 1 "02")
    fun T => ⟨_, hleaves T⟩
  refine ⟨m, { m with trees := ts, writeContext := none }, ?_, ?_, hsql, hsql, hindex, hindex, ?_, ?_⟩
  · rw [sessions, hm]
    rfl
  · rw [sessions, hm, Option.bind_some, sessions, hm']
    rfl
  · obtain ⟨ls, hls, hT⟩ :=
      ((LeafMap.updateEach_eq_some_iff _ (by decide)).1 htrees).1 .account (TreeName.mem_all _)
    cases Option.some.inj (hls.symm.trans (leaves_firstPayment .account))
    rw [hT, LeafMap.lookup_setAll_of_not_mem (by simp)]
    exact Finmap.lookup_empty _
  · obtain ⟨ls, hls, hT⟩ :=
      ((LeafMap.updateEach_eq_some_iff _ (by decide)).1 htrees').1 .account (TreeName.mem_all _)
    cases Option.some.inj (hls.symm.trans (hleaves .account))
    rw [hT, LeafMap.lookup_setAll_ne_none_iff]
    exact .inl (List.mem_singleton.2 rfl)

/-- The next block pays the account `03`: the leaf of the payment that was given up is in its hash. -/
theorem abandoned_payment_changes_hash :
    ∃ m m' hash hash', blank.sessions sampleBackend [rowsBlock 0 (payTo 0 "01")] = some m ∧
      blank.sessions sampleBackend [rowsBlock 0 (payTo 0 "01"), rowsAbandoned 1 (payTo 1 "02")]
        = some m' ∧
      blocksOf [rowsBlock 0 (payTo 0 "01")]
        = blocksOf [rowsBlock 0 (payTo 0 "01"), rowsAbandoned 1 (payTo 1 "02")] ∧
      m.stateHashOf sampleBackend 1 [.write (payTo 1 "03")] treeOrder treeOrder = some hash ∧
      m'.stateHashOf sampleBackend 1 [.write (payTo 1 "03")] treeOrder treeOrder = some hash' ∧
      hash ≠ hash' := by
  obtain ⟨m, m', hm, hm', hsql, hsql', hindex, hindex', hunset, hset⟩ := exists_abandoned sampleBackend
  obtain ⟨hsound, hclosed⟩ := sound_sessions sound_blank rfl hm
  obtain ⟨hsound', hclosed'⟩ := sound_sessions sound_blank rfl hm'
  obtain ⟨hash, hash', hhash, hhash', hne⟩ := exists_hashes_ne (B := sampleBackend)
    (k := [2]) hsound hclosed hsound' hclosed' (hsql'.trans hsql.symm) (hindex'.trans hindex.symm) 1
    (by rw [hsql, hindex]; exact leaves_of_payments rfl rfl rfl rfl rfl) (by decide)
    fun heq => hset (heq.symm.trans hunset)
  exact ⟨m, m', hash, hash', hm, hm', rfl, hhash, hhash', hne⟩

/-- The next block pays the account `02` after all. -/
theorem abandoned_payment_repeated :
    ∃ m m' hash, blank.sessions sampleBackend [rowsBlock 0 (payTo 0 "01")] = some m ∧
      blank.sessions sampleBackend [rowsBlock 0 (payTo 0 "01"), rowsAbandoned 1 (payTo 1 "02")]
        = some m' ∧
      m.stateHashOf sampleBackend 1 [.write (payTo 1 "02")] treeOrder treeOrder = some hash ∧
      m'.stateHashOf sampleBackend 1 [.write (payTo 1 "02")] treeOrder treeOrder = some hash := by
  obtain ⟨m, m', hm, hm', hsql, hsql', hindex, hindex', -, -⟩ := exists_abandoned sampleBackend
  obtain ⟨-, hclosed⟩ := sound_sessions sound_blank rfl hm
  obtain ⟨hash, -, -, hhash⟩ := exists_hash_of_leaves (B := sampleBackend) 1 (payTo 1 "02")
    hclosed
    fun T => ⟨_, by rw [hsql, hindex]; exact leaves_twoPayments T⟩
  have hcovered' := covered_rowsAbandoned hm hm' (hsql'.trans hsql.symm) (hindex'.trans hindex.symm)
  refine ⟨m, m', hash, hm, hm', hhash, ?_⟩
  rw [← stateHash_of_same_blocks hm hm' rfl rfl (covered_rowsBlock _ _ _) hcovered' treeOrder
    treeOrder treeOrder treeOrder]
  exact hhash

end Pocket.Persistence.PersistenceModule
