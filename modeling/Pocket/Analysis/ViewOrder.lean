import Mathlib.Data.Prod.Lex
import Pocket.Analysis.LeaderPools
import Pocket.Analysis.ViewLeader

/-!
# The order of views

The pacemaker moves a node to the round and step of a message, by setters that take a `uint64` and a
`uint8`, and an interrupted round is followed by the next one, modulo `2 ^ 64`.  `Advances` is what a
handler does to the view where neither overflows, and where the step is one of the five
(`advances_handleEvent`); along a run the view then never goes back.
-/

set_option autoImplicit false

namespace Pocket.Analysis

open Pocket.Model

variable {P : Platform} {cfg : NodeConfig} {env : Env} {e : Env × Event} {c : NodeRun}

/-- Height, round and step, in lexicographic order. -/
def view (m : NodeState) : ℕ ×ₗ ℕ ×ₗ ℤ := toLex (m.height, toLex (m.round, m.step))

theorem view_le_view_iff {m m' : NodeState} :
    view m ≤ view m' ↔ m.height < m'.height
      ∨ m.height = m'.height ∧ (m.round < m'.round ∨ m.round = m'.round ∧ m.step ≤ m'.step) := by
  simp only [view, Prod.Lex.toLex_le_toLex]

/-- The step is one of `NewRound` .. `Decide`. -/
def KnownStep (step : ℤ) : Prop := NewRound ≤ step ∧ step ≤ Decide

instance (step : ℤ) : Decidable (KnownStep step) :=
  inferInstanceAs (Decidable (NewRound ≤ step ∧ step ≤ Decide))

theorem knownStep_newRound : KnownStep NewRound := by decide

/-- The view does not go back, and its step is one of the five. -/
def Advances (m m' : NodeState) : Prop := view m ≤ view m' ∧ KnownStep m'.step

/-- A handler that is called in the step of its message keeps the order of views. -/
theorem ViewStep.advances {m m' : NodeState} (h : ViewStep m m.step m') (hknown : KnownStep m.step)
    (hlt : m.round + 1 < 2 ^ 64) : Advances m m' := by
  have hwithin : SameRound m m' → m.step ≤ m'.step → view m ≤ view m' := fun hsame hle =>
    view_le_view_iff.mpr (.inr ⟨hsame.2.1.symm, .inr ⟨hsame.2.2.symm, hle⟩⟩)
  cases h with
  | stayed hsame hstep => exact ⟨hwithin hsame hstep.ge, hstep ▸ hknown⟩
  | moved hsame hfrom hto =>
    refine ⟨hwithin hsame (by omega), ?_⟩
    rw [hto]
    exact ⟨by omega, by omega⟩
  | interrupted m₁ hheight hround =>
    have hnext : m₁.interrupted.round = m.round + 1 := by
      simp only [NodeState.interrupted, NodeState.atNewView, incrRound, hround]
      omega
    have hsame : m.height = m₁.interrupted.height := hheight.symm
    exact ⟨view_le_view_iff.mpr (.inr ⟨hsame, .inl (by omega)⟩), knownStep_newRound⟩
  | committed m₁ hheight =>
    have hnext : m.height < m₁.height + 1 := by omega
    exact ⟨view_le_view_iff.mpr (.inl hnext), knownStep_newRound⟩

/-! ## One event -/

section Step

variable {m m' m₁ : NodeState} {msg : HotstuffMessage}

/-- The messages and timeouts that keep the order of views: the setters do not overflow, and no
election is held for an unknown step. -/
def KeepsOrder (cfg : NodeConfig) (c : NodeRun) (e : Env × Event) : Prop :=
  ∀ m, c.state = some m →
    match e.2 with
    | .message msg => (Considered cfg m msg → msg.round + 1 < 2 ^ 64)
        ∧ (Elects cfg m msg → KnownStep msg.step)
    | .timeout => m.round + 1 < 2 ^ 64

/-- **One event keeps the order of views**, under the condition on the event. -/
theorem advances_handleEvent (hkeeps : KeepsOrder cfg c e) (hm : c.state = some m)
    (hm' : (handleEvent P cfg e.1 m e.2).state = some m') (hknown : KnownStep m.step) :
    Advances m m' := by
  have hcond := hkeeps m hm
  obtain ⟨env, ev⟩ := e
  cases ev with
  | timeout => exact (viewStep_interruptRound hm' rfl rfl).advances hknown hcond
  | message msg =>
    obtain ⟨hround, hopens⟩ := hcond
    have hresult : (handleHotstuffMessage P cfg env m msg).state = some m' := hm'
    rcases handleHotstuffMessage_cases P cfg env m msg with hend | ⟨m₁, hpos, -, hr⟩ | ⟨m₁, hr⟩
    · rw [hend] at hresult
      cases hresult
    · rw [hr] at hresult
      obtain rfl := Option.some.inj hresult
      rcases positionForMessage_dropped hpos with rfl | ⟨helects, step, rfl, hstep⟩
      · exact ⟨le_refl _, hknown⟩
      · -- a known step fits into a byte
        have hmsg := hopens helects
        have hstep' : step = msg.step := by
          unfold KnownStep NewRound Decide at hmsg
          omega
        subst hstep'
        have hpast := helects.1.2.2
        exact ⟨view_le_view_iff.mpr (.inr ⟨rfl, by simp only; omega⟩), hmsg⟩
    · have hconsidered := considered_of_position hr.position
      have hlt := hround hconsidered
      have hmoved : view m ≤ view m₁ ∧ m₁.round = msg.round := by
        have hforward := hr.reached.forward
        have hstep₁ := hr.step_eq
        obtain ⟨step, leader, rfl, -, -⟩ := hr.reached.state
        refine ⟨view_le_view_iff.mpr (.inr ⟨rfl, ?_⟩), rfl⟩
        simp only at hstep₁ ⊢
        omega
      have hknown₁ : KnownStep m₁.step := by
        rw [hr.step_eq]
        exact hr.known
      have hlt₁ : m₁.round + 1 < 2 ^ 64 := by
        rw [hmoved.2]
        exact hlt
      rw [hr.result] at hresult
      have hview : ViewStep m₁ m₁.step m' := by
        rw [hr.step_eq]
        split at hresult
        · exact viewStep_leaderStep (leaderHandlers_step P cfg env m₁ msg) hresult
        · exact viewStep_replicaStep (replicaHandlers_step P cfg env m₁ msg) hresult
      have hhandled := hview.advances hknown₁ hlt₁
      exact ⟨hmoved.1.trans hhandled.1, hhandled.2⟩

end Step

/-! ## Runs -/

section Run

/-- The process is past a view, in a step that is one of the five. -/
def PastView (v : ℕ ×ₗ ℕ ×ₗ ℤ) (c : NodeRun) : Prop :=
  ∀ m, c.state = some m → v ≤ view m ∧ KnownStep m.step

theorem pastView_step {v : ℕ ×ₗ ℕ ×ₗ ℤ} (hc : PastView v c) (hkeeps : KeepsOrder cfg c e) :
    PastView v (c.step P cfg e) := by
  intro m' hm'
  obtain ⟨m, hstate, hm'⟩ := NodeRun.exists_of_step P cfg hm'
  obtain ⟨hpast, hknown⟩ := hc m hstate
  have hadvances := advances_handleEvent hkeeps hstate hm' hknown
  exact ⟨hpast.trans hadvances.1, hadvances.2⟩

/-- **Views never go back** along a run that meets the condition, and the step is always one of
the five. -/
theorem views_never_go_back {start : ℕ} {es es' : List (Env × Event)}
    (hkeeps : Runs.Guarded (NodeRun.step P cfg) (KeepsOrder cfg) (NodeRun.start start) (es ++ es'))
    {m m' : NodeState}
    (hm : (Runs.run (NodeRun.step P cfg) (NodeRun.start start) es).state = some m)
    (hm' : (Runs.run (NodeRun.step P cfg) (NodeRun.start start) (es ++ es')).state = some m') :
    view m ≤ view m' ∧ KnownStep m'.step := by
  obtain ⟨hfirst, hsecond⟩ := Runs.guarded_append_iff.mp hkeeps
  have hstart : PastView (view (initialState start)) (NodeRun.start start) := by
    rintro m₀ ⟨rfl⟩
    exact ⟨le_refl _, knownStep_newRound⟩
  have hbefore := Runs.invariant_run (fun c e => pastView_step) hstart hfirst
  have hmiddle : PastView (view m) (Runs.run (NodeRun.step P cfg) (NodeRun.start start) es) := by
    intro m₁ hm₁
    obtain rfl := Option.some.inj (hm.symm.trans hm₁)
    exact ⟨le_refl _, (hbefore m hm).2⟩
  have hafter := Runs.invariant_run (fun c e => pastView_step) hmiddle hsecond
  rw [Runs.run_append] at hm'
  exact hafter m' hm'

/-- A message of the last round of all, and a timeout: the node is back in round 0.  And a message of
a sixth step and of a round past `2 ^ 63`, for which the round robin names no validator: the node is
in step 6. -/
theorem views_go_back :
    (∃ m m', (Runs.run (NodeRun.step (listedSignatures []) (fourConfig 1 "a1")) (NodeRun.start 1)
          [(fourEnv "s", .message (newRoundMsg 1 (2 ^ 64 - 1)))]).state = some m
        ∧ (Runs.run (NodeRun.step (listedSignatures []) (fourConfig 1 "a1")) (NodeRun.start 1)
          ([(fourEnv "s", .message (newRoundMsg 1 (2 ^ 64 - 1)))] ++ [(fourEnv "s", .timeout)])).state
            = some m'
        ∧ ¬ view m ≤ view m')
      ∧ ∃ m, (Runs.run (NodeRun.step (listedSignatures []) (fourConfig 1 "a1")) (NodeRun.start 1)
          [(fourEnv "s", .message { newRoundMsg 1 (2 ^ 63) with step := 6 })]).state = some m
        ∧ ¬ KnownStep m.step := by
  refine ⟨⟨_, _, rfl, rfl, ?_⟩, _, rfl, ?_⟩
  · rw [view_le_view_iff]
    decide
  · decide

/-- A node that enters a round, and is interrupted, is in the next one. -/
theorem interrupted_view_advances :
    ∃ m m', (Runs.run (NodeRun.step (listedSignatures []) (fourConfig 1 "a1")) (NodeRun.start 1)
          [(fourEnv "s", .message (newRoundMsg 1 0))]).state = some m
        ∧ (Runs.run (NodeRun.step (listedSignatures []) (fourConfig 1 "a1")) (NodeRun.start 1)
          ([(fourEnv "s", .message (newRoundMsg 1 0))] ++ [(fourEnv "s", .timeout)])).state = some m'
        ∧ view m ≤ view m' ∧ KnownStep m'.step := by
  have hkeeps : Runs.Guarded (NodeRun.step (listedSignatures []) (fourConfig 1 "a1"))
      (KeepsOrder (fourConfig 1 "a1")) (NodeRun.start 1)
      ([(fourEnv "s", .message (newRoundMsg 1 0))] ++ [(fourEnv "s", .timeout)]) := by
    refine ⟨?_, ?_, trivial⟩
    · intro m _
      exact ⟨fun _ => by decide, fun _ => knownStep_newRound⟩
    · intro m hm
      obtain rfl := Option.some.inj hm
      show (0 : ℕ) + 1 < 2 ^ 64
      decide
  exact ⟨_, _, rfl, rfl, views_never_go_back hkeeps rfl rfl⟩

end Run

end Pocket.Analysis
