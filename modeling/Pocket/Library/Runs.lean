import Mathlib.Init

/-!
# Runs of a step function

A system is a step function on states and events; a run is the fold of a list of events.
`Guarded` says that every step of a run meets a condition on the state and the event it
starts from.  The rules below turn facts about one step into facts about whole runs.
-/

set_option autoImplicit false

namespace Runs

variable {σ ε : Type} (step : σ → ε → σ)

/-- The state after a list of events. -/
def run (s : σ) (es : List ε) : σ := es.foldl step s

/-- Every step of the run from `s` meets the guard. -/
def Guarded (guard : σ → ε → Prop) : σ → List ε → Prop
  | _, [] => True
  | s, e :: es => guard s e ∧ Guarded guard (step s e) es

/-- A guard that can be decided for each step can be decided for a run. -/
instance decidableGuarded (guard : σ → ε → Prop) [∀ s e, Decidable (guard s e)] :
    ∀ (s : σ) (es : List ε), Decidable (Guarded step guard s es)
  | _, [] => inferInstanceAs (Decidable True)
  | s, e :: es =>
    have := decidableGuarded guard (step s e) es
    inferInstanceAs (Decidable (guard s e ∧ Guarded step guard (step s e) es))

variable {step}

variable {guard guard' : σ → ε → Prop} {inv : σ → Prop} {s : σ} {es : List ε}

/-- **Invariant rule.**  What holds at the start and is preserved by every guarded step
holds after every guarded run. -/
theorem invariant_run (hstep : ∀ s e, inv s → guard s e → inv (step s e)) (hs : inv s)
    (hg : Guarded step guard s es) : inv (run step s es) := by
  induction es generalizing s with
  | nil => exact hs
  | cons e es ih => exact ih (hstep s e hs hg.1) hg.2

/-- The invariant rule for a step that preserves it whatever the event. -/
theorem invariant_run_of_step (hstep : ∀ s e, inv s → inv (step s e))
    (hs : inv s) (es : List ε) : inv (run step s es) := by
  induction es generalizing s with
  | nil => exact hs
  | cons e es ih => exact ih (hstep s e hs)

/-- A run that meets a guard meets every weaker one, where the events can be limited to
those of the run. -/
theorem Guarded.mono (h : ∀ s, ∀ e ∈ es, guard s e → guard' s e) (hg : Guarded step guard s es) :
    Guarded step guard' s es := by
  induction es generalizing s with
  | nil => trivial
  | cons e es ih =>
    exact ⟨h s e (List.mem_cons_self ..) hg.1,
      ih (fun s' e' he' => h s' e' (List.mem_cons_of_mem _ he')) hg.2⟩

/-- A guarded run meets every guard that follows from the first where the invariant holds. -/
theorem Guarded.of_invariant (hstep : ∀ s e, inv s → guard s e → inv (step s e))
    (h : ∀ s e, inv s → guard s e → guard' s e) (hs : inv s) (hg : Guarded step guard s es) :
    Guarded step guard' s es := by
  induction es generalizing s with
  | nil => trivial
  | cons e es ih => exact ⟨h s e hs hg.1, ih (hstep s e hs hg.1) hg.2⟩

/-- A run whose events meet a condition of their own meets it at every step. -/
theorem guarded_of_forall_mem {cond : ε → Prop} (h : ∀ e ∈ es, cond e) :
    Guarded step (fun _ e => cond e) s es := by
  induction es generalizing s with
  | nil => trivial
  | cons e es ih =>
    exact ⟨h e (List.mem_cons_self ..), ih fun e' he' => h e' (List.mem_cons_of_mem _ he')⟩

theorem run_append (s : σ) (es es' : List ε) :
    run step s (es ++ es') = run step (run step s es) es' := List.foldl_append

/-- A guarded run consists of guarded parts. -/
theorem guarded_append_iff {es' : List ε} :
    Guarded step guard s (es ++ es')
      ↔ Guarded step guard s es ∧ Guarded step guard (run step s es) es' := by
  induction es generalizing s with
  | nil => exact ⟨fun h => ⟨trivial, h⟩, And.right⟩
  | cons e es ih => simp only [List.cons_append, Guarded, ih, and_assoc, run, List.foldl_cons]

/-- A run that meets two guards meets both at every step. -/
theorem Guarded.and (h : Guarded step guard s es) (h' : Guarded step guard' s es) :
    Guarded step (fun s e => guard s e ∧ guard' s e) s es := by
  induction es generalizing s with
  | nil => trivial
  | cons e es ih => exact ⟨⟨h.1, h'.1⟩, ih h.2 h'.2⟩

/-- **Exact guards.**  If, from every state that meets the invariant, the guard says which steps keep
what is wanted, then it is kept all along a run exactly when every step meets the guard. -/
theorem forall_prefix_iff_guarded {good : σ → Prop}
    (hgood : ∀ s, inv s → good s) (hinv : ∀ s e, inv s → guard s e → inv (step s e))
    (hguard : ∀ s e, inv s → good (step s e) → guard s e) (hs : inv s) (es : List ε) :
    (∀ es', es' <+: es → good (run step s es')) ↔ Guarded step guard s es := by
  constructor
  · intro h
    induction es generalizing s with
    | nil => trivial
    | cons e es ih =>
      have hhead : guard s e := hguard s e hs (h [e] (by simp))
      refine ⟨hhead, ih (hinv s e hs hhead) ?_⟩
      intro es' hes'
      exact h (e :: es') (List.cons_prefix_cons.mpr ⟨rfl, hes'⟩)
  · intro h es' hes'
    obtain ⟨rest, rfl⟩ := hes'
    have hprefix := (guarded_append_iff.mp h).1
    exact hgood _ (invariant_run hinv hs hprefix)

end Runs
