import Mathlib.Data.Nat.Notation

/-!
# Programs on one state

A program is a sequence of atomic actions on a shared state; what it does next may depend on what the
last action found.  `runThreads` runs any number of programs under a schedule, one action at a time.
What every action of every program keeps, holds after every schedule (`runThreads_keeps`).
-/

set_option autoImplicit false

namespace Interleaving

variable {S O : Type}

/-- A program: an action gives the next state, or `none` if it ends the process, and what it puts
out; the program goes on with what the action found. -/
inductive Prog (S O : Type) where
  | done
  | atomic (act : S → Option S × List O) (next : S → Prog S O)

namespace Prog

/-- Read something and go on with it. -/
def read {α : Type} (get : S → α) (next : α → Prog S O) : Prog S O :=
  .atomic (fun s => (some s, [])) fun s => next (get s)

/-- Write something and go on. -/
def write (set : S → S) (next : Prog S O) : Prog S O :=
  .atomic (fun s => (some (set s), [])) fun _ => next

/-- Put something out and go on. -/
def emit (out : List O) (next : Prog S O) : Prog S O :=
  .atomic (fun s => (some s, out)) fun _ => next

/-- End the process. -/
def crash : Prog S O := .atomic (fun _ => (none, [])) fun _ => .done

/-- The state a program leaves when it runs alone, and its output. -/
def run : Prog S O → S → Option S × List O
  | .done, s => (some s, [])
  | .atomic act next, s =>
    match act s with
    | (none, out) => (none, out)
    | (some s', out) => ((run (next s) s').1, out ++ (run (next s) s').2)

@[simp] theorem run_done (s : S) : (done : Prog S O).run s = (some s, []) := rfl

variable {α : Type} {I : S → Prop} {get : S → α} {s : S} {next : Prog S O} {set : S → S}

@[simp] theorem run_read (get : S → α) (next : α → Prog S O) (s : S) :
    (read get next).run s = (next (get s)).run s := by
  simp [read, run]

@[simp] theorem run_write (set : S → S) (next : Prog S O) (s : S) :
    (write set next).run s = next.run (set s) := by
  simp [write, run]

@[simp] theorem run_emit (out : List O) (next : Prog S O) (s : S) :
    (emit out next).run s = ((next.run s).1, out ++ (next.run s).2) := by
  simp [emit, run]

@[simp] theorem run_last (act : S → Option S × List O) (s : S) :
    (atomic act fun _ => done).run s = act s := by
  cases hact : act s with
  | mk state out => cases state <;> simp [run, hact]

@[simp] theorem run_crash (s : S) : (crash : Prog S O).run s = (none, []) := rfl

/-! ## Any number of programs -/

/-- Programs under a schedule that says whose turn it is; `none` is a process that ended.  The turn of a
program that is finished changes nothing. -/
def runThreads : List Nat → List (Prog S O) → S → Option S
  | [], _, s => some s
  | i :: schedule, threads, s =>
    match threads[i]? with
    | some (.atomic act next) =>
      match (act s).1 with
      | some s' => runThreads schedule (threads.set i (next s)) s'
      | none => none
    | _ => runThreads schedule threads s

/-- Every action of the program keeps `I`, where it goes on with what it found in a state of `I`. -/
inductive Keeps (I : S → Prop) : Prog S O → Prop
  | done : Keeps I .done
  | atomic {act : S → Option S × List O} {next : S → Prog S O}
      (hact : ∀ s s', I s → (act s).1 = some s' → I s') (hnext : ∀ s, I s → Keeps I (next s)) :
      Keeps I (.atomic act next)

theorem keeps_read {next : α → Prog S O}
    (h : ∀ s, I s → Keeps I (next (get s))) : Keeps I (read get next) := by
  refine .atomic ?_ h
  rintro s s' hs ⟨⟩
  exact hs

theorem keeps_write (hset : ∀ s, I s → I (set s)) (h : Keeps I next) :
    Keeps I (write set next) := by
  refine .atomic ?_ fun _ _ => h
  rintro s s' hs ⟨⟩
  exact hset s hs

theorem keeps_emit {out : List O} (h : Keeps I next) : Keeps I (emit out next) := by
  refine .atomic ?_ fun _ _ => h
  rintro s s' hs ⟨⟩
  exact hs

theorem keeps_crash : Keeps I (crash : Prog S O) := by
  refine .atomic ?_ fun _ _ => .done
  rintro s s' - ⟨⟩

/-- **Invariants of concurrent programs**: what all of their actions keep holds under any schedule. -/
theorem runThreads_keeps {schedule : List Nat} {threads : List (Prog S O)} {s' : S}
    (hthreads : ∀ p ∈ threads, Keeps I p) (hs : I s) (hrun : runThreads schedule threads s = some s') :
    I s' := by
  induction schedule generalizing threads s with
  | nil =>
    cases hrun
    exact hs
  | cons i schedule ih =>
    rw [runThreads] at hrun
    cases hthread : threads[i]? with
    | none =>
      rw [hthread] at hrun
      exact ih hthreads hs hrun
    | some p =>
      rw [hthread] at hrun
      have hp := hthreads p (List.mem_of_getElem? hthread)
      cases hp with
      | done => exact ih hthreads hs hrun
      | @atomic act next hact hnext =>
        simp only at hrun
        cases hstate : (act s).1 with
        | none =>
          rw [hstate] at hrun
          cases hrun
        | some s₁ =>
          rw [hstate] at hrun
          refine ih ?_ (hact s s₁ hs hstate) hrun
          intro q hq
          rcases List.mem_or_eq_of_mem_set hq with hq | rfl
          · exact hthreads q hq
          · exact hnext s hs

end Prog

end Interleaving
