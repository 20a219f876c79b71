import Mathlib.Data.List.Perm.Basic

/-!
# Two runs that end alike

A computation returns a value or an error, or it does not return.  Two of them are `Alike` up to a relation
when neither returns, when both return the same error, or when both return values that are related.
Being alike goes through sequencing (`Alike.bind`), so that two runs of one program are compared step by step.
Going through a list in two orders ends alike up to the order of the results (`alike_mapM_of_perm`).
-/

set_option autoImplicit false

namespace AlikeRuns

variable {ε α β α' β' : Type}

/-- `none` is a computation that does not return. -/
abbrev Computation (ε α : Type) := ExceptT ε Option α

inductive Alike (R : α → β → Prop) : Computation ε α → Computation ε β → Prop
  | diverge : Alike R (none : Option (Except ε α)) (none : Option (Except ε β))
  | error (e : ε) : Alike R (some (.error e) : Option (Except ε α)) (some (.error e) : Option (Except ε β))
  | ok {a : α} {b : β} (h : R a b) :
      Alike R (some (.ok a) : Option (Except ε α)) (some (.ok b) : Option (Except ε β))

/-- The error with more said about it. -/
def wrap (f : ε → ε) (x : Computation ε α) : Computation ε α :=
  Option.map (Except.mapError f) x

/-- A sequence returns `b` when its first part returns some `a` and the rest, from `a`, `b`. -/
theorem bind_eq_ok {x : Computation ε α} {f : α → Computation ε β} {b : β} :
    x >>= f = some (.ok b) ↔ ∃ a, x = some (.ok a) ∧ f a = some (.ok b) := by
  constructor
  · intro h
    cases x with
    | none => cases h
    | some r =>
      cases r with
      | error e => cases h
      | ok a => exact ⟨a, rfl, h⟩
  · rintro ⟨a, rfl, h⟩
    exact h

namespace Alike

variable {R : α → β → Prop} {R' : α' → β' → Prop} {x : Computation ε α} {y : Computation ε β}
  {f : α → Computation ε α'}

theorem refl {S : α → α → Prop} (hS : ∀ a, S a a) (x : Computation ε α) : Alike S x x := by
  cases x with
  | none => exact .diverge
  | some r =>
    cases r with
    | error e => exact .error e
    | ok a => exact .ok (hS a)

theorem bind (h : Alike R x y) {g : β → Computation ε β'}
    (hfg : ∀ a b, R a b → Alike R' (f a) (g b)) : Alike R' (x >>= f) (y >>= g) := by
  cases h with
  | diverge => exact .diverge
  | error e => exact .error e
  | ok hab => exact hfg _ _ hab

/-- The same first step. -/
theorem bind_same {g : α → Computation ε β'} (x : Computation ε α) (hfg : ∀ a, Alike R' (f a) (g a)) :
    Alike R' (x >>= f) (x >>= g) :=
  (refl (fun _ => rfl) x).bind fun a b (hab : a = b) => hab ▸ hfg a

theorem wrap (h : Alike R x y) (f : ε → ε) : Alike R (wrap f x) (AlikeRuns.wrap f y) := by
  cases h with
  | diverge => exact .diverge
  | error e => exact .error (f e)
  | ok hab => exact .ok hab

end Alike

theorem mapM_of_perm (f : α → Option β) {l l' : List α} (h : l.Perm l') :
    (l.mapM f = none ∧ l'.mapM f = none) ∨
      ∃ r r', l.mapM f = some r ∧ l'.mapM f = some r' ∧ r'.Perm r := by
  induction h with
  | nil => exact .inr ⟨[], [], rfl, rfl, .refl _⟩
  | cons a _ ih =>
    simp only [List.mapM_cons]
    cases f a with
    | none => exact .inl ⟨rfl, rfl⟩
    | some b =>
      rcases ih with ⟨hnone, hnone'⟩ | ⟨r, r', hr, hr', hperm⟩
      · rw [hnone, hnone']
        exact .inl ⟨rfl, rfl⟩
      · rw [hr, hr']
        exact .inr ⟨b :: r, b :: r', rfl, rfl, hperm.cons b⟩
  | swap a a' l =>
    simp only [List.mapM_cons]
    cases f a with
    | none =>
      cases f a' with
      | none | some b' => exact .inl ⟨rfl, rfl⟩
    | some b =>
      cases f a' with
      | none => exact .inl ⟨rfl, rfl⟩
      | some b' =>
        cases l.mapM f with
        | none => exact .inl ⟨rfl, rfl⟩
        | some r => exact .inr ⟨b' :: b :: r, b :: b' :: r, rfl, rfl, .swap b' b r⟩
  | trans _ _ ih ih' =>
    rcases ih with ⟨hnone, hnone'⟩ | ⟨r, r', hr, hr', hperm⟩
    · rcases ih' with ⟨-, hnone''⟩ | ⟨r₂, -, hr₂, -⟩
      · exact .inl ⟨hnone, hnone''⟩
      · cases hnone'.symm.trans hr₂
    · rcases ih' with ⟨hnone, -⟩ | ⟨r₂, r₂', hr₂, hr₂', hperm'⟩
      · cases hnone.symm.trans hr'
      · obtain rfl : r' = r₂ := Option.some.inj (hr'.symm.trans hr₂)
        exact .inr ⟨r, r₂', hr, hr₂', hperm'.trans hperm⟩

/-- What returns a value when it returns. -/
def total (x : Option α) : Computation ε α := (x.map .ok : Option (Except ε α))

theorem alike_mapM_of_perm (f : α → Option β) {l l' : List α} (h : l.Perm l') :
    Alike (fun r r' => r'.Perm r) (total (l.mapM f) : Computation ε (List β)) (total (l'.mapM f)) := by
  rcases mapM_of_perm f h with ⟨hnone, hnone'⟩ | ⟨r, r', hr, hr', hperm⟩
  · rw [hnone, hnone']
    exact .diverge
  · rw [hr, hr']
    exact .ok hperm

end AlikeRuns
