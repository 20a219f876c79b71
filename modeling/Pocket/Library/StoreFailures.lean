import Pocket.Library.StorePlans

/-!
# What a failing program leaves behind

A program whose calls may fail returns an error with whatever it had written by then.  For a program
that makes a known number of queries and then only writes (`ChecksFirst`), and returns at the first
call that fails, the position of the failing call tells: an error that is not due to a write after
the first one leaves the state alone (`ChecksFirst.eq_of_error`).
-/

set_option autoImplicit false

namespace StoreProgram

open Prog

variable {Q : Type} {A : Q → Type} {W ε E E' S α β : Type} {n n' w : ℕ}

namespace Prog

/-- A failing call makes the program return an error at once. -/
def GivesUp {δ : Type} (k : Except ε δ → Prog Q A W ε (Except E α)) : Prop :=
  ∀ e, ∃ e', k (.error e) = ret (.error e')

/-- Only queries, and as many as given unless an error comes before. -/
def Asks : Prog Q A W ε (Except E α) → ℕ → Prop
  | ret r, n => n = 0 ∨ ∃ e, r = .error e
  | halt, _ => True
  | query _ k, n => ∃ n', n = n' + 1 ∧ GivesUp k ∧ ∀ a, (k (.ok a)).Asks n'
  | update _ _, _ => False

/-- Only updates, at most as many as given. -/
def Writes : Prog Q A W ε (Except E α) → ℕ → Prop
  | ret r, _ => ∃ a, r = .ok a
  | halt, _ => True
  | query _ _, _ => False
  | update _ k, w => ∃ w', w = w' + 1 ∧ GivesUp k ∧ (k (.ok ())).Writes w'

/-- So many queries, then an update, and then at most so many updates. -/
def ChecksFirst : Prog Q A W ε (Except E α) → ℕ → ℕ → Prop
  | ret _, _, _ => True
  | halt, _, _ => True
  | query _ k, n, w => ∃ n', n = n' + 1 ∧ GivesUp k ∧ ∀ a, (k (.ok a)).ChecksFirst n' w
  | update _ k, n, w => n = 0 ∧ GivesUp k ∧ (k (.ok ())).Writes w

variable {st : Store Q A W ε S} {view : S → S} {s' s : S} {e : E} {p : Prog Q A W ε (Except E α)}
  {fails : ℕ → Option ε}

/-- Updates that do not fail return no error. -/
theorem Writes.ne_error (hp : p.Writes w) (hfails : ∀ i < w, fails i = none) :
    p.exec st view fails s ≠ some (.error e, s') := by
  induction p generalizing w fails s with
  | ret r =>
    obtain ⟨a, rfl⟩ := hp
    exact nofun
  | halt => exact nofun
  | query q k ih => exact hp.elim
  | update u k ih =>
    obtain ⟨w', rfl, -, hk⟩ := hp
    rw [exec, hfails 0 (by omega)]
    exact ih _ hk fun i hi => hfails (i + 1) (by omega)

/-- **The position of the failing call.**  If no update after the first one fails, an error comes
with the state that the program began with. -/
theorem ChecksFirst.eq_of_error (hp : p.ChecksFirst n w)
    (hfails : ∀ i, n < i → i ≤ n + w → fails i = none)
    (h : p.exec st view fails s = some (.error e, s')) : s' = s := by
  induction p generalizing n fails with
  | ret r =>
    cases h
    rfl
  | halt => cases h
  | query q k ih =>
    obtain ⟨n', rfl, hgive, hk⟩ := hp
    rw [exec] at h
    -- an error of the call is returned at once; otherwise the rest begins one call later
    have hrest : ∀ r : Except ε (A q), (k r).exec st view (fun i => fails (i + 1)) s
        = some (.error e, s') → s' = s := by
      intro r hr
      cases r with
      | error err =>
        obtain ⟨e', he'⟩ := hgive err
        rw [he'] at hr
        cases hr
        rfl
      | ok a => exact ih _ (hk a) (fun i hi hi' => hfails (i + 1) (by omega) (by omega)) hr
    cases hfail : fails 0 with
    | some err | none =>
      rw [hfail] at h
      exact hrest _ h
  | update u k ih =>
    obtain ⟨rfl, hgive, hk⟩ := hp
    rw [exec] at h
    cases hfail : fails 0 with
    | some err =>
      obtain ⟨e', he'⟩ := hgive err
      simp only [hfail, he'] at h
      cases h
      rfl
    | none =>
      rw [hfail] at h
      exact absurd h (hk.ne_error fun i hi => hfails (i + 1) (by omega) (by omega))

theorem Writes.exists_update (hp : p.Writes w) : ∀ c ∈ p.calls st s, ∃ u, c = .inr u := by
  induction p generalizing w with
  | ret r | halt => exact fun c hc => nomatch hc
  | query q k ih => exact hp.elim
  | update u k ih =>
    obtain ⟨w', rfl, -, hk⟩ := hp
    exact List.forall_mem_cons.2 ⟨⟨u, rfl⟩, ih _ hk⟩

/-- No query comes after an update. -/
theorem ChecksFirst.pairwise_calls (hp : p.ChecksFirst n w) :
    (p.calls st s).Pairwise (Undisturbed st s) := by
  induction p generalizing n with
  | ret r | halt => exact .nil
  | query q k ih =>
    obtain ⟨n', rfl, hgive, hk⟩ := hp
    refine List.pairwise_cons.2 ⟨fun c _ => trivial, ?_⟩
    cases st.answer s q with
    | error e =>
      obtain ⟨e', he'⟩ := hgive e
      rw [he']
      exact .nil
    | ok a => exact ih _ (hk a)
  | update u k ih =>
    obtain ⟨-, -, hk⟩ := hp
    have hall : ∀ c ∈ (update u k).calls st s, ∃ u', c = .inr u' :=
      List.forall_mem_cons.2 ⟨⟨u, rfl⟩, hk.exists_update⟩
    refine List.pairwise_of_forall_mem_list fun c _ c' hc' => ?_
    obtain ⟨u', rfl⟩ := hall c' hc'
    cases c <;> trivial

end Prog

/-! ## Building such programs -/

variable {p : Fallible Q A W ε E α} {f : α → Fallible Q A W ε E β}

theorem asks_returned (r : Except E α) : (returned r : Fallible Q A W ε E α).run.Asks 0 := .inl rfl

theorem asks_pure (a : α) : (pure a : Fallible Q A W ε E α).run.Asks 0 := .inl rfl

theorem asks_throw (e : E) : (throw e : Fallible Q A W ε E α).run.Asks n := .inr ⟨e, rfl⟩

theorem asks_ask (q : Q) : (ask q : Fallible Q A W ε ε (A q)).run.Asks 1 :=
  ⟨0, rfl, fun e => ⟨e, rfl⟩, fun _ => .inl rfl⟩

theorem asks_throwIf (c : Prop) [Decidable c] (e : E) :
    (throwIf c e : Fallible Q A W ε E Unit).run.Asks 0 := by
  unfold throwIf
  split
  · exact asks_throw e
  · exact asks_pure ()

theorem asks_wrap (f : E → E') (hp : p.run.Asks n) : (wrap f p).run.Asks n := by
  change Prog.Asks (Prog.bind p _) n
  change Prog.Asks p n at hp
  induction p using Prog.rec generalizing n with
  | ret r =>
    rcases hp with rfl | ⟨e, rfl⟩
    · exact .inl rfl
    · exact .inr ⟨f e, rfl⟩
  | halt => trivial
  | query q k ih =>
    obtain ⟨n', rfl, hgive, hk⟩ := hp
    exact ⟨n', rfl, gives_up_bind (fun e => ⟨f e, rfl⟩) hgive, fun a => ih _ (hk a)⟩
  | update u k ih => exact hp.elim

theorem asks_bind (hp : p.run.Asks n) (hf : ∀ a, (f a).run.Asks 0) : (p >>= f).run.Asks n := by
  change Prog.Asks (Prog.bind p (ExceptT.bindCont f)) n
  change Prog.Asks p n at hp
  induction p using Prog.rec generalizing n with
  | ret r =>
    cases r with
    | ok a =>
      rcases hp with rfl | ⟨e, he⟩
      · exact hf a
      · cases he
    | error e => exact .inr ⟨e, rfl⟩
  | halt => trivial
  | query q k ih =>
    obtain ⟨m, rfl, hgive, hk⟩ := hp
    exact ⟨m, rfl, gives_up_bind (fun e => ⟨e, rfl⟩) hgive, fun a => ih _ (hk a)⟩
  | update u k ih => exact hp.elim

theorem writes_pure (a : α) : (pure a : Fallible Q A W ε E α).run.Writes w := ⟨a, rfl⟩

theorem writes_perform (u : W) : (perform u : Fallible Q A W ε ε Unit).run.Writes (w + 1) :=
  ⟨w, rfl, fun e => ⟨e, rfl⟩, (), rfl⟩

theorem writes_wrap (f : E → E') (hp : p.run.Writes w) : (wrap f p).run.Writes w := by
  change Prog.Writes (Prog.bind p _) w
  change Prog.Writes p w at hp
  induction p using Prog.rec generalizing w with
  | ret r =>
    obtain ⟨a, rfl⟩ := hp
    exact ⟨a, rfl⟩
  | halt => trivial
  | query q k ih => exact hp.elim
  | update u k ih =>
    obtain ⟨w', rfl, hgive, hk⟩ := hp
    exact ⟨w', rfl, gives_up_bind (fun e => ⟨f e, rfl⟩) hgive, ih _ hk⟩

theorem Prog.Writes.mono {p : Prog Q A W ε (Except E α)} (hp : p.Writes w) (h : w ≤ n) :
    p.Writes n := by
  induction p generalizing w n with
  | ret r => exact hp
  | halt => trivial
  | query q k ih => exact hp.elim
  | update u k ih =>
    obtain ⟨w', rfl, hgive, hk⟩ := hp
    exact ⟨n - 1, by omega, hgive, ih _ hk (by omega)⟩

theorem writes_bind (hp : p.run.Writes w) (hf : ∀ a, (f a).run.Writes n) :
    (p >>= f).run.Writes (w + n) := by
  change Prog.Writes (Prog.bind p (ExceptT.bindCont f)) (w + n)
  change Prog.Writes p w at hp
  induction p using Prog.rec generalizing w with
  | ret r =>
    obtain ⟨a, rfl⟩ := hp
    exact (hf a).mono (by omega)
  | halt => trivial
  | query q k ih => exact hp.elim
  | update u k ih =>
    obtain ⟨w', rfl, hgive, hk⟩ := hp
    exact ⟨w' + n, by omega, gives_up_bind (fun e => ⟨e, rfl⟩) hgive, ih _ hk⟩

theorem checksFirst_of_writes (hp : p.run.Writes (w + 1)) : p.run.ChecksFirst 0 w := by
  change Prog.ChecksFirst p 0 w
  change Prog.Writes p (w + 1) at hp
  cases p using Prog.casesOn with
  | ret r | halt => trivial
  | query q k => exact hp.elim
  | update u k =>
    obtain ⟨w', hw, hgive, hk⟩ := hp
    obtain rfl : w' = w := by omega
    exact ⟨rfl, hgive, hk⟩

theorem checksFirst_pure_bind {a : α} (hf : (f a).run.ChecksFirst n w) :
    (pure a >>= f).run.ChecksFirst n w := hf

theorem checksFirst_bind (hp : p.run.Asks n) (hf : ∀ a, (f a).run.ChecksFirst n' w) :
    (p >>= f).run.ChecksFirst (n' + n) w := by
  change Prog.ChecksFirst (Prog.bind p (ExceptT.bindCont f)) (n' + n) w
  change Prog.Asks p n at hp
  induction p using Prog.rec generalizing n with
  | ret r =>
    cases r with
    | ok a =>
      rcases hp with rfl | ⟨e, he⟩
      · exact hf a
      · cases he
    | error e => trivial
  | halt => trivial
  | query q k ih =>
    obtain ⟨m, rfl, hgive, hk⟩ := hp
    exact ⟨n' + m, rfl, gives_up_bind (fun e => ⟨e, rfl⟩) hgive, fun a => ih _ (hk a)⟩
  | update u k ih => exact hp.elim

/-- What comes after the updates is returned without a call. -/
theorem checksFirst_bind_pure {g : α → β} (hp : p.run.ChecksFirst n w) :
    (p >>= fun a => (pure (g a) : Fallible Q A W ε E β)).run.ChecksFirst n w := by
  change Prog.ChecksFirst (Prog.bind p (ExceptT.bindCont _)) n w
  change Prog.ChecksFirst p n w at hp
  induction p using Prog.rec generalizing n with
  | ret r => cases r <;> trivial
  | halt => trivial
  | query q k ih =>
    obtain ⟨m, rfl, hgive, hk⟩ := hp
    exact ⟨m, rfl, gives_up_bind (fun e => ⟨e, rfl⟩) hgive, fun a => ih _ (hk a)⟩
  | update u k ih =>
    obtain ⟨rfl, hgive, hk⟩ := hp
    exact ⟨rfl, gives_up_bind (fun e => ⟨e, rfl⟩) hgive,
      (writes_bind (p := k (.ok ())) hk fun a => writes_pure (w := 0) (g a))⟩

end StoreProgram
