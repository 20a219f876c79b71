import Mathlib.Control.Lawful
import Mathlib.Data.Nat.Notation

/-!
# Programs that read and write a store, and calls that fail

A `Prog` asks queries of a store, performs updates on it and returns a value, or ends the
process.  Every call may fail, and the program sees the failure.  The program itself does
not say which state the store is in when it answers, so that one program can be run in two
ways:

* on one context, where a query sees the updates performed before it (`view = id`);
* on two contexts, where updates go to one state and queries are answered from another
  (`view = fun _ => s₀`).

`wp F` is the weakest precondition against every pattern of failing calls whose errors lie
in `F` (`wp_iff_exec`): with `F` empty no call fails, with `F` everything any call may.
`Checks` names the programs that only query and give up on the first failing call; a proof
crosses them with `wp_bind_check` and an update with `wp_bind_perform`.

`Meets Λ ends` says what a program can do at all, whatever the store answers, and its simp lemmas
follow the program from call to call.  `Every Λ` limits the updates; those a run does perform
(`performed`) are among them.  `Returns` says that a program does not end the process.
-/

set_option autoImplicit false

namespace StoreProgram

inductive Prog (Q : Type) (A : Q → Type) (W ε α : Type) : Type
  | ret (a : α)
  | halt
  | query (q : Q) (k : Except ε (A q) → Prog Q A W ε α)
  | update (w : W) (k : Except ε Unit → Prog Q A W ε α)

structure Store (Q : Type) (A : Q → Type) (W ε S : Type) where
  answer : S → (q : Q) → Except ε (A q)
  apply : S → W → S

variable {Q : Type} {A : Q → Type} {W ε E E' S α β : Type} {w : W} {inv : S → Prop} {r : Except E α}
  {st : Store Q A W ε S} {a : α} {s s' : S} {F : ε → Prop} {Λ : W → Prop} {ends : Prop}

namespace Prog

def bind : Prog Q A W ε α → (α → Prog Q A W ε β) → Prog Q A W ε β
  | ret a, f => f a
  | halt, _ => halt
  | query q k, f => query q fun r => (k r).bind f
  | update w k, f => update w fun r => (k r).bind f

instance : Monad (Prog Q A W ε) where
  pure := ret
  bind := bind

/-! ## Running a program -/

/-- `fails i` is the error of the `i`-th call from here on, if it fails; a failed call
changes nothing.  `none` is a process that ended. -/
def exec (st : Store Q A W ε S) (view : S → S) :
    Prog Q A W ε α → (ℕ → Option ε) → S → Option (α × S)
  | ret a, _, s => some (a, s)
  | halt, _, _ => none
  | query q k, fails, s =>
    match fails 0 with
    | some e => (k (.error e)).exec st view (fun i => fails (i + 1)) s
    | none => (k (st.answer (view s) q)).exec st view (fun i => fails (i + 1)) s
  | update w k, fails, s =>
    match fails 0 with
    | some e => (k (.error e)).exec st view (fun i => fails (i + 1)) s
    | none => (k (.ok ())).exec st view (fun i => fails (i + 1)) (st.apply s w)

variable {p : Prog Q A W ε α} {fails : ℕ → Option ε} {f : α → Prog Q A W ε β}
  {post post' : α → Prop} {view : S → S}

/-! ## Weakest preconditions -/

def wp (st : Store Q A W ε S) (F : ε → Prop) : Prog Q A W ε α → (α → S → Prop) → S → Prop
  | ret a, post, s => post a s
  | halt, _, _ => True
  | query q k, post, s =>
    (∀ e, F e → (k (.error e)).wp st F post s) ∧ (k (st.answer s q)).wp st F post s
  | update w k, post, s =>
    (∀ e, F e → (k (.error e)).wp st F post s) ∧ (k (.ok ())).wp st F post (st.apply s w)

/-- A failure pattern that allows only the errors of `F`. -/
def Within (F : ε → Prop) (fails : ℕ → Option ε) : Prop := ∀ i e, fails i = some e → F e

theorem Within.tail (h : Within F fails) : Within F fun i => fails (i + 1) :=
  fun i => h (i + 1)

/-- `first` put before a pattern. -/
def onward (first : Option ε) (fails : ℕ → Option ε) : ℕ → Option ε
  | 0 => first
  | i + 1 => fails i

theorem Within.onward {first : Option ε}
    (hfirst : ∀ e, first = some e → F e) (h : Within F fails) : Within F (onward first fails) := by
  intro i e he
  cases i with
  | zero => exact hfirst e he
  | succ i => exact h i e he

theorem wp_exec {post : α → S → Prop} (h : p.wp st F post s) (hfails : Within F fails)
    (hexec : p.exec st id fails s = some (a, s')) : post a s' := by
  induction p generalizing fails s with
  | ret b =>
    cases hexec
    exact h
  | halt => cases hexec
  | query q k ih | update w k ih =>
    rw [exec] at hexec
    split at hexec
    · next e hfail => exact ih _ (h.1 e (hfails 0 e hfail)) hfails.tail hexec
    · exact ih _ h.2 hfails.tail hexec

/-- `wp F` is exactly correctness on one context against every failure pattern within `F`. -/
theorem wp_iff_exec {post : α → S → Prop} :
    p.wp st F post s ↔
      ∀ fails, Within F fails → ∀ a s', p.exec st id fails s = some (a, s') → post a s' := by
  refine ⟨fun h fails hfails a s' hexec => wp_exec h hfails hexec, fun h => ?_⟩
  induction p generalizing s with
  | ret a => exact h (fun _ => none) nofun a s rfl
  | halt => trivial
  | query q k ih | update w k ih =>
    constructor
    · intro e he
      refine ih _ fun fails hfails a s' hexec => h (onward (some e) fails) ?_ a s' hexec
      exact hfails.onward fun e' heq => Option.some.inj heq ▸ he
    · refine ih _ fun fails hfails a s' hexec => h (onward none fails) ?_ a s' hexec
      exact hfails.onward fun e' heq => by cases heq

/-- With no error allowed there is one run. -/
theorem wp_iff_exec_none {post : α → S → Prop} :
    p.wp st (fun _ => False) post s ↔
      ∀ a s', p.exec st id (fun _ => none) s = some (a, s') → post a s' := by
  rw [wp_iff_exec]
  constructor
  · intro h
    exact h _ nofun
  · intro h fails hfails
    have hnone : fails = fun _ => none :=
      funext fun i => Option.eq_none_iff_forall_ne_some.2 fun e he => hfails i e he
    rw [hnone]
    exact h

theorem wp_mono {post post' : α → S → Prop} (h : p.wp st F post s)
    (hpost : ∀ a s', post a s' → post' a s') : p.wp st F post' s := by
  induction p generalizing s with
  | ret a => exact hpost a s h
  | halt => trivial
  | query q k ih | update w k ih => exact ⟨fun e he => ih _ (h.1 e he), ih _ h.2⟩

theorem wp_bind {post : β → S → Prop} :
    (p >>= f).wp st F post s ↔ p.wp st F (fun a s' => (f a).wp st F post s') s := by
  induction p generalizing s with
  | ret a | halt => exact Iff.rfl
  | query q k ih | update w k ih => exact and_congr (forall₂_congr fun e _ => ih _) (ih _)

/-! ## What a run performs -/

/-- The updates of a run in order, those that fail included. -/
def performed (st : Store Q A W ε S) (view : S → S) :
    Prog Q A W ε α → (ℕ → Option ε) → S → List W
  | ret _, _, _ => []
  | halt, _, _ => []
  | query q k, fails, s =>
    match fails 0 with
    | some e => (k (.error e)).performed st view (fun i => fails (i + 1)) s
    | none => (k (st.answer (view s) q)).performed st view (fun i => fails (i + 1)) s
  | update w k, fails, s =>
    match fails 0 with
    | some e => w :: (k (.error e)).performed st view (fun i => fails (i + 1)) s
    | none => w :: (k (.ok ())).performed st view (fun i => fails (i + 1)) (st.apply s w)

/-- Whatever the calls answer, every update is one of `Λ`, the value returned satisfies `post`, and
the process ends only if `ends`. -/
def Meets (Λ : W → Prop) (ends : Prop) : Prog Q A W ε α → (α → Prop) → Prop
  | ret a, post => post a
  | halt, _ => ends
  | query _ k, post => ∀ r, (k r).Meets Λ ends post
  | update w k, post => Λ w ∧ ∀ r, (k r).Meets Λ ends post

/-- The process may end. -/
abbrev Every (Λ : W → Prop) (p : Prog Q A W ε α) (post : α → Prop) : Prop := p.Meets Λ True post

/-- The process does not end, and any update will do. -/
abbrev Returns (p : Prog Q A W ε α) (post : α → Prop) : Prop := p.Meets (fun _ => True) False post

theorem of_mem_performed (hp : p.Every Λ post) (hw : w ∈ p.performed st view fails s) : Λ w := by
  induction p generalizing fails s with
  | ret a | halt => cases hw
  | query q k ih =>
    rw [performed] at hw
    split at hw
    · exact ih _ (hp _) hw
    · exact ih _ (hp _) hw
  | update w' k ih =>
    rw [performed] at hw
    split at hw
    all_goals
      rcases List.mem_cons.1 hw with rfl | hrest
      · exact hp.1
      · exact ih _ (hp.2 _) hrest

/-- The value is one that the program can return, and an invariant that each of the possible updates
keeps is kept. -/
theorem every_exec (hp : p.Every Λ post) (hinv : ∀ w s, Λ w → inv s → inv (st.apply s w))
    (hs : inv s) (hexec : p.exec st view fails s = some (a, s')) : post a ∧ inv s' := by
  induction p generalizing fails s with
  | ret b =>
    cases hexec
    exact ⟨hp, hs⟩
  | halt => cases hexec
  | query q k ih =>
    rw [exec] at hexec
    split at hexec
    · exact ih _ (hp _) hs hexec
    · exact ih _ (hp _) hs hexec
  | update w k ih =>
    rw [exec] at hexec
    split at hexec
    · exact ih _ (hp.2 _) hs hexec
    · exact ih _ (hp.2 _) (hinv w s hp.1 hs) hexec

theorem of_exec (hp : p.Every Λ post) (hexec : p.exec st view fails s = some (a, s')) : post a :=
  (every_exec hp (fun _ _ _ (_ : True) => trivial) trivial hexec).1

@[simp]
theorem meets_pure {a : α} : (pure a : Prog Q A W ε α).Meets Λ ends post ↔ post a :=
  Iff.rfl

@[simp]
theorem meets_bind {post : β → Prop} :
    (p >>= f).Meets Λ ends post ↔ p.Meets Λ ends fun a => (f a).Meets Λ ends post := by
  induction p with
  | ret a | halt => exact Iff.rfl
  | query q k ih => exact forall_congr' fun r => ih r
  | update w k ih => exact and_congr_right fun _ => forall_congr' fun r => ih r

theorem every_trivial (p : Prog Q A W ε α) : p.Every (fun _ => True) fun _ => True := by
  induction p with
  | ret a | halt => trivial
  | query q k ih => exact ih
  | update w k ih => exact ⟨trivial, ih⟩

/-- Two stores that answer alike, and on which the possible updates do the same, run the program
alike. -/
theorem exec_congr {st' : Store Q A W ε S} (hp : p.Every Λ post) (hanswer : st'.answer = st.answer)
    (happly : ∀ w s, Λ w → st'.apply s w = st.apply s w) (view : S → S) (fails : ℕ → Option ε)
    (s : S) : p.exec st' view fails s = p.exec st view fails s := by
  induction p generalizing fails s with
  | ret a | halt => rfl
  | query q k ih =>
    rw [exec, exec]
    cases fails 0 with
    | some e => exact ih _ (hp _) _ _
    | none =>
      rw [hanswer]
      exact ih _ (hp _) _ _
  | update w k ih =>
    rw [exec, exec]
    cases fails 0 with
    | some e => exact ih _ (hp.2 _) _ _
    | none =>
      rw [happly w s hp.1]
      exact ih _ (hp.2 _) _ _

theorem meets_mono (h : p.Meets Λ ends post) (hpost : ∀ a, post a → post' a) :
    p.Meets Λ ends post' := by
  induction p with
  | ret a => exact hpost a h
  | halt => exact h
  | query q k ih => exact fun r => ih r (h r)
  | update w k ih => exact ⟨h.1, fun r => ih r (h.2 r)⟩

theorem every_mono_updates {Λ' : W → Prop}
    (h : p.Every Λ post) (hΛ : ∀ w, Λ w → Λ' w) : p.Every Λ' post := by
  induction p with
  | ret a => exact h
  | halt => trivial
  | query q k ih => exact fun r => ih r (h r)
  | update w k ih => exact ⟨hΛ w h.1, fun r => ih r (h.2 r)⟩

theorem exec_ne_none_of_returns (hp : p.Returns post) (st : Store Q A W ε S) (view : S → S)
    (fails : ℕ → Option ε) (s : S) : p.exec st view fails s ≠ none := by
  induction p generalizing fails s with
  | ret a => exact nofun
  | halt => exact hp.elim
  | query q k ih =>
    rw [exec]
    split
    · exact ih _ (hp _) _ _
    · exact ih _ (hp _) _ _
  | update w k ih =>
    rw [exec]
    split
    · exact ih _ (hp.2 _) _ _
    · exact ih _ (hp.2 _) _ _

/-- Without failing calls a sequence runs one part after the other. -/
theorem exec_bind (st : Store Q A W ε S) (view : S → S) (p : Prog Q A W ε α)
    (f : α → Prog Q A W ε β) (s : S) :
    (p >>= f).exec st view (fun _ => none) s =
      (p.exec st view (fun _ => none) s).bind fun r => (f r.1).exec st view (fun _ => none) r.2 := by
  induction p generalizing s with
  | ret a | halt => rfl
  | query q k ih => exact ih _ s
  | update w k ih => exact ih _ (st.apply s w)

end Prog

/-! ## Programs that return an error -/

@[simp] theorem mapError_ok (f : E → E') (a : α) : (Except.ok a : Except E α).mapError f = .ok a := rfl

@[simp] theorem mapError_error (f : E → E') (e : E) :
    (Except.error e : Except E α).mapError f = .error (f e) := rfl

theorem mapError_eq_ok {f : E → E'} : r.mapError f = .ok a ↔ r = .ok a := by
  cases r with
  | error e | ok b => simp

variable {f : α → Except E β} {l : List α} {bs : List β} {c : Prop} {b : β}
  {post : Except E β → Prop} {p : Prog Q A W ε (Except E α)}

theorem except_bind_eq_ok : (r >>= f) = .ok b ↔ ∃ a, r = .ok a ∧ f a = .ok b := by
  cases r with
  | error e =>
    refine iff_of_false nofun ?_
    rintro ⟨a, h, -⟩
    cases h
  | ok a =>
    constructor
    · intro h
      exact ⟨a, rfl, h⟩
    · rintro ⟨a', h, hf⟩
      cases h
      exact hf

theorem mapM_cons_eq_ok :
    (a :: l).mapM f = .ok bs ↔ ∃ b rest, f a = .ok b ∧ l.mapM f = .ok rest ∧ bs = b :: rest := by
  rw [List.mapM_cons, except_bind_eq_ok]
  constructor
  · rintro ⟨b, hb, h⟩
    obtain ⟨rest, hrest, hpure⟩ := except_bind_eq_ok.1 h
    cases hpure
    exact ⟨b, rest, hb, hrest, rfl⟩
  · rintro ⟨b, rest, hb, hrest, rfl⟩
    exact ⟨b, hb, except_bind_eq_ok.2 ⟨rest, hrest, rfl⟩⟩

theorem exists_mapM_eq_ok (h : ∀ a ∈ l, ∃ b, f a = .ok b) : ∃ bs, l.mapM f = .ok bs := by
  induction l with
  | nil => exact ⟨[], rfl⟩
  | cons a l ih =>
    rw [List.forall_mem_cons] at h
    obtain ⟨b, hb⟩ := h.1
    obtain ⟨rest, hrest⟩ := ih h.2
    exact ⟨b :: rest, mapM_cons_eq_ok.2 ⟨b, rest, hb, hrest, rfl⟩⟩

theorem mem_of_mapM_eq_ok (h : l.mapM f = .ok bs) : b ∈ bs ↔ ∃ a ∈ l, f a = .ok b := by
  induction l generalizing bs with
  | nil =>
    cases h
    simp
  | cons a l ih =>
    obtain ⟨b₀, rest, hb₀, hrest, rfl⟩ := mapM_cons_eq_ok.1 h
    rw [List.mem_cons, ih hrest, eq_comm]
    simp [hb₀]

/-- What is kept of the results can be read off the list. -/
theorem map_eq_filterMap_of_mapM_eq_ok {γ : Type} {g : α → Option γ} {p : β → γ} (h : l.mapM f = .ok bs)
    (hg : ∀ a b, f a = .ok b → g a = some (p b)) : bs.map p = l.filterMap g := by
  induction l generalizing bs with
  | nil =>
    cases h
    rfl
  | cons a l ih =>
    obtain ⟨b, rest, hb, hrest, rfl⟩ := mapM_cons_eq_ok.1 h
    rw [List.map_cons, List.filterMap_cons, hg a b hb, ih hrest]

theorem mapM_eq_some_map {f : α → Option β} {g : α → β}
    (h : ∀ a ∈ l, f a = some (g a)) : l.mapM f = some (l.map g) := by
  induction l with
  | nil => rfl
  | cons a l ih =>
    rw [List.forall_mem_cons] at h
    rw [List.mapM_cons, h.1, ih h.2]
    rfl

/-- A function whose last result is an error. -/
abbrev Fallible (Q : Type) (A : Q → Type) (W ε E α : Type) := ExceptT E (Prog Q A W ε) α

def ask (q : Q) : Fallible Q A W ε ε (A q) := ExceptT.mk (.query q .ret)

def perform (w : W) : Fallible Q A W ε ε Unit := ExceptT.mk (.update w .ret)

/-- The process ends here: a nil dereference, or a logger's `Fatal`. -/
def crash : Fallible Q A W ε E α := ExceptT.mk .halt

/-- A result that needs no call. -/
def returned (r : Except E α) : Fallible Q A W ε E α := ExceptT.mk (.ret r)

/-- `if c { return e }`. -/
def throwIf (c : Prop) [Decidable c] (e : E) : Fallible Q A W ε E Unit :=
  if c then throw e else pure ()

/-- `if err != nil { return f(err) }` around a call. -/
def wrap (f : E → E') (p : Fallible Q A W ε E α) : Fallible Q A W ε E' α :=
  ExceptT.mk (p.run.bind fun r => .ret (r.mapError f))

/-- The call's error as a value, for a caller that goes on after it. -/
def attempt (p : Fallible Q A W ε E α) : Fallible Q A W ε E' (Except E α) :=
  ExceptT.mk (p.run.bind fun r => .ret (.ok r))

namespace Prog

/-- What a program that only queries returns in the state `s` when no call fails. -/
def peek (st : Store Q A W ε S) (s : S) : Prog Q A W ε α → Option α
  | ret a => some a
  | halt => none
  | query q k => (k (st.answer s q)).peek st s
  | update _ _ => none

@[simp] theorem peek_ret (a : α) : (pure a : Prog Q A W ε α).peek st s = some a := rfl

/-- The program only queries, and a failing call makes it return an error at once. -/
def Checks : Prog Q A W ε (Except E α) → Prop
  | ret _ => True
  | halt => True
  | query _ k => (∀ e, ∃ e', k (.error e) = ret (.error e')) ∧ ∀ a, (k (.ok a)).Checks
  | update _ _ => False

theorem wp_of_checks {post : Except E α → S → Prop} (hp : p.Checks) (herr : ∀ e, post (.error e) s) :
    p.wp st F post s ↔ ∀ a, p.peek st s = some (.ok a) → post (.ok a) s := by
  induction p with
  | ret r =>
    cases r with
    | error e => exact iff_of_true (herr e) fun a ha => by cases ha
    | ok a =>
      refine ⟨fun h b hb => ?_, fun h => h a rfl⟩
      cases hb
      exact h
  | halt => exact iff_of_true trivial fun a ha => by cases ha
  | query q k ih =>
    obtain ⟨hgive, hok⟩ := hp
    -- a failing call, or an error the store itself answers with, ends the program
    have hfailed : ∀ e, (k (.error e)).wp st F post s := by
      intro e
      obtain ⟨e', he'⟩ := hgive e
      rw [he']
      exact herr e'
    rw [wp, peek]
    cases hanswer : st.answer s q with
    | error e =>
      obtain ⟨e', he'⟩ := hgive e
      refine iff_of_true ⟨fun e _ => hfailed e, hfailed e⟩ fun a ha => ?_
      rw [he'] at ha
      cases ha
    | ok b => exact (and_iff_right fun e _ => hfailed e).trans (ih _ (hok b))
  | update w k ih => exact hp.elim

end Prog

open Prog

section Checks

theorem checks_returned (r : Except E α) : (returned r : Fallible Q A W ε E α).run.Checks := trivial

theorem checks_pure (a : α) : (pure a : Fallible Q A W ε E α).run.Checks := trivial

theorem checks_throw (e : E) : (throw e : Fallible Q A W ε E α).run.Checks := trivial

theorem checks_crash : (crash : Fallible Q A W ε E α).run.Checks := trivial

theorem checks_ask (q : Q) : (ask q : Fallible Q A W ε ε (A q)).run.Checks :=
  ⟨fun e => ⟨e, rfl⟩, fun _ => trivial⟩

/-- The error of a failing call is the error of the sequence. -/
theorem gives_up_bind {γ δ : Type} {k : Except ε δ → Prog Q A W ε (Except E α)}
    {g : Except E α → Prog Q A W ε (Except E' γ)} (hg : ∀ e, ∃ e', g (.error e) = ret (.error e'))
    (hk : ∀ e, ∃ e', k (.error e) = ret (.error e')) (e : ε) :
    ∃ e', (k (.error e)).bind g = ret (.error e') := by
  obtain ⟨e', he'⟩ := hk e
  rw [he']
  exact hg e'

variable {p : Fallible Q A W ε E α}

theorem checks_wrap (f : E → E') (hp : p.run.Checks) : (wrap f p).run.Checks := by
  change Prog.Checks (Prog.bind p _)
  change Prog.Checks p at hp
  induction p using Prog.rec with
  | ret r | halt => trivial
  | query q k ih =>
    exact ⟨gives_up_bind (fun e => ⟨f e, rfl⟩) hp.1, fun a => ih _ (hp.2 a)⟩
  | update w k ih => exact hp.elim

theorem checks_bind {f : α → Fallible Q A W ε E β} (hp : p.run.Checks) (hf : ∀ a, (f a).run.Checks) :
    (p >>= f).run.Checks := by
  change Prog.Checks (Prog.bind p (ExceptT.bindCont f))
  change Prog.Checks p at hp
  induction p using Prog.rec with
  | ret r =>
    cases r with
    | ok a => exact hf a
    | error e => trivial
  | halt => trivial
  | query q k ih =>
    exact ⟨gives_up_bind (fun e => ⟨e, rfl⟩) hp.1, fun a => ih _ (hp.2 a)⟩
  | update w k ih => exact hp.elim

theorem checks_ite [Decidable c] {p' : Fallible Q A W ε E α} (hp : p.run.Checks)
    (hp' : p'.run.Checks) : (if c then p else p').run.Checks := by
  split
  · exact hp
  · exact hp'

theorem checks_throwIf (c : Prop) [Decidable c] (e : E) :
    (throwIf c e : Fallible Q A W ε E Unit).run.Checks :=
  checks_ite (checks_throw e) (checks_pure ())

end Checks

section Peek

theorem peek_returned (r : Except E α) :
    (returned r : Fallible Q A W ε E α).run.peek st s = some r := rfl

theorem peek_pure (a : α) :
    (pure a : Fallible Q A W ε E α).run.peek st s = some (.ok a) := rfl

theorem peek_throw (e : E) :
    (throw e : Fallible Q A W ε E α).run.peek st s = some (.error e) := rfl

theorem peek_ask (q : Q) :
    (ask q : Fallible Q A W ε ε (A q)).run.peek st s = some (st.answer s q) := rfl

theorem peek_throwIf_eq_ok [Decidable c] {e : E} {u : Unit} :
    (throwIf c e : Fallible Q A W ε E Unit).run.peek st s = some (.ok u) ↔ ¬ c := by
  by_cases hc : c
  · rw [throwIf, if_pos hc]
    exact iff_of_false nofun (not_not_intro hc)
  · rw [throwIf, if_neg hc]
    exact iff_of_true rfl hc

theorem peek_wrap (f : E → E') (p : Fallible Q A W ε E α) :
    (wrap f p).run.peek st s = (p.run.peek st s).map (Except.mapError f) := by
  change Prog.peek st s (Prog.bind p _) = (Prog.peek st s p).map _
  induction p using Prog.rec with
  | ret r | halt => rfl
  | query q k ih => exact ih _
  | update w k ih => rfl

variable {p : Fallible Q A W ε E α}

theorem peek_wrap_eq_ok {f : E → E'} :
    (wrap f p).run.peek st s = some (.ok a) ↔ p.run.peek st s = some (.ok a) := by
  rw [peek_wrap]
  cases p.run.peek st s with
  | none => exact iff_of_false nofun nofun
  | some r =>
    cases r with
    | error e => exact iff_of_false nofun nofun
    | ok b => simp

/-- A sequence returns `a` when its first part returns some `b` and the rest, from `b`, `a`. -/
theorem peek_bind_eq_ok {f : α → Fallible Q A W ε E β} :
    (p >>= f).run.peek st s = some (.ok b) ↔
      ∃ a, p.run.peek st s = some (.ok a) ∧ (f a).run.peek st s = some (.ok b) := by
  change Prog.peek st s (Prog.bind p (ExceptT.bindCont f)) = _ ↔
    ∃ a, Prog.peek st s p = some (.ok a) ∧ _
  induction p using Prog.rec with
  | ret r =>
    cases r with
    | ok a => simp [Prog.bind, Prog.peek, ExceptT.bindCont, ExceptT.run]
    | error e => simp [Prog.bind, Prog.peek, ExceptT.bindCont, pure]
  | halt => simp [Prog.bind, Prog.peek]
  | query q k ih => exact ih _
  | update w k ih => simp [Prog.bind, Prog.peek]

end Peek

section Rules

variable {post : Except E α → S → Prop}

theorem wp_pure : (pure a : Fallible Q A W ε E α).run.wp st F post s ↔ post (.ok a) s := Iff.rfl

theorem wp_crash : (crash : Fallible Q A W ε E α).run.wp st F post s ↔ True := Iff.rfl

variable {p : Fallible Q A W ε E α} {f : α → Fallible Q A W ε E β} {post : Except E β → S → Prop}

theorem wp_bind_fallible :
    (p >>= f).run.wp st F post s ↔
      p.run.wp st F (fun r s' => (ExceptT.bindCont f r).wp st F post s') s :=
  Prog.wp_bind

theorem wp_bind_attempt {f : Except E α → Fallible Q A W ε E' β} {post : Except E' β → S → Prop} :
    (attempt p >>= f).run.wp st F post s ↔
      p.run.wp st F (fun r s' => (f r).run.wp st F post s') s :=
  wp_bind_fallible.trans Prog.wp_bind

/-- Crossing the checks at the head of a program. -/
theorem wp_bind_check (hp : p.run.Checks) (herr : ∀ e, post (.error e) s) :
    (p >>= f).run.wp st F post s ↔
      ∀ a, p.run.peek st s = some (.ok a) → (f a).run.wp st F post s :=
  wp_bind_fallible.trans (Prog.wp_of_checks hp herr)

theorem wp_bind_check_eq (hp : p.run.Checks) (herr : ∀ e, post (.error e) s)
    (ha : p.run.peek st s = some (.ok a)) :
    (p >>= f).run.wp st F post s ↔ (f a).run.wp st F post s := by
  rw [wp_bind_check hp herr]
  refine ⟨fun h => h a ha, fun h b hb => ?_⟩
  have hab : b = a := Except.ok.inj (Option.some.inj (hb.symm.trans ha))
  rw [hab]
  exact h

theorem wp_bind_throwIf [Decidable c] {e : E} {f : Unit → Fallible Q A W ε E β}
    (herr : ∀ e, post (.error e) s) :
    (throwIf c e >>= f).run.wp st F post s ↔ (¬ c → (f ()).run.wp st F post s) := by
  rw [wp_bind_check (checks_throwIf c e) herr]
  exact ⟨fun h hc => h () (peek_throwIf_eq_ok.2 hc), fun h _ hc => h (peek_throwIf_eq_ok.1 hc)⟩

/-- A program that begins by asking can end right there, when that call fails. -/
theorem of_wp_bind_query {q : Q} {k : Except ε (A q) → Prog Q A W ε (Except E α)} {e : ε}
    (hp : p.run.Checks) (hq : p.run = .query q k) (he : F e)
    (h : (p >>= f).run.wp st F (fun _ => inv) s) : inv s := by
  rw [wp_bind_fallible, hq] at h
  rw [hq] at hp
  obtain ⟨e', he'⟩ := hp.1 e
  have hend := h.1 e he
  rw [he'] at hend
  exact hend

theorem wp_perform {f : ε → E} {post : Except E Unit → S → Prop} :
    (wrap f (perform w : Fallible Q A W ε ε Unit)).run.wp st F post s ↔
      (∀ e, F e → post (.error (f e)) s) ∧ post (.ok ()) (st.apply s w) :=
  Iff.rfl

/-- Crossing an update at the head of a program. -/
theorem wp_bind_perform {f : ε → E} {g : Unit → Fallible Q A W ε E β} :
    (wrap f (perform w : Fallible Q A W ε ε Unit) >>= g).run.wp st F post s ↔
      (∀ e, F e → post (.error (f e)) s) ∧ (g ()).run.wp st F post (st.apply s w) :=
  Iff.rfl

end Rules

section MeetsRules

theorem every_of_checks (hp : p.Checks) : p.Every Λ fun _ => True := by
  induction p with
  | ret r | halt => trivial
  | query q k ih =>
    intro r
    cases r with
    | error e =>
      obtain ⟨e', he'⟩ := hp.1 e
      rw [he']
      trivial
    | ok a => exact ih _ (hp.2 a)
  | update w k ih => exact hp.elim

variable {p q : Fallible Q A W ε E α} {f : α → Fallible Q A W ε E β} {post : Except E β → Prop}
  [Decidable c]

/-- A program that is followed by another: what the first returns may be used in the second. -/
theorem meets_bind_fallible : (p >>= f).run.Meets Λ ends post ↔ p.run.Meets Λ ends fun r =>
    (∀ e, r = .error e → post (.error e)) ∧ ∀ a, r = .ok a → (f a).run.Meets Λ ends post := by
  rw [ExceptT.run_bind, meets_bind]
  refine ⟨fun h => meets_mono h fun r hr => ?_, fun h => meets_mono h fun r hr => ?_⟩
  · cases r <;> simpa using hr
  · cases r <;> simpa using hr

/-- The same where nothing is needed of what the first returns. -/
theorem meets_then (hp : p.run.Meets Λ ends fun _ => True)
    (hf : ∀ a, (f a).run.Meets Λ ends fun _ => True) : (p >>= f).run.Meets Λ ends fun _ => True :=
  meets_bind_fallible.2 (meets_mono hp fun _ _ => ⟨fun _ _ => trivial, fun a _ => hf a⟩)

theorem meets_forM {body : α → Fallible Q A W ε E PUnit} {l : List α}
    (h : ∀ a ∈ l, (body a).run.Meets Λ ends fun _ => True) :
    (l.forM body).run.Meets Λ ends fun _ => True := by
  induction l with
  | nil => trivial
  | cons a rest ih =>
    exact meets_then (h a List.mem_cons_self) fun _ => ih fun b hb => h b (List.mem_cons_of_mem _ hb)

@[simp]
theorem meets_wrap {g : E → E'} {post : Except E' α → Prop} :
    (wrap g p).run.Meets Λ ends post ↔ p.run.Meets Λ ends fun r => post (r.mapError g) :=
  meets_bind

theorem forall_except {post : Except E α → Prop} :
    (∀ r, post r) ↔ (∀ e, post (.error e)) ∧ ∀ a, post (.ok a) := by
  refine ⟨fun h => ⟨fun e => h _, fun a => h _⟩, fun h r => ?_⟩
  cases r with
  | error e => exact h.1 e
  | ok a => exact h.2 a

@[simp]
theorem meets_ask {q : Q} {post : Except ε (A q) → Prop} :
    (ask q : Fallible Q A W ε ε (A q)).run.Meets Λ ends post ↔
      (∀ e, post (.error e)) ∧ ∀ a, post (.ok a) :=
  forall_except

@[simp]
theorem meets_perform {post : Except ε Unit → Prop} :
    (perform w : Fallible Q A W ε ε Unit).run.Meets Λ ends post ↔
      Λ w ∧ (∀ e, post (.error e)) ∧ post (.ok ()) :=
  and_congr_right fun _ => forall_except.trans
    (and_congr_right fun _ => ⟨fun h => h (), fun h _ => h⟩)

@[simp]
theorem meets_returned {r : Except E β} :
    (returned r : Fallible Q A W ε E β).run.Meets Λ ends post ↔
      (∀ e, r = .error e → post (.error e)) ∧ ∀ b, r = .ok b → post (.ok b) := by
  cases r <;> simp [returned, Prog.Meets]

@[simp]
theorem meets_crash : (crash : Fallible Q A W ε E β).run.Meets Λ ends post ↔ ends :=
  Iff.rfl

@[simp]
theorem meets_ite {post : Except E α → Prop} : (if c then p else q).run.Meets Λ ends post ↔
    if c then p.run.Meets Λ ends post else q.run.Meets Λ ends post := by
  split <;> rfl

@[simp]
theorem meets_throwIf {e : E} {post : Except E Unit → Prop} :
    (throwIf c e : Fallible Q A W ε E Unit).run.Meets Λ ends post ↔
      if c then post (.error e) else post (.ok ()) := by
  simp [throwIf]

end MeetsRules

section ExecRules

variable {view : S → S} {p : Fallible Q A W ε E α} {f : α → Fallible Q A W ε E β}

theorem exec_of_checks (hp : p.Checks) :
    p.exec st view (fun _ => none) s = (p.peek st (view s)).map fun r => (r, s) := by
  induction p with
  | ret r | halt => rfl
  | query q k ih =>
    have hrun : (Prog.query q k).exec st view (fun _ => none) s
        = (k (st.answer (view s) q)).exec st view (fun _ => none) s := rfl
    rw [hrun, Prog.peek]
    cases st.answer (view s) q with
    | error e =>
      obtain ⟨e', he'⟩ := hp.1 e
      rw [he']
      rfl
    | ok a => exact ih _ (hp.2 a)
  | update w k ih => exact hp.elim

theorem exec_bind_of_ok (h : p.run.exec st view (fun _ => none) s = some (.ok a, s')) :
    (p >>= f).run.exec st view (fun _ => none) s = (f a).run.exec st view (fun _ => none) s' := by
  have hbind := Prog.exec_bind st view p.run (ExceptT.bindCont f) s
  rw [h] at hbind
  exact hbind

/-- Running past the checks at the head of a program. -/
theorem exec_bind_check (hp : p.run.Checks) (ha : p.run.peek st (view s) = some (.ok a)) :
    (p >>= f).run.exec st view (fun _ => none) s = (f a).run.exec st view (fun _ => none) s := by
  refine exec_bind_of_ok ?_
  rw [exec_of_checks hp, ha]
  rfl

theorem exec_bind_of_none (h : p.run.exec st view (fun _ => none) s = none) :
    (p >>= f).run.exec st view (fun _ => none) s = none := by
  have hbind := Prog.exec_bind st view p.run (ExceptT.bindCont f) s
  rw [h] at hbind
  exact hbind

theorem exec_attempt_of_none (h : p.run.exec st view (fun _ => none) s = none) :
    (attempt p : Fallible Q A W ε E' (Except E α)).run.exec st view (fun _ => none) s = none := by
  have hbind := Prog.exec_bind st view p.run (fun r => .ret (.ok r : Except E' (Except E α))) s
  rw [h] at hbind
  exact hbind

end ExecRules

end StoreProgram
