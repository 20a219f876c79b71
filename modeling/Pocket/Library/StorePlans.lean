import Mathlib.Data.List.Flatten
import Mathlib.Data.List.Pairwise
import Pocket.Library.StoreProgram

/-!
# The plan of a run on two contexts

When the queries of a program are answered from a state that its updates do not touch, and no call
fails, all that it does is settled before it begins: `plan` is the value it returns with the
updates it performs, and a run applies these updates to whatever state it is given
(`exec_eq_plan`).

A program is `Atomic` when an error of it means that it performed nothing, and `Infallible` when
it returns no error.  A loop that goes through to its end performs the plans of its rounds one
after the other (`plan_forM_eq_ok`), so another order of the rounds performs a permutation of the
same updates, and has the same effect if rounds do not get in each other's way
(`foldl_flatMap_perm`).

`calls` are the queries and updates of such a run.  If none of its queries comes after an update that
concerns it, the program does the same on one context (`exec_split_of_undisturbed`).
-/

set_option autoImplicit false

namespace StoreProgram

open Prog

variable {Q : Type} {A : Q → Type} {W ε E E' S α β : Type} {ws : List W} {st : Store Q A W ε S}
  {s₀ : S}

namespace Prog

/-- `none` is a process that ended. -/
def plan (st : Store Q A W ε S) (s₀ : S) : Prog Q A W ε α → Option (α × List W)
  | ret a => some (a, [])
  | halt => none
  | query q k => (k (st.answer s₀ q)).plan st s₀
  | update w k => ((k (.ok ())).plan st s₀).map fun r => (r.1, w :: r.2)

theorem exec_eq_plan (p : Prog Q A W ε α) (s : S) :
    p.exec st (fun _ => s₀) (fun _ => none) s
      = (p.plan st s₀).map fun r => (r.1, r.2.foldl st.apply s) := by
  induction p generalizing s with
  | ret a | halt => rfl
  | query q k ih => exact ih _ s
  | update w k ih =>
    have hrest := ih (.ok ()) (st.apply s w)
    rw [plan, Option.map_map]
    exact hrest

theorem plan_bind (p : Prog Q A W ε α) (f : α → Prog Q A W ε β) :
    (p >>= f).plan st s₀ = (p.plan st s₀).bind fun r =>
      ((f r.1).plan st s₀).map fun r' => (r'.1, r.2 ++ r'.2) := by
  induction p with
  | ret a =>
    have hret : (ret a >>= f) = f a := rfl
    rw [hret, plan, Option.bind_some]
    simp
  | halt => rfl
  | query q k ih => exact ih _
  | update w k ih =>
    have hupdate : (Prog.update w k >>= f) = .update w fun r => k r >>= f := rfl
    rw [hupdate, plan, ih, plan, Option.bind_map, Option.map_bind]
    simp only [Function.comp_def, Option.map_map, List.cons_append]

theorem mem_plan_of_every {Λ : W → Prop} {post : α → Prop} {p : Prog Q A W ε α}
    (hp : p.Every Λ post) {a : α} (h : p.plan st s₀ = some (a, ws)) : ∀ w ∈ ws, Λ w := by
  induction p generalizing ws with
  | ret b =>
    cases h
    exact fun w hw => by cases hw
  | halt => cases h
  | query q k ih => exact ih _ (hp _) h
  | update w k ih =>
    obtain ⟨⟨b, rest⟩, hrest, heq⟩ := Option.map_eq_some_iff.1 h
    cases heq
    exact List.forall_mem_cons.2 ⟨hp.1, ih _ (hp.2 _) hrest⟩

end Prog

/-! ## The same on one context -/

namespace Prog

/-- The queries and updates of a run on two contexts in their order. -/
def calls (st : Store Q A W ε S) (s₀ : S) : Prog Q A W ε α → List (Q ⊕ W)
  | ret _ => []
  | halt => []
  | query q k => .inl q :: (k (st.answer s₀ q)).calls st s₀
  | update w k => .inr w :: (k (.ok ())).calls st s₀

theorem calls_bind (p : Prog Q A W ε α) (f : α → Prog Q A W ε β) :
    (p >>= f).calls st s₀
      = p.calls st s₀ ++ (p.plan st s₀).elim [] fun r => (f r.1).calls st s₀ := by
  induction p with
  | ret a | halt => rfl
  | query q k ih => exact congrArg (Sum.inl q :: ·) (ih _)
  | update w k ih =>
    rw [plan, Option.elim_map]
    exact congrArg (Sum.inr w :: ·) (ih _)

theorem mem_calls_of_plan {p : Prog Q A W ε α} {a : α} (h : p.plan st s₀ = some (a, ws)) (w : W) :
    .inr w ∈ p.calls st s₀ ↔ w ∈ ws := by
  induction p generalizing ws with
  | ret b =>
    cases h
    simp [calls]
  | halt => cases h
  | query q k ih => simp [calls, ih _ h]
  | update w' k ih =>
    obtain ⟨⟨b, rest⟩, hrest, heq⟩ := Option.map_eq_some_iff.1 h
    cases heq
    simp [calls, ih _ hrest]

end Prog

section Undisturbed

variable (st s₀)

/-- An answer that is the one of `s₀` still is after the update. -/
def Leaves (w : W) (q : Q) : Prop :=
  ∀ s, st.answer s q = st.answer s₀ q → st.answer (st.apply s w) q = st.answer s₀ q

/-- The second call is no query whose answer the first one, an update, can change. -/
def Undisturbed : Q ⊕ W → Q ⊕ W → Prop
  | .inr w, .inl q => Leaves st s₀ w q
  | _, _ => True

/-- What the calls so far leave is answered as in `s₀`. -/
def Agrees (done : List (Q ⊕ W)) (s : S) : Prop :=
  ∀ q, (∀ c ∈ done, Undisturbed st s₀ c (.inl q)) → st.answer s q = st.answer s₀ q

variable {st s₀} {done : List (Q ⊕ W)} {s : S} {p : Prog Q A W ε α}

/-- A program none of whose queries comes after an update that can change its answer, be it one of its
own or one of those before it, cannot tell two contexts from one. -/
theorem exec_split_of_undisturbed (hs : Agrees st s₀ done s)
    (h : (done ++ p.calls st s₀).Pairwise (Undisturbed st s₀)) :
    p.exec st (fun _ => s₀) (fun _ => none) s = p.exec st id (fun _ => none) s ∧
      ∀ a s', p.exec st id (fun _ => none) s = some (a, s') →
        Agrees st s₀ (done ++ p.calls st s₀) s' := by
  induction p generalizing done s with
  | ret a =>
    refine ⟨rfl, fun b s' hexec => ?_⟩
    cases hexec
    rw [calls, List.append_nil]
    exact hs
  | halt => exact ⟨rfl, fun b s' hexec => by cases hexec⟩
  | query q k ih =>
    have hq : st.answer s q = st.answer s₀ q :=
      hs q fun c hc => (List.pairwise_append.1 h).2.2 c hc _ (List.mem_cons_self ..)
    simp only [exec, id_eq, hq]
    rw [calls, List.append_cons] at h ⊢
    exact ih _ (fun q' hq' => hs q' fun c hc => hq' c (List.mem_append_left _ hc)) h
  | update w k ih =>
    rw [calls, List.append_cons] at h ⊢
    refine ih _ (fun q hq => ?_) h
    refine hq (.inr w) (by simp) s (hs q fun c hc => hq c ?_)
    exact List.mem_append_left _ hc

end Undisturbed

/-! ## Plans of programs that return an error -/

theorem plan_of_checks {p : Prog Q A W ε (Except E α)} (hp : p.Checks) :
    p.plan st s₀ = (p.peek st s₀).map fun r => (r, []) := by
  induction p with
  | ret r | halt => rfl
  | query q k ih =>
    rw [plan, peek]
    cases st.answer s₀ q with
    | error e =>
      obtain ⟨e', he'⟩ := hp.1 e
      rw [he']
      rfl
    | ok a => exact ih _ (hp.2 a)
  | update w k ih => exact hp.elim

variable {p : Fallible Q A W ε E α} {f : α → Fallible Q A W ε E β}
  {body : α → Fallible Q A W ε E PUnit} {l l' : List α} {r : Except E α}

theorem plan_of_peek (hp : p.run.Checks) {a : α}
    (h : p.run.peek st s₀ = some (.ok a)) : p.run.plan st s₀ = some (.ok a, []) := by
  rw [plan_of_checks hp, h]
  rfl

theorem plan_bind_run : (p >>= f).run.plan st s₀ = (p.run.plan st s₀).bind fun r =>
    ((ExceptT.bindCont f r.1).plan st s₀).map fun r' => (r'.1, r.2 ++ r'.2) :=
  plan_bind _ _

theorem plan_bind_eq_ok {b : β} :
    (p >>= f).run.plan st s₀ = some (.ok b, ws) ↔
      ∃ a ws₁ ws₂, p.run.plan st s₀ = some (.ok a, ws₁) ∧
        (f a).run.plan st s₀ = some (.ok b, ws₂) ∧ ws = ws₁ ++ ws₂ := by
  rw [plan_bind_run, Option.bind_eq_some_iff]
  constructor
  · rintro ⟨⟨r, ws₁⟩, hp, hrest⟩
    obtain ⟨⟨r', ws₂⟩, hf, heq⟩ := Option.map_eq_some_iff.1 hrest
    cases heq
    cases r with
    | error e => cases hf
    | ok a => exact ⟨a, ws₁, ws₂, hp, hf, rfl⟩
  · rintro ⟨a, ws₁, ws₂, hp, hf, rfl⟩
    refine ⟨(.ok a, ws₁), hp, ?_⟩
    have hcont : ExceptT.bindCont f (.ok a) = (f a).run := rfl
    rw [hcont, hf]
    rfl

theorem plan_bind_eq_error {e : E} (h : (p >>= f).run.plan st s₀ = some (.error e, ws)) :
    p.run.plan st s₀ = some (.error e, ws) ∨
      ∃ a ws₁ ws₂, p.run.plan st s₀ = some (.ok a, ws₁) ∧
        (f a).run.plan st s₀ = some (.error e, ws₂) ∧ ws = ws₁ ++ ws₂ := by
  rw [plan_bind_run] at h
  obtain ⟨⟨r, ws₁⟩, hp, hrest⟩ := Option.bind_eq_some_iff.1 h
  obtain ⟨⟨r', ws₂⟩, hf, heq⟩ := Option.map_eq_some_iff.1 hrest
  cases heq
  cases r with
  | error e' =>
    cases hf
    exact .inl (by simpa using hp)
  | ok a => exact .inr ⟨a, ws₁, ws₂, hp, hf, rfl⟩

theorem plan_attempt (p : Fallible Q A W ε E α) :
    (attempt p : Fallible Q A W ε E' (Except E α)).run.plan st s₀
      = (p.run.plan st s₀).map fun r => (.ok r.1, r.2) := by
  have hbind : (attempt p : Fallible Q A W ε E' (Except E α)).run.plan st s₀
      = (p.run.plan st s₀).bind fun r =>
        ((ret (Except.ok r.1) : Prog Q A W ε (Except E' (Except E α))).plan st s₀).map
          fun r' => (r'.1, r.2 ++ r'.2) := plan_bind _ _
  rw [hbind]
  cases p.run.plan st s₀ with
  | none => rfl
  | some r => simp [plan]

variable (st s₀) in
/-- The updates of a plan. -/
def planned (p : Fallible Q A W ε E α) : List W := ((p.run.plan st s₀).map Prod.snd).getD []

theorem planned_eq (h : p.run.plan st s₀ = some (r, ws)) : planned st s₀ p = ws := by
  rw [planned, h]
  rfl

/-- A loop that goes through performs the plans of its rounds in order. -/
theorem plan_forM_eq_ok :
    (l.forM body).run.plan st s₀ = some (.ok ⟨⟩, ws) ↔
      (∀ a ∈ l, ∃ ws, (body a).run.plan st s₀ = some (.ok ⟨⟩, ws)) ∧
        ws = l.flatMap fun a => planned st s₀ (body a) := by
  induction l generalizing ws with
  | nil =>
    have hnil : (([] : List α).forM body).run.plan st s₀ = some (.ok ⟨⟩, []) := rfl
    rw [hnil]
    constructor
    · intro h
      cases h
      exact ⟨fun a ha => (nomatch ha), rfl⟩
    · rintro ⟨-, rfl⟩
      rfl
  | cons a rest ih =>
    have hcons : (a :: rest).forM body = body a >>= fun _ => rest.forM body := rfl
    rw [hcons, plan_bind_eq_ok, List.forall_mem_cons, List.flatMap_cons]
    constructor
    · rintro ⟨u, ws₁, ws₂, hbody, hrest, rfl⟩
      obtain ⟨hall, rfl⟩ := ih.1 hrest
      exact ⟨⟨⟨ws₁, hbody⟩, hall⟩, by rw [planned_eq hbody]⟩
    · rintro ⟨⟨⟨ws₁, hbody⟩, hall⟩, rfl⟩
      exact ⟨⟨⟩, ws₁, _, hbody, ih.2 ⟨hall, rfl⟩, by rw [planned_eq hbody]⟩

/-- Another order of the rounds goes through as well. -/
theorem plan_forM_perm (hl : l.Perm l') (h : (l.forM body).run.plan st s₀ = some (.ok ⟨⟩, ws)) :
    (l'.forM body).run.plan st s₀
      = some (.ok ⟨⟩, l'.flatMap fun a => planned st s₀ (body a)) := by
  obtain ⟨hall, -⟩ := plan_forM_eq_ok.1 h
  exact plan_forM_eq_ok.2 ⟨fun a ha => hall a (hl.mem_iff.2 ha), rfl⟩

/-! ## Calls of programs that return an error -/

theorem calls_bind_ret (p : Prog Q A W ε α) (g : α → β) :
    (p >>= fun a => ret (g a)).calls st s₀ = p.calls st s₀ := by
  rw [calls_bind]
  cases p.plan st s₀ <;> exact List.append_nil _

theorem calls_wrap (g : E → E') : (wrap g p).run.calls st s₀ = p.run.calls st s₀ :=
  calls_bind_ret _ _

theorem calls_attempt :
    (attempt p : Fallible Q A W ε E' (Except E α)).run.calls st s₀ = p.run.calls st s₀ :=
  calls_bind_ret _ _

/-- The second part comes with the value of the first, if that returns one. -/
theorem calls_bind_eq : (p >>= f).run.calls st s₀ = p.run.calls st s₀ ∨
    ∃ a ws, p.run.plan st s₀ = some (.ok a, ws) ∧
      (p >>= f).run.calls st s₀ = p.run.calls st s₀ ++ (f a).run.calls st s₀ := by
  have hbind : (p >>= f).run.calls st s₀ = p.run.calls st s₀ ++ (p.run.plan st s₀).elim []
      fun r => (ExceptT.bindCont f r.1 : Prog Q A W ε _).calls st s₀ := calls_bind _ _
  rw [hbind]
  rcases p.run.plan st s₀ with - | ⟨e | a, ws⟩
  · exact .inl (List.append_nil _)
  · exact .inl (List.append_nil _)
  · exact .inr ⟨a, ws, rfl, rfl⟩

theorem calls_bind_pure (g : α → β) :
    (p >>= fun a => (pure (g a) : Fallible Q A W ε E β)).run.calls st s₀ = p.run.calls st s₀ := by
  rcases @calls_bind_eq _ _ _ _ _ _ _ _ st s₀ p fun a => pure (g a) with h | ⟨a, ws, -, h⟩ <;> rw [h]
  exact List.append_nil _

variable {Λ : Q ⊕ W → Prop}

theorem mem_calls_bind {c : Q ⊕ W} (h : c ∈ p.run.calls st s₀) : c ∈ (p >>= f).run.calls st s₀ := by
  have hbind : (p >>= f).run.calls st s₀ = p.run.calls st s₀ ++ _ := calls_bind _ _
  rw [hbind]
  exact List.mem_append_left _ h

theorem forall_calls_bind (hp : ∀ c ∈ p.run.calls st s₀, Λ c)
    (hf : ∀ a, ∀ c ∈ (f a).run.calls st s₀, Λ c) : ∀ c ∈ (p >>= f).run.calls st s₀, Λ c := by
  rcases @calls_bind_eq _ _ _ _ _ _ _ _ st s₀ p f with h | ⟨a, ws, -, h⟩ <;> rw [h]
  · exact hp
  · exact List.forall_mem_append.2 ⟨hp, hf a⟩

theorem forall_calls_forM (h : ∀ a ∈ l, ∀ c ∈ (body a).run.calls st s₀, Λ c) :
    ∀ c ∈ (l.forM body).run.calls st s₀, Λ c := by
  induction l with
  | nil => exact fun c hc => nomatch hc
  | cons a l ih =>
    rw [List.forall_mem_cons] at h
    exact forall_calls_bind h.1 fun _ => ih h.2

theorem pairwise_calls_bind {R : Q ⊕ W → Q ⊕ W → Prop} (hp : (p.run.calls st s₀).Pairwise R)
    (hf : ∀ a ws, p.run.plan st s₀ = some (.ok a, ws) → ((f a).run.calls st s₀).Pairwise R ∧
      ∀ c ∈ p.run.calls st s₀, ∀ c' ∈ (f a).run.calls st s₀, R c c') :
    ((p >>= f).run.calls st s₀).Pairwise R := by
  rcases @calls_bind_eq _ _ _ _ _ _ _ _ st s₀ p f with h | ⟨a, ws, hplan, h⟩ <;> rw [h]
  · exact hp
  · exact List.pairwise_append.2 ⟨hp, hf a ws hplan⟩

/-! ## Rounds that do not get in each other's way -/

section Commute

variable {f : S → W → S}

theorem foldl_comm {w : W} (hcomm : ∀ w' ∈ ws, ∀ s, f (f s w) w' = f (f s w') w) (s : S) :
    ws.foldl f (f s w) = f (ws.foldl f s) w := by
  induction ws generalizing s with
  | nil => rfl
  | cons w' ws ih =>
    rw [List.forall_mem_cons] at hcomm
    rw [List.foldl_cons, List.foldl_cons, hcomm.1, ih hcomm.2]

theorem foldl_foldl_comm {ws' : List W}
    (hcomm : ∀ w ∈ ws, ∀ w' ∈ ws', ∀ s, f (f s w) w' = f (f s w') w) (s : S) :
    ws'.foldl f (ws.foldl f s) = ws.foldl f (ws'.foldl f s) := by
  induction ws generalizing s with
  | nil => rfl
  | cons w ws ih =>
    rw [List.forall_mem_cons] at hcomm
    rw [List.foldl_cons, List.foldl_cons, ih hcomm.2, foldl_comm hcomm.1]

/-- Rounds of which no two get in each other's way may come in any order. -/
theorem foldl_flatMap_perm [DecidableEq α] (hl : l.Perm l') {w : α → List W}
    (hcomm : ∀ a ∈ l, ∀ b ∈ l, a ≠ b → ∀ u ∈ w a, ∀ v ∈ w b, ∀ s, f (f s u) v = f (f s v) u) (s : S) :
    (l.flatMap w).foldl f s = (l'.flatMap w).foldl f s := by
  rw [List.foldl_flatMap, List.foldl_flatMap]
  refine hl.foldl_eq' (fun a ha b hb s => ?_) s
  by_cases hab : a = b
  · rw [hab]
  · exact foldl_foldl_comm (hcomm a ha b hb hab) s

end Commute

/-! ## Errors that leave nothing behind -/

variable (st s₀) in
/-- An error means that nothing was performed. -/
def Atomic (p : Fallible Q A W ε E α) : Prop :=
  ∀ e ws, p.run.plan st s₀ = some (.error e, ws) → ws = []

variable (st s₀) in
/-- No error is returned. -/
def Infallible (p : Fallible Q A W ε E α) : Prop :=
  ∀ e ws, p.run.plan st s₀ ≠ some (.error e, ws)

theorem atomic_of_checks (hp : p.run.Checks) : Atomic st s₀ p := by
  intro e ws h
  rw [plan_of_checks hp] at h
  obtain ⟨r, -, heq⟩ := Option.map_eq_some_iff.1 h
  cases heq
  rfl

theorem Infallible.atomic (hp : Infallible st s₀ p) : Atomic st s₀ p :=
  fun e ws h => absurd h (hp e ws)

/-- Checks come before anything that is performed. -/
theorem atomic_bind_check
    (hp : p.run.Checks) (hf : ∀ a, Atomic st s₀ (f a)) : Atomic st s₀ (p >>= f) := by
  intro e ws h
  rcases plan_bind_eq_error h with hp' | ⟨a, ws₁, ws₂, hp', hf', rfl⟩
  · exact atomic_of_checks hp e ws hp'
  · rw [plan_of_checks hp] at hp'
    obtain ⟨r, -, heq⟩ := Option.map_eq_some_iff.1 hp'
    cases heq
    rw [hf a e ws₂ hf', List.append_nil]

/-- What comes after cannot fail. -/
theorem Atomic.bind
    (hp : Atomic st s₀ p) (hf : ∀ a, Infallible st s₀ (f a)) : Atomic st s₀ (p >>= f) := by
  intro e ws h
  rcases plan_bind_eq_error h with hp' | ⟨a, -, ws₂, -, hf', -⟩
  · exact hp e ws hp'
  · exact absurd hf' (hf a e ws₂)

theorem Infallible.bind
    (hp : Infallible st s₀ p) (hf : ∀ a, Infallible st s₀ (f a)) : Infallible st s₀ (p >>= f) := by
  intro e ws h
  rcases plan_bind_eq_error h with hp' | ⟨a, -, ws₂, -, hf', -⟩
  · exact hp e ws hp'
  · exact hf a e ws₂ hf'

theorem infallible_perform (w : W) (f : ε → E) :
    Infallible st s₀ (wrap f (perform w : Fallible Q A W ε ε Unit)) :=
  nofun

theorem infallible_pure (a : α) : Infallible st s₀ (pure a : Fallible Q A W ε E α) :=
  nofun

theorem infallible_attempt (p : Fallible Q A W ε E α) :
    Infallible st s₀ (attempt p : Fallible Q A W ε E' (Except E α)) := by
  intro e ws h
  rw [plan_attempt] at h
  obtain ⟨r, -, heq⟩ := Option.map_eq_some_iff.1 h
  cases heq

theorem infallible_returned (hr : ∀ e, r ≠ .error e) :
    Infallible st s₀ (returned r : Fallible Q A W ε E α) := by
  intro e ws h
  cases h
  exact hr e rfl

end StoreProgram
