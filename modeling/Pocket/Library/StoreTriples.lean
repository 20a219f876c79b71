import Pocket.Library.StoreProgram

/-!
# Postconditions of programs that read through a view

`StoreProgram.Prog.wp` speaks of runs on one context.  The two notions here speak of runs whose
queries are answered from `view s`, where `s` is the state the updates have built:

* `Ends` is partial: every end of the program, whichever calls fail, satisfies the postcondition.
  `Succeeds` is the same for the ends of a `Fallible` program that are no error.
* `Completes` is total: without failing calls the program returns, and its end satisfies the
  postcondition.

Each has a rule for every way to build a program, and a rule for a loop with an invariant.
`Keeps` is `Ends` for an invariant that holds at every end, an error or not.

`effects` are the updates of a run that took effect; what is shown about them is shown with the
same rules, on the store that keeps them (`Store.logged`).
-/

set_option autoImplicit false

namespace StoreProgram

open Prog

variable {Q : Type} {A : Q → Type} {W ε E E' S α β : Type} {f : α → Fallible Q A W ε E β}
  {body : α → Fallible Q A W ε E PUnit} {post' : α → S → Prop} {w : W} {l : List α} {a : α} {e : E}
  {c : Prop} {r : Except E α} {Λ : W → Prop} {q : Q} {p : Fallible Q A W ε E α} {inv : S → Prop}
  {post : Except E α → Prop} {s : S}

/-! ## Every end -/

section Ends

variable (st : Store Q A W ε S) (view : S → S)

/-- Every end of a run from `s` satisfies `post`. -/
def Ends (p : Prog Q A W ε α) (post : α → S → Prop) (s : S) : Prop :=
  ∀ fails a s', p.exec st view fails s = some (a, s') → post a s'

/-- Every end of a run from `s` that is no error satisfies `post`. -/
def Succeeds (p : Fallible Q A W ε E α) (post : α → S → Prop) (s : S) : Prop :=
  Ends st view p.run (fun r s' => ∀ a, r = .ok a → post a s') s

variable {st view}

variable {post : α → S → Prop}

/-- `st` with its queries answered from the view. -/
def Store.viewed (st : Store Q A W ε S) (view : S → S) : Store Q A W ε S :=
  ⟨fun s => st.answer (view s), st.apply⟩

theorem exec_viewed (p : Prog Q A W ε α) (fails : ℕ → Option ε) (s : S) :
    p.exec (st.viewed view) id fails s = p.exec st view fails s := by
  induction p generalizing fails s with
  | ret a | halt => rfl
  | query q k ih | update w k ih =>
    rw [exec, exec]
    split
    · exact ih _ _ _
    · exact ih _ _ _

theorem peek_viewed (p : Prog Q A W ε α) : p.peek (st.viewed view) s = p.peek st (view s) := by
  induction p with
  | ret a | halt => rfl
  | query q k ih => exact ih _
  | update w k ih => rfl

theorem ends_iff_wp {p : Prog Q A W ε α} :
    Ends st view p post s ↔ p.wp (st.viewed view) (fun _ => True) post s := by
  rw [wp_iff_exec]
  simp only [exec_viewed]
  exact ⟨fun h fails _ => h fails, fun h fails => h fails fun _ _ _ => trivial⟩

theorem ends_ret : Ends st view (.ret a) post s ↔ post a s := ends_iff_wp

theorem ends_query {k : Except ε (A q) → Prog Q A W ε α} :
    Ends st view (.query q k) post s ↔
      (∀ e, Ends st view (k (.error e)) post s) ∧
        Ends st view (k (st.answer (view s) q)) post s := by
  simp only [ends_iff_wp, wp, true_implies]
  exact Iff.rfl

theorem ends_update {k : Except ε Unit → Prog Q A W ε α} :
    Ends st view (.update w k) post s ↔
      (∀ e, Ends st view (k (.error e)) post s) ∧ Ends st view (k (.ok ())) post (st.apply s w) := by
  simp only [ends_iff_wp, wp, true_implies]
  exact Iff.rfl

theorem ends_mono {p : Prog Q A W ε α} (h : Ends st view p post s)
    (hpost : ∀ a s', post a s' → post' a s') : Ends st view p post' s := by
  intro fails a s' hexec
  exact hpost a s' (h fails a s' hexec)

theorem ends_bind {p : Prog Q A W ε α} {f : α → Prog Q A W ε β} {post : β → S → Prop} :
    Ends st view (p >>= f) post s ↔ Ends st view p (fun a s' => Ends st view (f a) post s') s := by
  simp only [ends_iff_wp, wp_bind]

/-! ## Every end that is no error -/

theorem succeeds_mono (h : Succeeds st view p post s) (hpost : ∀ a s', post a s' → post' a s') :
    Succeeds st view p post' s :=
  ends_mono h fun _ _ hr a ha => hpost a _ (hr a ha)

theorem succeeds_bind {post : β → S → Prop}
    (h : Succeeds st view p (fun a s' => Succeeds st view (f a) post s') s) :
    Succeeds st view (p >>= f) post s := by
  refine ends_bind.2 (ends_mono h fun r s' hr => ?_)
  cases r with
  | error e => exact ends_ret.2 fun a ha => by cases ha
  | ok a => exact hr a rfl

theorem succeeds_returned (h : ∀ a, r = .ok a → post a s) :
    Succeeds st view (returned r : Fallible Q A W ε E α) post s :=
  ends_ret.2 h

theorem succeeds_pure (h : post a s) : Succeeds st view (pure a : Fallible Q A W ε E α) post s := by
  refine ends_ret.2 fun b hb => ?_
  cases hb
  exact h

theorem succeeds_throw : Succeeds st view (throw e : Fallible Q A W ε E α) post s :=
  ends_ret.2 nofun

theorem succeeds_crash :
    Succeeds st view (crash : Fallible Q A W ε E α) post s :=
  nofun

theorem succeeds_throwIf [Decidable c] {post : Unit → S → Prop} (h : ¬ c → post () s) :
    Succeeds st view (throwIf c e : Fallible Q A W ε E Unit) post s := by
  by_cases hc : c
  · rw [throwIf, if_pos hc]
    exact succeeds_throw
  · rw [throwIf, if_neg hc]
    exact succeeds_pure (h hc)

theorem succeeds_ask {post : A q → S → Prop} (h : ∀ a, st.answer (view s) q = .ok a → post a s) :
    Succeeds st view (ask q : Fallible Q A W ε ε (A q)) post s := by
  refine ends_query.2 ⟨fun e => ends_ret.2 ?_, ends_ret.2 h⟩
  intro a ha
  cases ha

theorem succeeds_perform {post : Unit → S → Prop} (h : post () (st.apply s w)) :
    Succeeds st view (perform w : Fallible Q A W ε ε Unit) post s := by
  refine ends_update.2 ⟨fun e => ends_ret.2 ?_, ends_ret.2 fun _ _ => h⟩
  intro a ha
  cases ha

theorem succeeds_wrap {f : E → E'}
    (h : Succeeds st view p post s) : Succeeds st view (wrap f p) post s := by
  refine ends_bind.2 (ends_mono h fun r s' hr => ends_ret.2 fun a ha => ?_)
  cases r with
  | error e => cases ha
  | ok b =>
    have hab : b = a := Except.ok.inj ha
    exact hr a (hab ▸ rfl)

theorem succeeds_write {f : ε → E} {post : Unit → S → Prop} (h : post () (st.apply s w)) :
    Succeeds st view (wrap f (perform w) : Fallible Q A W ε E Unit) post s :=
  succeeds_wrap (succeeds_perform h)

theorem succeeds_attempt {post : Except E α → S → Prop} (h : Ends st view p.run post s) :
    Succeeds st view (attempt p : Fallible Q A W ε E' (Except E α)) post s := by
  refine ends_bind.2 (ends_mono h fun r s' hr => ends_ret.2 fun a ha => ?_)
  cases ha
  exact hr

/-- A program that only queries is answered from the view, and leaves the state as it is. -/
theorem succeeds_of_checks (hp : p.run.Checks)
    (h : ∀ a, p.run.peek st (view s) = some (.ok a) → post a s) : Succeeds st view p post s := by
  refine ends_iff_wp.2 ((wp_of_checks hp fun _ _ ha => by cases ha).2 fun a ha b hb => ?_)
  rw [peek_viewed] at ha
  cases hb
  exact h a ha

theorem succeeds_check {post : β → S → Prop} (hp : p.run.Checks)
    (h : ∀ a, p.run.peek st (view s) = some (.ok a) → Succeeds st view (f a) post s) :
    Succeeds st view (p >>= f) post s :=
  succeeds_bind (succeeds_of_checks hp h)

/-- A loop whose body takes the invariant for the elements still to come to the one for the
rest. -/
theorem succeeds_forM {inv : List α → S → Prop}
    (hbody : ∀ a rest s, inv (a :: rest) s → Succeeds st view (body a) (fun _ => inv rest) s)
    (hs : inv l s) : Succeeds st view (l.forM body) (fun _ => inv []) s := by
  induction l generalizing s with
  | nil => exact succeeds_pure hs
  | cons a rest ih =>
    exact succeeds_bind (succeeds_mono (hbody a rest s hs) fun _ s' hs' => ih hs')

/-- The same with an invariant that does not depend on what is to come. -/
theorem succeeds_forM_inv (hbody : ∀ a s, inv s → Succeeds st view (body a) (fun _ => inv) s)
    (hs : inv s) : Succeeds st view (l.forM body) (fun _ => inv) s := by
  let always : List α → S → Prop := fun _ => inv
  have hstep : ∀ a rest s, always (a :: rest) s →
      Succeeds st view (body a) (fun _ => always rest) s := fun a _ s hs => hbody a s hs
  have hstart : always l s := hs
  exact succeeds_forM hstep hstart

end Ends

/-! ## Invariants at every end -/

section Keeps

variable (st : Store Q A W ε S) (view : S → S)

/-- Every end of a run from `s`, an error or not, satisfies the invariant. -/
def Keeps (p : Fallible Q A W ε E α) (inv : S → Prop) (s : S) : Prop :=
  Ends st view p.run (fun _ => inv) s

variable {st view}

theorem keeps_of_every (hp : p.run.Every Λ post) (hinv : ∀ w s, Λ w → inv s → inv (st.apply s w))
    (hs : inv s) : Keeps st view p inv s :=
  fun _ _ _ hexec => (every_exec hp hinv hs hexec).2

/-- An invariant that the first part keeps, with what is known of its result. -/
theorem keeps_bind {mid : α → Prop}
    (hp : Ends st view p.run (fun r s' => inv s' ∧ ∀ a, r = .ok a → mid a) s)
    (hf : ∀ a s', mid a → inv s' → Keeps st view (f a) inv s') : Keeps st view (p >>= f) inv s := by
  refine ends_bind.2 (ends_mono hp fun r s' hr => ?_)
  cases r with
  | error e => exact ends_ret.2 hr.1
  | ok a => exact hf a s' (hr.2 a rfl) hr.1

theorem succeeds_of_keeps (h : Keeps st view p inv s) : Succeeds st view p (fun _ => inv) s :=
  ends_mono h fun _ _ hs _ _ => hs

theorem keeps_of_checks (hp : p.run.Checks) (hs : inv s) : Keeps st view p inv s :=
  keeps_of_every (every_of_checks hp) (fun _ _ (hw : False) => hw.elim) hs

theorem keeps_bind_check (hp : p.run.Checks) (hs : inv s)
    (hf : ∀ a, p.run.peek st (view s) = some (.ok a) → Keeps st view (f a) inv s) :
    Keeps st view (p >>= f) inv s := by
  refine ends_iff_wp.2 ((wp_bind_check hp fun _ => hs).2 fun a ha => ?_)
  rw [peek_viewed] at ha
  exact ends_iff_wp.1 (hf a ha)

theorem keeps_bind_throwIf [Decidable c] {f : Unit → Fallible Q A W ε E β} (hs : inv s)
    (hf : ¬ c → Keeps st view (f ()) inv s) : Keeps st view (throwIf c e >>= f) inv s :=
  keeps_bind_check (checks_throwIf c e) hs fun _ hpeek => hf (peek_throwIf_eq_ok.1 hpeek)

theorem keeps_perform {f : ε → E} (hs : inv s) (hw : inv (st.apply s w)) :
    Keeps st view (wrap f (perform w : Fallible Q A W ε ε Unit)) inv s :=
  ends_update.2 ⟨fun _ => ends_ret.2 hs, ends_ret.2 hw⟩

theorem keeps_bind_perform {f : ε → E} {g : Unit → Fallible Q A W ε E β} (hs : inv s)
    (hg : Keeps st view (g ()) inv (st.apply s w)) :
    Keeps st view (wrap f (perform w : Fallible Q A W ε ε Unit) >>= g) inv s :=
  ends_update.2 ⟨fun _ => ends_ret.2 hs, hg⟩

theorem keeps_attempt {g : Except E α → Except E' β} (h : Keeps st view p inv s) :
    Keeps st view (attempt p >>= fun r => (returned (g r) : Fallible Q A W ε E' β)) inv s := by
  refine ends_bind.2 (ends_bind.2 (ends_mono h fun r s' hs' => ?_))
  exact ends_ret.2 (ends_ret.2 hs')

end Keeps

/-! ## What took effect -/

section Effects

/-- The store with the list of the updates that took effect. -/
def Store.logged (st : Store Q A W ε S) : Store Q A W ε (S × List W) where
  answer := fun s q => st.answer s.1 q
  apply := fun s w => (st.apply s.1 w, s.2 ++ [w])

variable {st : Store Q A W ε S} {view : S → S}

theorem exec_logged (p : Prog Q A W ε α) (fails : ℕ → Option ε) (s : S) (log : List W) :
    (p.exec st.logged (Prod.map view id) fails (s, log)).map (fun r => (r.1, r.2.1))
      = p.exec st view fails s := by
  induction p generalizing fails s log with
  | ret a | halt => rfl
  | query q k ih | update w k ih =>
    rw [exec, exec]
    split
    · exact ih _ _ _ _
    · exact ih _ _ _ _

/-- What a program adds to the log is among its possible updates. -/
theorem keeps_logged_of_every {view : S × List W → S × List W} (hp : p.run.Every Λ post) (s : S)
    (log : List W) :
    Keeps st.logged view p (fun s' => ∃ ws, s'.2 = log ++ ws ∧ ∀ w ∈ ws, Λ w) (s, log) := by
  refine keeps_of_every hp (fun w s' hw hs' => ?_) ⟨[], (List.append_nil log).symm, fun w hw => by cases hw⟩
  obtain ⟨ws, hws, hall⟩ := hs'
  refine ⟨ws ++ [w], ?_, ?_⟩
  · show s'.2 ++ [w] = log ++ (ws ++ [w])
    rw [hws, List.append_assoc]
  · intro w' hw'
    rcases List.mem_append.1 hw' with hin | hlast
    · exact hall w' hin
    · rw [List.mem_singleton.1 hlast]
      exact hw

variable (st view) in
/-- The updates of a run that took effect, in order. -/
def effects (p : Prog Q A W ε α) (fails : ℕ → Option ε) (s : S) : List W :=
  match p.exec st.logged (Prod.map view id) fails (s, []) with
  | some (_, _, log) => log
  | none => []

/-- What holds of the log at every successful end holds of the effects of a run that succeeds. -/
theorem effects_of_succeeds {post : α → S × List W → Prop} {s' : S}
    (h : Succeeds st.logged (Prod.map view id) p post (s, [])) {fails : ℕ → Option ε}
    (hexec : p.run.exec st view fails s = some (.ok a, s')) :
    post a (s', effects st view p.run fails s) := by
  have hlogged : (p.run.exec st.logged (Prod.map view id) fails (s, [])).map
      (fun r => (r.1, r.2.1)) = some (.ok a, s') := by rw [exec_logged, hexec]
  obtain ⟨⟨r, s'', log⟩, hrun, hend⟩ := Option.map_eq_some_iff.1 hlogged
  cases hend
  have heffects : effects st view p.run fails s = log := by rw [effects, hrun]
  rw [heffects]
  exact h fails _ _ hrun a rfl

end Effects

/-! ## The end when no call fails -/

section Completes

variable (st : Store Q A W ε S) (view : S → S)

/-- Without failing calls the run from `s` ends, and its end satisfies `post`. -/
def Completes (p : Prog Q A W ε α) (post : α → S → Prop) (s : S) : Prop :=
  ∃ a s', p.exec st view (fun _ => none) s = some (a, s') ∧ post a s'

variable {st view}

theorem completes_mono {p : Prog Q A W ε α} {post : α → S → Prop} (h : Completes st view p post s)
    (hpost : ∀ a s', post a s' → post' a s') : Completes st view p post' s := by
  obtain ⟨a, s', hexec, ha⟩ := h
  exact ⟨a, s', hexec, hpost a s' ha⟩

theorem completes_bind {p : Prog Q A W ε α} {f : α → Prog Q A W ε β} {post : β → S → Prop}
    (h : Completes st view p (fun a s' => Completes st view (f a) post s') s) :
    Completes st view (p >>= f) post s := by
  obtain ⟨a, s', hexec, b, s'', hrest, hpost⟩ := h
  refine ⟨b, s'', ?_, hpost⟩
  rw [exec_bind, hexec]
  exact hrest

variable {post : Except E β → S → Prop}

/-- A sequence: its first part ends in an error that may be the end, or goes on. -/
theorem completes_seq
    (h : Completes st view p.run (fun r s' => (∀ e, r = .error e → post (.error e) s') ∧ ∀ a, r =
      .ok a → Completes st view (f a).run post s') s) : Completes st view (p >>= f).run post s := by
  refine completes_bind (completes_mono h fun r s' hr => ?_)
  cases r with
  | error e => exact ⟨.error e, s', rfl, hr.1 e rfl⟩
  | ok a => exact hr.2 a rfl

theorem completes_ret {post : α → S → Prop} (h : post a s) : Completes st view (.ret a) post s :=
  ⟨a, s, rfl, h⟩

/-- A sequence whose first part ends without an error. -/
theorem completes_then
    (h : Completes st view p.run (fun r s' => ∃ a, r = .ok a ∧ Completes st view (f a).run post s')
      s) : Completes st view (p >>= f).run post s := by
  refine completes_bind (completes_mono h fun r s' hr => ?_)
  obtain ⟨a, rfl, hf⟩ := hr
  exact hf

theorem completes_of_checks {post : Except E α → S → Prop} (hp : p.run.Checks)
    (hr : p.run.peek st (view s) = some r) (h : post r s) : Completes st view p.run post s := by
  refine ⟨r, s, ?_, h⟩
  rw [exec_of_checks hp, hr]
  rfl

theorem completes_throwIf [Decidable c] {post : Except E Unit → S → Prop} (hc : ¬ c)
    (h : post (.ok ()) s) :
    Completes st view (throwIf c e : Fallible Q A W ε E Unit).run post s := by
  rw [throwIf, if_neg hc]
  exact completes_ret h

theorem completes_ask {post : Except ε (A q) → S → Prop} (h : post (st.answer (view s) q) s) :
    Completes st view (ask q : Fallible Q A W ε ε (A q)).run post s :=
  ⟨_, s, rfl, h⟩

theorem completes_perform {post : Except ε Unit → S → Prop} (h : post (.ok ()) (st.apply s w)) :
    Completes st view (perform w : Fallible Q A W ε ε Unit).run post s :=
  ⟨.ok (), st.apply s w, rfl, h⟩

theorem completes_wrap {f : E → E'} {post : Except E' α → S → Prop}
    (h : Completes st view p.run (fun r s' => post (r.mapError f) s') s) :
    Completes st view (wrap f p).run post s :=
  completes_bind (completes_mono h fun _ _ hr => completes_ret hr)

/-- A loop that keeps an invariant and, if its body fails, fails for a known reason. -/
theorem completes_forM {reason : E → Prop}
    (hbody : ∀ a ∈ l, ∀ s, inv s → Completes st view (body a).run
      (fun r s' => inv s' ∧ ∀ e, r = .error e → reason e) s) (hs : inv s) :
    Completes st view (l.forM body).run (fun r s' => inv s' ∧ ∀ e, r = .error e → reason e) s := by
  induction l generalizing s with
  | nil => exact completes_ret ⟨hs, nofun⟩
  | cons a rest ih =>
    refine completes_seq (completes_mono (hbody a List.mem_cons_self s hs) fun r s' hr => ⟨?_, ?_⟩)
    · intro e he
      exact ⟨hr.1, fun e' he' => Except.error.inj he' ▸ hr.2 e he⟩
    · intro u _
      exact ih (fun b hb => hbody b (List.mem_cons_of_mem _ hb)) hr.1

end Completes

end StoreProgram
