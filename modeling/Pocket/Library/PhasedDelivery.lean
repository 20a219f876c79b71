import Mathlib.Data.List.Induction
import Mathlib.Data.List.Perm.Basic
import Mathlib.Logic.Function.Basic
import Mathlib.Order.Lattice

/-!
# Messages that are delivered in phases

Nodes handle messages and send others.  Every message belongs to a phase, and a message is delivered
only when no message of an earlier phase is on its way; within a phase the order is free, and every
message is delivered once.

* `Inevitable step goal` says that, whichever steps are taken, the goal is reached.
* `inevitable_of_phase` is the rule for a phase: if every node gets from its messages of the phase,
  in whichever order, to a result that meets a specification, then the phase ends, and it ends with
  such results at all nodes.
* `handleAll_threshold` is the rule for a node that collects messages until it has enough of them.
-/

set_option autoImplicit false

namespace PhasedDelivery

/-! ## What is reached on every way -/

section Inevitable

variable {σ : Type} {step : σ → σ → Prop} {goal goal' : σ → Prop} {s : σ}

/-- From the state every sequence of steps comes to the goal, and until then there is a step. -/
inductive Inevitable (step : σ → σ → Prop) (goal : σ → Prop) : σ → Prop
  | now {s : σ} (h : goal s) : Inevitable step goal s
  | later {s : σ} (hsome : ∃ s', step s s') (h : ∀ s', step s s' → Inevitable step goal s') :
      Inevitable step goal s

/-- One goal after the other. -/
theorem Inevitable.trans (h : Inevitable step goal s)
    (hgoal : ∀ s, goal s → Inevitable step goal' s) : Inevitable step goal' s := by
  induction h with
  | now h => exact hgoal _ h
  | later hsome _ ih => exact .later hsome ih

end Inevitable

/-! ## Nodes and messages on their way -/

variable {ν σ μ κ : Type} [DecidableEq ν] [DecidableEq μ] [LinearOrder κ]

/-- The states of the nodes, and the messages with the nodes they are for. -/
structure Flight (ν σ μ : Type) where
  node : ν → σ
  pending : List (ν × μ)

variable (handle : ν → σ → μ → σ × List (ν × μ)) (phase : μ → κ) {d : ν × μ} {a : ν}
  {s : Flight ν σ μ}

/-- The addressee handles the message, and what it sends is on its way. -/
def deliver (s : Flight ν σ μ) (d : ν × μ) : Flight ν σ μ where
  node := Function.update s.node d.1 (handle d.1 (s.node d.1) d.2).1
  pending := s.pending.erase d ++ (handle d.1 (s.node d.1) d.2).2

/-- A message of the earliest phase is delivered. -/
def Delivery (s s' : Flight ν σ μ) : Prop :=
  ∃ d ∈ s.pending, (∀ d' ∈ s.pending, phase d.2 ≤ phase d'.2) ∧ s' = deliver handle s d

/-- The state of a node after a list of messages, and what it has sent. -/
def handleAll (a : ν) : σ → List μ → σ × List (ν × μ)
  | s, [] => (s, [])
  | s, m :: ms =>
    let r := handle a s m
    let rest := handleAll a r.1 ms
    (rest.1, r.2 ++ rest.2)

/-- The messages for one of the nodes. -/
def inbox (a : ν) (ds : List (ν × μ)) : List μ := (ds.filter fun d => d.1 = a).map Prod.snd

section Inbox

variable {ds ds' : List (ν × μ)}

omit [DecidableEq μ] in
theorem inbox_perm (h : ds.Perm ds') : (inbox a ds).Perm (inbox a ds') :=
  (h.filter _).map _

omit [DecidableEq μ] in
/-- A message to several nodes, one of them the node. -/
theorem inbox_broadcast {nodes : List ν} (hnodes : nodes.Nodup) (ha : a ∈ nodes) (m : μ) :
    inbox a (nodes.map (·, m)) = [m] := by
  have hfilter : (nodes.map (·, m)).filter (fun d => d.1 = a) = (nodes.filter (· = a)).map (·, m) :=
    List.filter_map
  rw [inbox, hfilter, List.filter_eq, hnodes.count, if_pos ha]
  rfl

omit [DecidableEq μ] in
/-- Messages to one node are all for it, and none for another. -/
theorem inbox_addressed (msgs : List μ) (b : ν) :
    inbox a (msgs.map (b, ·)) = if b = a then msgs else [] := by
  by_cases hb : b = a
  · simp [inbox, hb, List.filter_map, Function.comp_def]
  · simp [inbox, hb, List.filter_map, Function.comp_def]

omit [DecidableEq μ] in
theorem inbox_flatMap {α : Type} (l : List α) (f : α → List (ν × μ)) :
    inbox a (l.flatMap f) = l.flatMap fun x => inbox a (f x) := by
  induction l with
  | nil => rfl
  | cons x l ih =>
    rw [List.flatMap_cons, List.flatMap_cons, ← ih]
    simp [inbox]

theorem inbox_self (h : d ∈ ds) : (inbox d.1 ds).Perm (d.2 :: inbox d.1 (ds.erase d)) := by
  have hperm := inbox_perm (a := d.1) (List.perm_cons_erase h)
  simpa [inbox] using hperm

theorem inbox_other (h : d ∈ ds) (ha : d.1 ≠ a) : (inbox a ds).Perm (inbox a (ds.erase d)) := by
  have hperm := inbox_perm (a := a) (List.perm_cons_erase h)
  simpa [inbox, ha] using hperm

end Inbox

/-! ## One delivery -/

section Deliver

variable {handle phase} {seen : ν → List μ}

theorem node_deliver_self : (deliver handle s d).node d.1 = (handle d.1 (s.node d.1) d.2).1 := by
  simp [deliver]

theorem node_deliver_other (ha : a ≠ d.1) : (deliver handle s d).node a = s.node a := by
  simp [deliver, ha]

/-- What the nodes are to see, with the message that is delivered first. -/
def seeFirst (d : ν × μ) (seen : ν → List μ) : ν → List μ :=
  Function.update seen d.1 (d.2 :: seen d.1)

omit [DecidableEq μ] in
theorem seeFirst_self : seeFirst d seen d.1 = d.2 :: seen d.1 := by
  simp [seeFirst]

omit [DecidableEq μ] in
theorem seeFirst_other (ha : a ≠ d.1) : seeFirst d seen a = seen a := by
  simp [seeFirst, ha]

theorem handleAll_deliver (a : ν) :
    (handleAll handle a ((deliver handle s d).node a) (seen a)).1
      = (handleAll handle a (s.node a) (seeFirst d seen a)).1 := by
  by_cases ha : a = d.1
  · subst ha
    rw [node_deliver_self, seeFirst_self]
    rfl
  · rw [node_deliver_other ha, seeFirst_other ha]

theorem seeFirst_perm {ds : List (ν × μ)} (hd : d ∈ ds) (h : (seen a).Perm (inbox a (ds.erase d))) :
    (seeFirst d seen a).Perm (inbox a ds) := by
  by_cases ha : a = d.1
  · subst ha
    rw [seeFirst_self]
    exact (h.cons d.2).trans (inbox_self hd).symm
  · rw [seeFirst_other ha]
    exact h.trans (inbox_other hd fun heq => ha heq.symm).symm

theorem sent_deliver_perm {nodes : List ν} (hnodes : nodes.Nodup) (hd : d.1 ∈ nodes)
    (seen : ν → List μ) :
    (nodes.flatMap fun a => (handleAll handle a (s.node a) (seeFirst d seen a)).2).Perm
      ((handle d.1 (s.node d.1) d.2).2
        ++ nodes.flatMap fun a => (handleAll handle a ((deliver handle s d).node a) (seen a)).2) := by
  induction nodes with
  | nil => exact absurd hd List.not_mem_nil
  | cons b nodes ih =>
    obtain ⟨hb, hnodes⟩ := List.nodup_cons.mp hnodes
    rw [List.flatMap_cons, List.flatMap_cons]
    by_cases hbd : b = d.1
    · subst hbd
      have hrest : ∀ a ∈ nodes, (handleAll handle a (s.node a) (seeFirst d seen a)).2
          = (handleAll handle a ((deliver handle s d).node a) (seen a)).2 := by
        intro a ha
        have hne : a ≠ d.1 := fun heq => hb (heq ▸ ha)
        rw [node_deliver_other hne, seeFirst_other hne]
      rw [List.flatMap_congr hrest, seeFirst_self, node_deliver_self, ← List.append_assoc]
      exact List.Perm.refl _
    · have hmem : d.1 ∈ nodes := (List.mem_cons.mp hd).resolve_left fun heq => hbd heq.symm
      rw [node_deliver_other hbd, seeFirst_other hbd]
      have hrest := (ih hnodes hmem).append_left (handleAll handle b (s.node b) (seen b)).2
      refine hrest.trans ?_
      rw [← List.append_assoc, ← List.append_assoc]
      exact List.perm_append_comm.append_right _

end Deliver

/-! ## What nodes send together -/

section Together

variable {nodes : List ν}

omit [DecidableEq μ] in
theorem flatMap_perm_erase (ha : a ∈ nodes) (hnodes : nodes.Nodup) {sent f : ν → List (ν × μ)}
    (h : ∀ b ∈ nodes, b ≠ a → sent b = f b) :
    (nodes.flatMap sent).Perm (sent a ++ (nodes.erase a).flatMap f) := by
  have hperm := (List.perm_cons_erase ha).flatMap_right sent
  have hothers : ∀ b ∈ nodes.erase a, sent b = f b := by
    intro b hb
    exact h b (List.mem_of_mem_erase hb) ((hnodes.mem_erase_iff.mp hb).1)
  rw [List.flatMap_cons, List.flatMap_congr hothers] at hperm
  exact hperm

omit [DecidableEq μ] in
/-- Only one of the nodes sends anything. -/
theorem flatMap_perm_one (ha : a ∈ nodes) (hnodes : nodes.Nodup) {sent : ν → List (ν × μ)}
    (h : ∀ b ∈ nodes, b ≠ a → sent b = []) : (nodes.flatMap sent).Perm (sent a) := by
  have hperm := flatMap_perm_erase (f := fun _ => []) ha hnodes h
  rw [List.flatMap_eq_nil_iff.mpr fun _ _ => rfl, List.append_nil] at hperm
  exact hperm

omit [DecidableEq μ] in
/-- Each of the others sends one message. -/
theorem flatMap_perm_others (ha : a ∈ nodes) (hnodes : nodes.Nodup) {sent : ν → List (ν × μ)}
    {d : ν → ν × μ} (hself : sent a = []) (h : ∀ b ∈ nodes, b ≠ a → sent b = [d b]) :
    (d a :: nodes.flatMap sent).Perm (nodes.map d) := by
  have hperm := flatMap_perm_erase (f := fun b => [d b]) ha hnodes h
  rw [hself, List.nil_append, ← List.map_eq_flatMap] at hperm
  exact (hperm.cons (d a)).trans ((List.perm_cons_erase ha).map d).symm

end Together

/-! ## One phase -/

section Phase

variable {handle phase} {nodes : List ν} {k : κ} {now later : List (ν × μ)}

/-- The messages on their way: those of the phase `k`, which go to the nodes, and later ones. -/
structure AtPhase (phase : μ → κ) (nodes : List ν) (k : κ) (now later : List (ν × μ))
    (s : Flight ν σ μ) : Prop where
  pending : s.pending.Perm (now ++ later)
  now_mem : ∀ d ∈ now, d.1 ∈ nodes
  now_phase : ∀ d ∈ now, phase d.2 = k
  later_phase : ∀ d ∈ later, k < phase d.2

omit [DecidableEq ν] [DecidableEq μ] in
theorem AtPhase.mem_now (h : AtPhase phase nodes k now later s) (hnow : now ≠ [])
    (hd : d ∈ s.pending) (hfirst : ∀ d' ∈ s.pending, phase d.2 ≤ phase d'.2) : d ∈ now := by
  obtain ⟨d₀, hd₀⟩ := List.exists_mem_of_ne_nil now hnow
  rcases List.mem_append.mp (h.pending.mem_iff.mp hd) with hdnow | hdlater
  · exact hdnow
  · have hle := hfirst d₀ (h.pending.mem_iff.mpr (List.mem_append_left _ hd₀))
    rw [h.now_phase d₀ hd₀] at hle
    exact absurd (h.later_phase d hdlater) (not_lt_of_ge hle)

omit [DecidableEq ν] [DecidableEq μ] in
theorem AtPhase.first (h : AtPhase phase nodes k now later s) (hd : d ∈ now) :
    ∀ d' ∈ s.pending, phase d.2 ≤ phase d'.2 := by
  intro d' hd'
  rw [h.now_phase d hd]
  rcases List.mem_append.mp (h.pending.mem_iff.mp hd') with hdnow | hdlater
  · exact le_of_eq (h.now_phase d' hdnow).symm
  · exact le_of_lt (h.later_phase d' hdlater)

theorem AtPhase.deliver (h : AtPhase phase nodes k now later s) (hd : d ∈ now)
    (hsent : ∀ d' ∈ (handle d.1 (s.node d.1) d.2).2, k < phase d'.2) :
    AtPhase phase nodes k (now.erase d) (later ++ (handle d.1 (s.node d.1) d.2).2)
      (deliver handle s d) := by
  refine ⟨?_, ?_, ?_, ?_⟩
  · have herase : (s.pending.erase d).Perm (now.erase d ++ later) := by
      rw [← List.erase_append_left _ hd]
      exact h.pending.erase d
    rw [← List.append_assoc]
    exact herase.append_right _
  · intro d' hd'
    exact h.now_mem d' (List.mem_of_mem_erase hd')
  · intro d' hd'
    exact h.now_phase d' (List.mem_of_mem_erase hd')
  · intro d' hd'
    rcases List.mem_append.mp hd' with hd' | hd'
    · exact h.later_phase d' hd'
    · exact hsent d' hd'

/-- INTERNAL: the phase ends when every node has handled its messages, in some order.  The
induction is on the number of messages that are left. -/
theorem inevitable_handleAll (hnodes : nodes.Nodup) (n : ℕ) :
    ∀ (now later : List (ν × μ)) (s : Flight ν σ μ), now.length = n →
      AtPhase phase nodes k now later s →
      (∀ a ∈ nodes, ∀ seen, seen.Perm (inbox a now) →
        ∀ d ∈ (handleAll handle a (s.node a) seen).2, k < phase d.2) →
      Inevitable (Delivery handle phase) (fun s' => ∃ seen : ν → List μ,
        (∀ a, (seen a).Perm (inbox a now))
          ∧ (∀ a, s'.node a = (handleAll handle a (s.node a) (seen a)).1)
          ∧ s'.pending.Perm
            (later ++ nodes.flatMap fun a => (handleAll handle a (s.node a) (seen a)).2)) s := by
  induction n with
  | zero =>
    intro now later s hlength hs _
    obtain rfl := List.eq_nil_of_length_eq_zero hlength
    have hnothing : nodes.flatMap (fun a => (handleAll handle a (s.node a) []).2) = [] := by
      simp [handleAll]
    refine .now ⟨fun _ => [], fun a => List.Perm.refl _, fun a => rfl, ?_⟩
    rw [hnothing, List.append_nil]
    exact hs.pending
  | succ n ih =>
    intro now later s hlength hs hsent
    have hnow : now ≠ [] := List.ne_nil_of_length_eq_add_one hlength
    obtain ⟨d₀, hd₀⟩ := List.exists_mem_of_ne_nil now hnow
    refine .later ⟨_, d₀, hs.pending.mem_iff.mpr (List.mem_append_left _ hd₀), hs.first hd₀, rfl⟩ ?_
    rintro _ ⟨d, hd, hfirst, rfl⟩
    have hdnow : d ∈ now := hs.mem_now hnow hd hfirst
    have hdnode := hs.now_mem d hdnow
    -- what the addressee sends, now and later, is part of what it sends in the phase
    have haddressee : ∀ seen, seen.Perm (inbox d.1 (now.erase d)) →
        ∀ d' ∈ (handle d.1 (s.node d.1) d.2).2
          ++ (handleAll handle d.1 ((deliver handle s d).node d.1) seen).2, k < phase d'.2 := by
      intro seen hseen
      rw [node_deliver_self]
      exact hsent d.1 hdnode (d.2 :: seen) ((hseen.cons d.2).trans (inbox_self hdnow).symm)
    have hs' := hs.deliver hdnow fun d' hd' =>
      haddressee _ (List.Perm.refl _) d' (List.mem_append_left _ hd')
    have hlength' : (now.erase d).length = n := by
      rw [List.length_erase_of_mem hdnow, hlength]
      rfl
    refine (ih (now.erase d) _ _ hlength' hs' ?_).trans ?_
    · intro a ha seen hseen d' hd'
      by_cases hda : a = d.1
      · subst hda
        exact haddressee seen hseen d' (List.mem_append_right _ hd')
      · rw [node_deliver_other hda] at hd'
        exact hsent a ha seen (hseen.trans (inbox_other hdnow fun heq => hda heq.symm).symm) d' hd'
    · rintro s' ⟨seen, hseen, hstates, hpending⟩
      refine .now ⟨seeFirst d seen, fun a => seeFirst_perm hdnow (hseen a), fun a => ?_, ?_⟩
      · rw [hstates a, handleAll_deliver]
      · rw [List.append_assoc] at hpending
        exact hpending.trans ((sent_deliver_perm hnodes hdnode seen).symm.append_left later)

/-- **The rule for a phase.**  If every node comes from its messages of the phase, in whichever
order, to a result that meets `spec`, and sends messages of later phases only, then the phase ends,
and it ends with such results. -/
theorem inevitable_of_phase {goal : Flight ν σ μ → Prop} (hnodes : nodes.Nodup)
    (hs : AtPhase phase nodes k now later s) (spec : ν → σ × List (ν × μ) → Prop)
    (hspec : ∀ a ∈ nodes, ∀ seen, seen.Perm (inbox a now) →
      spec a (handleAll handle a (s.node a) seen)
        ∧ ∀ d ∈ (handleAll handle a (s.node a) seen).2, k < phase d.2)
    (hgoal : ∀ s' (result : ν → σ × List (ν × μ)), (∀ a ∈ nodes, spec a (result a)) →
      (∀ a ∈ nodes, s'.node a = (result a).1) →
      s'.pending.Perm (later ++ nodes.flatMap fun a => (result a).2) → goal s') :
    Inevitable (Delivery handle phase) goal s := by
  have hphase := inevitable_handleAll hnodes now.length now later s rfl hs
    fun a ha seen hseen => (hspec a ha seen hseen).2
  refine hphase.trans ?_
  rintro s' ⟨seen, hseen, hstates, hpending⟩
  apply Inevitable.now
  apply hgoal s' fun a => handleAll handle a (s.node a) (seen a)
  · exact fun a ha => (hspec a ha (seen a) (hseen a)).1
  · exact fun a _ => hstates a
  · exact hpending

end Phase

/-! ## Waiting for enough messages -/

section Threshold

variable {handle}

omit [DecidableEq ν] [DecidableEq μ] in
theorem handleAll_append (s : σ) (l l' : List μ) :
    handleAll handle a s (l ++ l')
      = ((handleAll handle a (handleAll handle a s l).1 l').1,
        (handleAll handle a s l).2 ++ (handleAll handle a (handleAll handle a s l).1 l').2) := by
  induction l generalizing s with
  | nil => rfl
  | cons m l ih => simp only [List.cons_append, handleAll, ih, List.append_assoc]

omit [DecidableEq ν] [DecidableEq μ] in
/-- Messages that are all ignored. -/
theorem handleAll_ignored {s : σ} {msgs : List μ} (h : ∀ m ∈ msgs, handle a s m = (s, [])) :
    handleAll handle a s msgs = (s, []) := by
  induction msgs with
  | nil => rfl
  | cons m msgs ih =>
    have hrest := ih fun m' hm' => h m' (List.mem_cons_of_mem _ hm')
    simp only [handleAll, h m List.mem_cons_self, hrest, List.append_nil]

omit [DecidableEq ν] [DecidableEq μ] in
/-- **The rule for a threshold.**  A node that waits until it has `t` messages, then acts on them,
and ignores the others, has acted in the end. -/
theorem handleAll_threshold {s : σ} {msgs : List μ} {t : ℕ} (ht : 0 < t)
    (waiting : List μ → σ → Prop) (acted : σ × List (ν × μ) → Prop)
    (hstart : waiting [] s)
    (hwait : ∀ l m s, l ++ [m] <+: msgs → waiting l s → l.length + 1 < t →
      waiting (l ++ [m]) (handle a s m).1 ∧ (handle a s m).2 = [])
    (hact : ∀ l m s, l ++ [m] <+: msgs → waiting l s → l.length + 1 = t → acted (handle a s m))
    (hignore : ∀ r m, m ∈ msgs → acted r → handle a r.1 m = (r.1, [])) (hmsgs : t ≤ msgs.length) :
    acted (handleAll handle a s msgs) := by
  -- along the messages: too few, and nothing was sent; or enough, and the rest changed nothing
  have hloop : ∀ l, l <+: msgs →
      (l.length < t ∧ waiting l (handleAll handle a s l).1 ∧ (handleAll handle a s l).2 = [])
      ∨ (t ≤ l.length ∧ acted (handleAll handle a s l)) := by
    intro l
    induction l using List.reverseRecOn with
    | nil => exact fun _ => .inl ⟨ht, hstart, rfl⟩
    | append_singleton l m ih =>
      intro hprefix
      have hsnoc : handleAll handle a s (l ++ [m])
          = ((handle a (handleAll handle a s l).1 m).1,
            (handleAll handle a s l).2 ++ (handle a (handleAll handle a s l).1 m).2) := by
        rw [handleAll_append]
        simp [handleAll]
      rw [hsnoc]
      rcases ih ((List.prefix_append l [m]).trans hprefix) with ⟨hfew, hwaits, hnone⟩ |
        ⟨henough, hdone⟩
      · rw [hnone, List.nil_append]
        rcases Nat.lt_or_ge (l.length + 1) t with hlt | hge
        · obtain ⟨hwaits', hnone'⟩ := hwait l m _ hprefix hwaits hlt
          exact .inl ⟨by simpa using hlt, hwaits', hnone'⟩
        · have hfull : l.length + 1 = t := by omega
          exact .inr ⟨by simp; omega, hact l m _ hprefix hwaits hfull⟩
      · have hm : m ∈ msgs := hprefix.subset (List.mem_append_right _ (List.mem_singleton_self m))
        rw [hignore _ m hm hdone, List.append_nil]
        exact .inr ⟨by simp; omega, hdone⟩
  rcases hloop msgs List.prefix_rfl with ⟨hfew, -, -⟩ | ⟨-, hdone⟩
  · omega
  · exact hdone

end Threshold

end PhasedDelivery
