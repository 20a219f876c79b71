import Mathlib.Data.Finmap
import Mathlib.Data.Set.Basic

/-!
# Finite maps that are updated by lists of leaves

A tree that commits to a finite map is updated by setting some of its leaves; what is not set
stays from all earlier updates.  So two maps that get the same leaves are equal afterwards exactly
when they agreed on the keys that were not set (`setAll_eq_iff`), and a map that holds the entries
of a relation goes on to do so when the leaves are set where the relation changes (`Holds.setAll`).

A forest is a family of such maps.  `AgreeOff D` says that two forests agree outside of the set
`D`; setting the same leaves in both shrinks `D` by their keys, and setting leaves in one of them
adds their keys to `D`.
-/

set_option autoImplicit false

/-- A finite map from keys to values. -/
abbrev LeafMap (κ ν : Type) := Finmap (fun _ : κ => ν)

namespace LeafMap

variable {τ κ ν : Type} [DecidableEq τ] [DecidableEq κ]

/-! ## One map -/

/-- The leaves are set one after another. -/
def setAll (m : LeafMap κ ν) (leaves : List (κ × ν)) : LeafMap κ ν :=
  leaves.foldl (fun m leaf => m.insert leaf.1 leaf.2) m

variable {m : LeafMap κ ν} {leaves : List (κ × ν)} {k : κ} {ts ts' : List τ}

theorem lookup_setAll_of_not_mem
    (hk : k ∉ leaves.map Prod.fst) : (setAll m leaves).lookup k = m.lookup k := by
  induction leaves generalizing m with
  | nil => rfl
  | cons leaf leaves ih =>
    rw [List.map_cons, List.mem_cons, not_or] at hk
    rw [setAll, List.foldl_cons]
    exact (ih hk.2).trans (Finmap.lookup_insert_of_ne m hk.1)

/-- A key has a leaf when it is set or had one before. -/
theorem lookup_setAll_ne_none_iff :
    (setAll m leaves).lookup k ≠ none ↔ k ∈ leaves.map Prod.fst ∨ m.lookup k ≠ none := by
  induction leaves generalizing m with
  | nil => simp [setAll]
  | cons leaf leaves ih =>
    rw [setAll, List.foldl_cons]
    refine ih.trans ?_
    rw [List.map_cons, List.mem_cons]
    by_cases hk : k = leaf.1
    · rw [hk, Finmap.lookup_insert]
      simp
    · rw [Finmap.lookup_insert_of_ne m hk]
      simp [hk]

/-- What is set does not depend on the map it is set in. -/
theorem lookup_setAll_of_mem (m m' : LeafMap κ ν)
    (hk : k ∈ leaves.map Prod.fst) : (setAll m leaves).lookup k = (setAll m' leaves).lookup k := by
  induction leaves generalizing m m' with
  | nil => cases hk
  | cons leaf leaves ih =>
    by_cases hlater : k ∈ leaves.map Prod.fst
    · exact ih _ _ hlater
    · have hhead : k = leaf.1 := (List.mem_cons.1 hk).resolve_right hlater
      rw [setAll, setAll, List.foldl_cons, List.foldl_cons]
      refine (lookup_setAll_of_not_mem hlater).trans (Eq.trans ?_ (lookup_setAll_of_not_mem hlater).symm)
      rw [hhead, Finmap.lookup_insert, Finmap.lookup_insert]

/-- **The same leaves in two maps** make them equal exactly when they agreed on all other keys. -/
theorem setAll_eq_iff {m' : LeafMap κ ν} :
    setAll m leaves = setAll m' leaves ↔
      ∀ k, k ∉ leaves.map Prod.fst → m.lookup k = m'.lookup k := by
  constructor
  · intro h k hk
    rw [← lookup_setAll_of_not_mem hk, h, lookup_setAll_of_not_mem hk]
  · intro h
    refine Finmap.ext_lookup fun k => ?_
    by_cases hk : k ∈ leaves.map Prod.fst
    · exact lookup_setAll_of_mem m m' hk
    · rw [lookup_setAll_of_not_mem hk, lookup_setAll_of_not_mem hk]
      exact h k hk

/-- What is set hides what was there. -/
theorem lookup_setAll_eq_or (m : LeafMap κ ν) (leaves : List (κ × ν)) (k : κ) :
    (setAll m leaves).lookup k = ((setAll ∅ leaves).lookup k).or (m.lookup k) := by
  by_cases hk : k ∈ leaves.map Prod.fst
  · have hset : (setAll ∅ leaves).lookup k ≠ none := lookup_setAll_ne_none_iff.2 (.inl hk)
    obtain ⟨v, hv⟩ := Option.ne_none_iff_exists'.1 hset
    rw [lookup_setAll_of_mem m ∅ hk, hv]
    rfl
  · have hunset : (setAll ∅ leaves).lookup k = none :=
      (lookup_setAll_of_not_mem hk).trans (Finmap.lookup_empty k)
    rw [lookup_setAll_of_not_mem hk, hunset, Option.none_or]

/-- Setting leaves changes nothing exactly when what is set was there. -/
theorem setAll_eq_self_iff :
    setAll m leaves = m ↔ ∀ k v, (setAll ∅ leaves).lookup k = some v → m.lookup k = some v := by
  constructor
  · intro h k v hv
    rw [← h, lookup_setAll_eq_or, hv]
    rfl
  · intro h
    refine Finmap.ext_lookup fun k => ?_
    rw [lookup_setAll_eq_or]
    cases hv : (setAll ∅ leaves).lookup k with
    | none => exact Option.none_or
    | some v => exact (h k v hv).symm

/-- Leaves that a function gives for names, under different keys. -/
theorem lookup_setAll_map {key : τ → κ} (hkey : Function.Injective key) (value : τ → ν) {t : τ}
    (ht : t ∈ ts) (m : LeafMap κ ν) :
    (setAll m (ts.map fun t => (key t, value t))).lookup (key t) = some (value t) := by
  induction ts generalizing m with
  | nil => cases ht
  | cons t' ts ih =>
    rw [List.map_cons, setAll, List.foldl_cons]
    by_cases hlater : t ∈ ts
    · exact ih hlater _
    · have hhead : t = t' := (List.mem_cons.1 ht).resolve_right hlater
      refine (lookup_setAll_of_not_mem ?_).trans ?_
      · rw [List.map_map, List.mem_map]
        rintro ⟨t'', hmem, hsame⟩
        exact hlater (hkey hsame ▸ hmem)
      · rw [hhead, Finmap.lookup_insert]

theorem setAll_append (m : LeafMap κ ν) (leaves leaves' : List (κ × ν)) :
    setAll m (leaves ++ leaves') = setAll (setAll m leaves) leaves' := List.foldl_append

/-- Leaves under different keys may be set in any order. -/
theorem setAll_perm (m : LeafMap κ ν) {leaves' : List (κ × ν)} (hperm : leaves.Perm leaves')
    (hkeys : (leaves.map Prod.fst).Nodup) : setAll m leaves = setAll m leaves' := by
  induction hperm generalizing m with
  | nil => rfl
  | cons leaf _ ih => exact ih _ (List.nodup_cons.1 hkeys).2
  | swap leaf leaf' rest =>
    have hne : leaf'.1 ≠ leaf.1 := by
      intro heq
      rw [List.map_cons, List.map_cons, heq] at hkeys
      exact (List.nodup_cons.1 hkeys).1 List.mem_cons_self
    have hswap : (m.insert leaf'.1 leaf'.2).insert leaf.1 leaf.2
        = (m.insert leaf.1 leaf.2).insert leaf'.1 leaf'.2 := Finmap.insert_insert_of_ne m hne
    exact congrArg (fun m => setAll m rest) hswap
  | trans hfirst _ ih ih' =>
    have hkeys' := ((hfirst.map Prod.fst).nodup_iff).1 hkeys
    exact (ih m hkeys).trans (ih' m hkeys')

/-! ## The entries of a map -/

/-- The entries of the map are those of the relation. -/
def Holds (m : LeafMap κ ν) (R : κ → ν → Prop) : Prop := ∀ k v, m.lookup k = some v ↔ R k v

/-- A key is bound to what the last of its leaves sets. -/
theorem exists_lookup_setAll (hk : k ∈ leaves.map Prod.fst)
    (m : LeafMap κ ν) : ∃ v, (k, v) ∈ leaves ∧ (setAll m leaves).lookup k = some v := by
  induction leaves generalizing m with
  | nil => cases hk
  | cons leaf leaves ih =>
    rw [setAll, List.foldl_cons]
    by_cases hlater : k ∈ leaves.map Prod.fst
    · obtain ⟨v, hmem, hlookup⟩ := ih hlater (m.insert leaf.1 leaf.2)
      exact ⟨v, List.mem_cons_of_mem _ hmem, hlookup⟩
    · have hhead : k = leaf.1 := (List.mem_cons.1 hk).resolve_right hlater
      refine ⟨leaf.2, hhead ▸ List.mem_cons_self, ?_⟩
      refine (lookup_setAll_of_not_mem hlater).trans ?_
      rw [hhead, Finmap.lookup_insert]

/-- Where the entries change they are set, so the map follows: `m₁` may have had other leaves of
the same keys set in it before. -/
theorem Holds.setAll {m₁ : LeafMap κ ν} {R R' : κ → ν → Prop}
    (h : m.Holds R) (hsame : ∀ k, k ∉ leaves.map Prod.fst → m₁.lookup k = m.lookup k)
    (hunset : ∀ k v, k ∉ leaves.map Prod.fst → (R' k v ↔ R k v))
    (hset : ∀ leaf ∈ leaves, R' leaf.1 leaf.2)
    (hone : ∀ k v v', R' k v → R' k v' → v = v') : (LeafMap.setAll m₁ leaves).Holds R' := by
  intro k v
  by_cases hk : k ∈ leaves.map Prod.fst
  · obtain ⟨v', hmem, hlookup⟩ := exists_lookup_setAll hk m₁
    have hv' : R' k v' := hset _ hmem
    rw [hlookup, Option.some.injEq]
    exact ⟨fun heq => heq ▸ hv', fun hv => hone k v' v hv' hv⟩
  · rw [lookup_setAll_of_not_mem hk, hsame k hk, hunset k v hk]
    exact h k v

/-! ## A family of maps -/

section Forest

variable (leaves : τ → Option (List (κ × ν)))

/-- The maps of the names in the list get their leaves, in this order; there is no result when the
leaves of one of them cannot be had. -/
def updateEach : List τ → (τ → LeafMap κ ν) → Option (τ → LeafMap κ ν)
  | [], f => some f
  | t :: ts, f => (leaves t).bind fun ls => updateEach ts (Function.update f t (setAll (f t) ls))

/-- The order does not matter: every name in the list gets its leaves. -/
theorem updateEach_eq_some_iff (hts : ts.Nodup) {f f' : τ → LeafMap κ ν} :
    updateEach leaves ts f = some f' ↔
      (∀ t ∈ ts, ∃ ls, leaves t = some ls ∧ f' t = setAll (f t) ls) ∧ ∀ t, t ∉ ts → f' t = f t := by
  induction ts generalizing f with
  | nil =>
    rw [updateEach, Option.some.injEq]
    constructor
    · rintro rfl
      exact ⟨fun t ht => (nomatch ht), fun _ _ => rfl⟩
    · intro h
      funext t
      exact (h.2 t List.not_mem_nil).symm
  | cons t ts ih =>
    rw [List.nodup_cons] at hts
    rw [updateEach, Option.bind_eq_some_iff]
    constructor
    · rintro ⟨ls, hls, hrest⟩
      obtain ⟨hin, hout⟩ := (ih hts.2).1 hrest
      refine ⟨fun t' ht' => ?_, fun t' ht' => ?_⟩
      · rcases List.mem_cons.1 ht' with rfl | hmem
        · refine ⟨ls, hls, ?_⟩
          rw [hout t' hts.1, Function.update_self]
        · obtain ⟨ls', hls', hf'⟩ := hin t' hmem
          have hne : t' ≠ t := fun h => hts.1 (h ▸ hmem)
          refine ⟨ls', hls', ?_⟩
          rw [hf', Function.update_of_ne hne]
      · rw [List.mem_cons, not_or] at ht'
        rw [hout t' ht'.2, Function.update_of_ne ht'.1]
    · rintro ⟨hin, hout⟩
      obtain ⟨ls, hls, hf'⟩ := hin t List.mem_cons_self
      refine ⟨ls, hls, (ih hts.2).2 ⟨fun t' ht' => ?_, fun t' ht' => ?_⟩⟩
      · obtain ⟨ls', hls', hf''⟩ := hin t' (List.mem_cons_of_mem _ ht')
        have hne : t' ≠ t := fun h => hts.1 (h ▸ ht')
        refine ⟨ls', hls', ?_⟩
        rw [hf'', Function.update_of_ne hne]
      · by_cases heq : t' = t
        · rw [heq, hf', Function.update_self]
        · rw [Function.update_of_ne heq]
          exact hout t' fun hmem => (List.mem_cons.1 hmem).elim heq ht'

theorem exists_updateEach_of_leaves (ts : List τ) (f : τ → LeafMap κ ν)
    (h : ∀ t ∈ ts, ∃ ls, leaves t = some ls) : ∃ f', updateEach leaves ts f = some f' := by
  induction ts generalizing f with
  | nil => exact ⟨f, rfl⟩
  | cons t ts ih =>
    obtain ⟨ls, hls⟩ := h t List.mem_cons_self
    rw [updateEach, hls]
    exact ih _ fun t' ht' => h t' (List.mem_cons_of_mem _ ht')

/-- Leaves that do the same to every map do the same to the family, in whatever order. -/
theorem updateEach_of_setAll_eq {leaves leaves' : τ → Option (List (κ × ν))} (hts : ts.Nodup)
    (hts' : ts'.Nodup) (hperm : ts.Perm ts') {f f' : τ → LeafMap κ ν}
    (hleaves : ∀ t ls, leaves t = some ls → ∃ ls', leaves' t = some ls' ∧ setAll (f t) ls' = setAll
      (f t) ls) (h : updateEach leaves ts f = some f') : updateEach leaves' ts' f = some f' := by
  obtain ⟨hin, hout⟩ := (updateEach_eq_some_iff leaves hts).1 h
  refine (updateEach_eq_some_iff leaves' hts').2 ⟨fun t ht => ?_, fun t ht => ?_⟩
  · obtain ⟨ls, hls, hf'⟩ := hin t (hperm.mem_iff.2 ht)
    obtain ⟨ls', hls', hsame⟩ := hleaves t ls hls
    exact ⟨ls', hls', hf'.trans hsame.symm⟩
  · exact hout t fun hmem => ht (hperm.mem_iff.1 hmem)

end Forest

/-- The two families agree outside of `D`. -/
def AgreeOff (D : Set (τ × κ)) (f g : τ → LeafMap κ ν) : Prop :=
  ∀ t k, (t, k) ∉ D → (f t).lookup k = (g t).lookup k

/-- The keys that get a leaf. -/
def keysOf (leaves : τ → Option (List (κ × ν))) : Set (τ × κ) :=
  {p | ∃ ls, leaves p.1 = some ls ∧ p.2 ∈ ls.map Prod.fst}

omit [DecidableEq τ] [DecidableEq κ] in
theorem mem_keysOf_iff {leaves : τ → Option (List (κ × ν))} {t : τ} {ls : List (κ × ν)}
    (h : leaves t = some ls) {k : κ} : (t, k) ∈ keysOf leaves ↔ k ∈ ls.map Prod.fst := by
  refine ⟨fun ⟨ls', hls', hmem⟩ => ?_, fun hmem => ⟨ls, h, hmem⟩⟩
  exact Option.some.inj (hls'.symm.trans h) ▸ hmem

section AgreeOff

variable {D : Set (τ × κ)} {f f' g g' : τ → LeafMap κ ν} {leaves : τ → Option (List (κ × ν))}

/-- Updating one family adds the keys to where they may differ. -/
theorem AgreeOff.update_left (h : AgreeOff D f g) (hts : ts.Nodup)
    (hf : updateEach leaves ts f = some f') : AgreeOff (D ∪ keysOf leaves) f' g := by
  obtain ⟨hin, hout⟩ := (updateEach_eq_some_iff leaves hts).1 hf
  intro t k hk
  rw [Set.mem_union, not_or] at hk
  by_cases ht : t ∈ ts
  · obtain ⟨ls, hls, hf'⟩ := hin t ht
    rw [hf', lookup_setAll_of_not_mem fun hmem => hk.2 ⟨ls, hls, hmem⟩]
    exact h t k hk.1
  · rw [hout t ht]
    exact h t k hk.1

/-- Updating both with the same leaves, in whatever orders, removes the keys. -/
theorem AgreeOff.update_both (h : AgreeOff D f g) (hts : ts.Nodup) (hts' : ts'.Nodup)
    (hall : ∀ t, t ∈ ts) (hall' : ∀ t, t ∈ ts') (hf : updateEach leaves ts f = some f')
    (hg : updateEach leaves ts' g = some g') : AgreeOff (D \ keysOf leaves) f' g' := by
  obtain ⟨hinf, -⟩ := (updateEach_eq_some_iff leaves hts).1 hf
  obtain ⟨hing, -⟩ := (updateEach_eq_some_iff leaves hts').1 hg
  intro t k hk
  obtain ⟨ls, hls, hf'⟩ := hinf t (hall t)
  obtain ⟨ls', hls', hg'⟩ := hing t (hall' t)
  have hsame : ls' = ls := Option.some.inj (hls'.symm.trans hls)
  rw [hf', hg', hsame]
  by_cases hmem : k ∈ ls.map Prod.fst
  · exact lookup_setAll_of_mem _ _ hmem
  · rw [lookup_setAll_of_not_mem hmem, lookup_setAll_of_not_mem hmem]
    exact h t k fun hD => hk ⟨hD, fun hkey => hmem ((mem_keysOf_iff hls).1 hkey)⟩

/-- The same leaves in two families make them equal exactly when they agreed elsewhere. -/
theorem updateEach_eq_iff (hts : ts.Nodup) (hts' : ts'.Nodup) (hall : ∀ t, t ∈ ts)
    (hall' : ∀ t, t ∈ ts') (hf : updateEach leaves ts f = some f')
    (hg : updateEach leaves ts' g = some g') : f' = g' ↔ AgreeOff (keysOf leaves) f g := by
  obtain ⟨hinf, -⟩ := (updateEach_eq_some_iff leaves hts).1 hf
  obtain ⟨hing, -⟩ := (updateEach_eq_some_iff leaves hts').1 hg
  have hsame : ∀ t, f' t = g' t ↔ ∀ k, (t, k) ∉ keysOf leaves → (f t).lookup k = (g t).lookup k := by
    intro t
    obtain ⟨ls, hls, hf'⟩ := hinf t (hall t)
    obtain ⟨ls', hls', hg'⟩ := hing t (hall' t)
    have hls_eq : ls' = ls := Option.some.inj (hls'.symm.trans hls)
    rw [hf', hg', hls_eq, setAll_eq_iff]
    exact forall_congr' fun k => by rw [mem_keysOf_iff hls]
  rw [funext_iff]
  exact forall_congr' hsame

end AgreeOff

end LeafMap
