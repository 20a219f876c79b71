import Mathlib.Algebra.BigOperators.Group.Finset.Basic
import Mathlib.Algebra.Ring.Int.Defs
import Mathlib.Data.List.Nodup

/-!
# Tables that keep every version of a row

A table whose rows carry the height they were written at, with at most one row for a key
at a height.  A reader at height `h` sees, for each key, the newest row at or below `h`; a
writer at height `h` replaces the row it wrote there before and leaves the older versions
alone.

Writes at one height leave what is read below it alone, and the rows at all other heights
(`WrittenAt`).

A table of integers is a ledger: a key without a row counts as `0`, and the total over all keys
moves by exactly what one write changes.  Amounts that are added to a ledger in two orders leave
the same rows behind, those written last in two orders (`reordered_addAll`).
-/

set_option autoImplicit false

namespace VersionedTable

structure Row (κ η ν : Type) where
  key : κ
  height : η
  value : ν
deriving DecidableEq, Repr

variable {κ η ν : Type}

/-- What the uniqueness constraint of a table is about. -/
def Row.slot (r : Row κ η ν) : κ × η := (r.key, r.height)

structure Table (κ η ν : Type) where
  rows : List (Row κ η ν)
  unique : (rows.map Row.slot).Nodup

namespace Table

def empty : Table κ η ν := ⟨[], List.nodup_nil⟩

variable {r' r : Row κ η ν} {K' K : κ → Prop} {t t' : Table κ η ν} {h h' : η} {k k' : κ}

/-- Two rows of one key and one height are one row. -/
theorem row_eq_of_slot_eq (hr : r ∈ t.rows) (hr' : r' ∈ t.rows) (h : r.slot = r'.slot) : r = r' :=
  List.inj_on_of_nodup_map t.unique hr hr' h

section Reading

variable [LinearOrder η]

/-- The row of greatest height. -/
def newest : List (Row κ η ν) → Option (Row κ η ν)
  | [] => none
  | r :: rs =>
    match newest rs with
    | none => some r
    | some best => if best.height < r.height then some r else some best

variable {rs : List (Row κ η ν)}

theorem newest_mem (h : newest rs = some r) : r ∈ rs := by
  induction rs with
  | nil => simp [newest] at h
  | cons r₀ rs ih =>
    rw [newest] at h
    cases hrest : newest rs with
    | none => simp_all
    | some best =>
      simp only [hrest] at h
      split at h
      · simp_all
      · exact List.mem_cons_of_mem _ (ih (hrest.trans h))

theorem height_le_of_newest (h : newest rs = some r) (hr' : r' ∈ rs) : r'.height ≤ r.height := by
  induction rs generalizing r with
  | nil => cases hr'
  | cons r₀ rs ih =>
    rw [newest] at h
    cases hrest : newest rs with
    | none =>
      have hnil : rs = [] := by
        cases rs with
        | nil => rfl
        | cons r₁ rs =>
          rw [newest] at hrest
          split at hrest
          · cases hrest
          · split at hrest <;> cases hrest
      rw [hrest, Option.some.injEq] at h
      rw [hnil, List.mem_singleton] at hr'
      rw [hr', h]
    | some best =>
      simp only [hrest] at h
      rcases List.mem_cons.1 hr' with rfl | hmem
      · split at h
        · next hlt => exact le_of_eq (congrArg Row.height (Option.some.inj h))
        · next hnot => exact Option.some.inj h ▸ not_lt.1 hnot
      · have hbest : r'.height ≤ best.height := ih hrest hmem
        split at h
        · next hlt => exact Option.some.inj h ▸ hbest.trans hlt.le
        · exact Option.some.inj h ▸ hbest

theorem newest_isSome (h : r ∈ rs) : (newest rs).isSome := by
  cases rs with
  | nil => cases h
  | cons r₀ rs =>
    rw [newest]
    split
    · rfl
    · split <;> rfl

/-- A row above all the others is the newest, wherever it was written. -/
theorem newest_concat (h : ∀ old ∈ rs, old.height < r.height) : newest (rs ++ [r]) = some r := by
  induction rs with
  | nil => rfl
  | cons r₀ rs ih =>
    have hrest : newest (rs ++ [r]) = some r := ih fun old hold => h old (List.mem_cons_of_mem _ hold)
    have hnot : ¬ r.height < r₀.height := (h r₀ List.mem_cons_self).asymm
    simp only [List.cons_append, newest, hrest, if_neg hnot]

/-- No row was written above the height `h`. -/
def UpTo (t : Table κ η ν) (h : η) : Prop := ∀ r ∈ t.rows, r.height ≤ h

theorem UpTo.mono (ht : t.UpTo h) (hle : h ≤ h') : t.UpTo h' :=
  fun r hr => (ht r hr).trans hle

variable [DecidableEq κ]

/-- The row a reader at height `h` sees for the key `k`. -/
def latest (t : Table κ η ν) (k : κ) (h : η) : Option (Row κ η ν) :=
  newest (t.rows.filter fun r => r.key = k ∧ r.height ≤ h)

def lookup (t : Table κ η ν) (k : κ) (h : η) : Option ν :=
  (t.latest k h).map Row.value

theorem latest_eq_some_iff :
    t.latest k h = some r ↔ r ∈ t.rows ∧ r.key = k ∧ r.height ≤ h ∧
      ∀ r' ∈ t.rows, r'.key = k → r'.height ≤ h → r'.height ≤ r.height := by
  have hmem : ∀ r', r' ∈ t.rows.filter (fun r => r.key = k ∧ r.height ≤ h) ↔
      r' ∈ t.rows ∧ r'.key = k ∧ r'.height ≤ h := by
    intro r'
    rw [List.mem_filter, decide_eq_true_iff]
  constructor
  · intro hlatest
    obtain ⟨hr, hkey, hle⟩ := (hmem r).1 (newest_mem hlatest)
    refine ⟨hr, hkey, hle, fun r' hr' hkey' hle' => ?_⟩
    exact height_le_of_newest hlatest ((hmem r').2 ⟨hr', hkey', hle'⟩)
  · rintro ⟨hr, hkey, hle, hmax⟩
    have hin := (hmem r).2 ⟨hr, hkey, hle⟩
    obtain ⟨best, hbest⟩ := Option.isSome_iff_exists.1 (newest_isSome hin)
    obtain ⟨hbr, hbkey, hble⟩ := (hmem best).1 (newest_mem hbest)
    have hheight : best.height = r.height :=
      le_antisymm (hmax best hbr hbkey hble) (height_le_of_newest hbest hin)
    have hslot : best.slot = r.slot := by rw [Row.slot, Row.slot, hbkey, hkey, hheight]
    rw [latest, hbest, row_eq_of_slot_eq hbr hr hslot]

/-- The rows of a key decide what is read for it. -/
theorem lookup_eq_of_filter_eq
    (h : t'.rows.filter (fun r => r.key = k) = t.rows.filter fun r => r.key = k) (height : η) :
    t'.lookup k height = t.lookup k height := by
  have hsplit : ∀ rs : List (Row κ η ν), rs.filter (fun r => r.key = k ∧ r.height ≤ height)
      = (rs.filter fun r => r.key = k).filter fun r => r.height ≤ height := by
    intro rs
    rw [List.filter_filter]
    refine List.filter_congr fun r _ => ?_
    simp [Bool.and_comm]
  rw [lookup, lookup, latest, latest, hsplit, hsplit, h]

/-- What is read stays the same until something is written. -/
theorem UpTo.lookup_eq (ht : t.UpTo h) (hle : h ≤ h') (k : κ) : t.lookup k h' = t.lookup k h := by
  have hsame : t.rows.filter (fun r => r.key = k ∧ r.height ≤ h')
      = t.rows.filter (fun r => r.key = k ∧ r.height ≤ h) := by
    refine List.filter_congr fun r hr => ?_
    have hr' : r.height ≤ h := ht r hr
    simp [hr', hr'.trans hle]
  rw [lookup, latest, hsame]
  rfl

theorem lookup_eq_none_of_not_mem (hk : k ∉ t.rows.map Row.key) : t.lookup k h = none := by
  have hnone : t.rows.filter (fun r => r.key = k ∧ r.height ≤ h) = [] := by
    rw [List.filter_eq_nil_iff]
    intro r hr
    have hne : r.key ≠ k := fun heq => hk (heq ▸ List.mem_map_of_mem hr)
    simp [hne]
  rw [lookup, latest, hnone]
  rfl

end Reading

section Writing

variable [DecidableEq κ] [DecidableEq η]

/-- The rows that a write of the key `k` at height `h` leaves as they are. -/
def others (t : Table κ η ν) (k : κ) (h : η) : List (Row κ η ν) :=
  t.rows.filter fun r => r.slot ≠ (k, h)

theorem mem_others : r ∈ t.others k h ↔ r ∈ t.rows ∧ r.slot ≠ (k, h) := by
  simp [others]

/-- `INSERT … ON CONFLICT (key, height) DO UPDATE`. -/
def upsert (t : Table κ η ν) (k : κ) (h : η) (v : ν) : Table κ η ν where
  rows := t.others k h ++ [⟨k, h, v⟩]
  unique := by
    rw [List.map_append, List.nodup_append']
    refine ⟨t.unique.sublist (List.filter_sublist.map _), List.nodup_singleton _, ?_⟩
    intro slot hslot hnew
    obtain ⟨r, hr, rfl⟩ := List.mem_map.1 hslot
    exact (mem_others.1 hr).2 (List.mem_singleton.1 hnew)

/-- The value written at exactly this height, the one an upsert runs into. -/
def written (t : Table κ η ν) (k : κ) (h : η) : Option ν :=
  (t.rows.find? fun r => r.slot = (k, h)).map Row.value

theorem keys_upsert {v : ν} (hk : k' ∈ (t.upsert k h v).rows.map Row.key) :
    k' = k ∨ k' ∈ t.rows.map Row.key := by
  simp only [upsert, List.map_append, List.mem_append, List.map_cons, List.map_nil,
    List.mem_singleton] at hk
  rcases hk with hold | hnew
  · obtain ⟨r, hr, rfl⟩ := List.mem_map.1 hold
    exact .inr (List.mem_map_of_mem (mem_others.1 hr).1)
  · exact .inl hnew

/-- A write leaves the rows of every other key as they are. -/
theorem filter_upsert_ne (t : Table κ η ν) (h : η) (v : ν) (hne : k' ≠ k) :
    (t.upsert k h v).rows.filter (fun r => r.key = k') = t.rows.filter fun r => r.key = k' := by
  have hnew : ¬ k = k' := hne.symm
  simp only [upsert, others, List.filter_append, List.filter_filter]
  rw [List.filter_cons_of_neg (by simpa using hnew), List.filter_nil, List.append_nil]
  refine List.filter_congr fun r _ => ?_
  by_cases hkey : r.key = k'
  · have hslot : r.slot ≠ (k, h) := fun heq => hne (hkey.symm.trans (congrArg Prod.fst heq))
    simp [hkey, hslot]
  · simp [hkey]

end Writing

section ReadAfterWrite

variable [DecidableEq κ] [LinearOrder η]

@[simp] theorem latest_upsert_self (t : Table κ η ν) (k : κ) (h : η) (v : ν) :
    (t.upsert k h v).latest k h = some ⟨k, h, v⟩ := by
  have hbelow : ∀ old ∈ (t.others k h).filter (fun r => r.key = k ∧ r.height ≤ h),
      old.height < h := by
    intro old hold
    obtain ⟨hmem, hrange⟩ := List.mem_filter.1 hold
    obtain ⟨hkey, hle⟩ := of_decide_eq_true hrange
    have hslot : old.slot ≠ (k, h) := (mem_others.1 hmem).2
    exact lt_of_le_of_ne hle fun heq => hslot (by rw [Row.slot, hkey, heq])
  have hnew : [(⟨k, h, v⟩ : Row κ η ν)].filter (fun r => r.key = k ∧ r.height ≤ h)
      = [⟨k, h, v⟩] := by simp
  rw [latest, upsert, List.filter_append, hnew, newest_concat hbelow]

@[simp] theorem latest_upsert_ne (t : Table κ η ν) (h h' : η) (v : ν) (hne : k' ≠ k) :
    (t.upsert k h v).latest k' h' = t.latest k' h' := by
  have hold : (t.others k h).filter (fun r => r.key = k' ∧ r.height ≤ h')
      = t.rows.filter (fun r => r.key = k' ∧ r.height ≤ h') := by
    rw [others, List.filter_filter]
    refine List.filter_congr fun r _ => ?_
    by_cases hkey : r.key = k'
    · have hslot : r.slot ≠ (k, h) := fun heq => hne (hkey ▸ congrArg Prod.fst heq)
      simp [hslot]
    · simp [hkey]
  have hnew : [(⟨k, h, v⟩ : Row κ η ν)].filter (fun r => r.key = k' ∧ r.height ≤ h') = [] := by
    simp [hne.symm]
  rw [latest, upsert, List.filter_append, hold, hnew, List.append_nil, latest]

@[simp] theorem lookup_upsert_self (t : Table κ η ν) (k : κ) (h : η) (v : ν) :
    (t.upsert k h v).lookup k h = some v := by
  rw [lookup, latest_upsert_self, Option.map_some]

@[simp] theorem lookup_upsert_ne (t : Table κ η ν) (h h' : η) (v : ν) (hne : k' ≠ k) :
    (t.upsert k h v).lookup k' h' = t.lookup k' h' := by
  rw [lookup, latest_upsert_ne t h h' v hne, lookup]

theorem UpTo.upsert (ht : t.UpTo h) (k : κ) (v : ν) : (t.upsert k h v).UpTo h := by
  intro r hr
  rcases List.mem_append.1 hr with hold | hnew
  · exact ht r (mem_others.1 hold).1
  · exact le_of_eq (congrArg Row.height (List.mem_singleton.1 hnew))

theorem lookup_upsert (t : Table κ η ν) (k k' : κ) (h : η) (v : ν) :
    (t.upsert k h v).lookup k' h = if k' = k then some v else t.lookup k' h := by
  by_cases hkey : k' = k
  · rw [if_pos hkey, hkey, lookup_upsert_self]
  · rw [if_neg hkey, lookup_upsert_ne _ _ _ _ hkey]

/-- A write leaves what was written under other keys as it is. -/
theorem written_upsert_ne (t : Table κ η ν) (h : η) (v : ν) (hne : k' ≠ k) :
    (t.upsert k h v).written k' h = t.written k' h := by
  have hother : (t.others k h).find? (fun r => r.slot = (k', h))
      = t.rows.find? (fun r => r.slot = (k', h)) := by
    rw [others, List.find?_filter]
    congr 1
    funext r
    by_cases hslot : r.slot = (k', h)
    · have hnot : r.slot ≠ (k, h) := fun heq => hne (congrArg Prod.fst (hslot.symm.trans heq))
      simp [hslot, hne]
    · simp [hslot]
  have hnew : ([⟨k, h, v⟩] : List (Row κ η ν)).find? (fun r => r.slot = (k', h)) = none := by
    simp [Row.slot, hne.symm]
  rw [written, upsert, List.find?_append, hother, hnew, Option.or_none]
  rfl

/-- The newest row of a key is what an upsert at the top height runs into, if anything. -/
theorem written_getD_of_latest (hlatest : t.latest k h = some r) :
    (t.written k h).getD r.value = r.value := by
  obtain ⟨hr, hkey, hle, hmax⟩ := latest_eq_some_iff.1 hlatest
  rw [written]
  cases hfind : t.rows.find? (fun r => r.slot = (k, h)) with
  | none => rfl
  | some r' =>
    have hslot' : r'.slot = (k, h) := by simpa using List.find?_some hfind
    have hkey' : r'.key = k := congrArg Prod.fst hslot'
    have hheight' : r'.height = h := congrArg Prod.snd hslot'
    have hr' : r' ∈ t.rows := List.mem_of_find?_eq_some hfind
    have hheight : r.height = h :=
      le_antisymm hle (hheight' ▸ hmax r' hr' hkey' hheight'.le)
    have hslot : r.slot = r'.slot := by rw [hslot', Row.slot, hkey, hheight]
    rw [row_eq_of_slot_eq hr hr' hslot]
    rfl

/-- Writing one value under many keys. -/
def upsertAll (t : Table κ η ν) (ks : List κ) (h : η) (v : ν) : Table κ η ν :=
  ks.foldl (fun t k => t.upsert k h v) t

theorem lookup_upsertAll {ks : List κ} {v : ν}
    (hk : k ∈ ks ∨ t.lookup k h = some v) : (t.upsertAll ks h v).lookup k h = some v := by
  induction ks generalizing t with
  | nil => exact hk.resolve_left (by simp)
  | cons k₀ ks ih =>
    refine ih ?_
    by_cases heq : k = k₀
    · exact .inr (by rw [heq, lookup_upsert_self])
    · refine hk.imp (fun hmem => (List.mem_cons.1 hmem).resolve_left heq) fun hold => ?_
      rw [lookup_upsert_ne _ _ _ _ heq, hold]

theorem UpTo.upsertAll (ht : t.UpTo h) (ks : List κ) (v : ν) : (t.upsertAll ks h v).UpTo h := by
  induction ks generalizing t with
  | nil => exact ht
  | cons k ks ih => exact ih (ht.upsert k v)

end ReadAfterWrite

/-! ## Writes at one height -/

section OneHeight

/-- From `t` to `t'` rows were written at the height `h` only, under keys of `K` or keys that were
there, and no row is gone without another in its place. -/
structure WrittenAt (K : κ → Prop) (h : η) (t t' : Table κ η ν) : Prop where
  others : ∀ r : Row κ η ν, r.height ≠ h → (r ∈ t'.rows ↔ r ∈ t.rows)
  slots : ∀ r ∈ t.rows, ∃ r' ∈ t'.rows, r'.slot = r.slot
  keys : ∀ r' ∈ t'.rows, K r'.key ∨ ∃ r ∈ t.rows, r.key = r'.key

theorem WrittenAt.refl (K : κ → Prop) (h : η) (t : Table κ η ν) : WrittenAt K h t t where
  others := fun _ _ => Iff.rfl
  slots := fun r hr => ⟨r, hr, rfl⟩
  keys := fun r hr => .inr ⟨r, hr, rfl⟩

theorem WrittenAt.trans {t'' : Table κ η ν} (hw : WrittenAt K h t t')
    (hw' : WrittenAt K h t' t'') : WrittenAt K h t t'' where
  others := fun r hr => (hw'.others r hr).trans (hw.others r hr)
  slots := by
    intro r hr
    obtain ⟨r', hr', hslot⟩ := hw.slots r hr
    obtain ⟨r'', hr'', hslot'⟩ := hw'.slots r' hr'
    exact ⟨r'', hr'', hslot'.trans hslot⟩
  keys := by
    intro r'' hr''
    rcases hw'.keys r'' hr'' with hK | ⟨r', hr', hkey⟩
    · exact .inl hK
    · rw [← hkey]
      exact hw.keys r' hr'

theorem WrittenAt.mono (hw : WrittenAt K h t t') (hK : ∀ k, K k → K' k) : WrittenAt K' h t t' where
  others := hw.others
  slots := hw.slots
  keys := fun r hr => (hw.keys r hr).imp_left (hK _)

/-- Whatever holds of the keys of `K` and of those that were there holds of all keys. -/
theorem WrittenAt.forall_key {P : κ → Prop} (hw : WrittenAt K h t t') (hK : ∀ k, K k → P k)
    (ht : ∀ r ∈ t.rows, P r.key) : ∀ r ∈ t'.rows, P r.key := by
  intro r hr
  rcases hw.keys r hr with hkey | ⟨r', hr', hkey⟩
  · exact hK _ hkey
  · exact hkey ▸ ht r' hr'

theorem writtenAt_upsert [DecidableEq κ] [DecidableEq η] (hk : K k ∨ ∃ r ∈ t.rows, r.key = k)
    (v : ν) : WrittenAt K h t (t.upsert k h v) where
  others := by
    intro r hr
    have hslot : r.slot ≠ (k, h) := fun heq => hr (congrArg Prod.snd heq)
    have hnew : r ≠ ⟨k, h, v⟩ := fun heq => hr (congrArg Row.height heq)
    simp [upsert, mem_others, hslot, hnew]
  slots := by
    intro r hr
    by_cases hslot : r.slot = (k, h)
    · exact ⟨⟨k, h, v⟩, List.mem_append_right _ List.mem_cons_self, hslot.symm⟩
    · exact ⟨r, List.mem_append_left _ (mem_others.2 ⟨hr, hslot⟩), rfl⟩
  keys := by
    intro r hr
    rcases List.mem_append.1 hr with hold | hnew
    · exact .inr ⟨r, (mem_others.1 hold).1, rfl⟩
    · rw [List.mem_singleton.1 hnew]
      exact hk

variable [LinearOrder η]

theorem WrittenAt.upTo (hw : WrittenAt K h t t') (ht : t.UpTo h) : t'.UpTo h := by
  intro r hr
  by_cases hheight : r.height = h
  · exact hheight.le
  · exact ht r ((hw.others r hheight).1 hr)

/-- The two tables have the same rows at the height `h` and below. -/
def SameUpTo (h : η) (t t' : Table κ η ν) : Prop :=
  ∀ r : Row κ η ν, r.height ≤ h → (r ∈ t'.rows ↔ r ∈ t.rows)

theorem SameUpTo.latest_eq [DecidableEq κ] (hsame : t.SameUpTo h t')
    (hle : h' ≤ h) (k : κ) : t'.latest k h' = t.latest k h' := by
  refine Option.ext fun r => ?_
  rw [latest_eq_some_iff, latest_eq_some_iff]
  constructor
  · rintro ⟨hr, hkey, hle₁, hmax⟩
    exact ⟨(hsame r (hle₁.trans hle)).1 hr, hkey, hle₁,
      fun r' hr' hkey' hle' => hmax r' ((hsame r' (hle'.trans hle)).2 hr') hkey' hle'⟩
  · rintro ⟨hr, hkey, hle₁, hmax⟩
    exact ⟨(hsame r (hle₁.trans hle)).2 hr, hkey, hle₁,
      fun r' hr' hkey' hle' => hmax r' ((hsame r' (hle'.trans hle)).1 hr') hkey' hle'⟩

section

variable (hw : WrittenAt K h t t') (hlt : h' < h)
include hw hlt

theorem WrittenAt.sameUpTo : t.SameUpTo h' t' :=
  fun r hr => hw.others r (hr.trans_lt hlt).ne

/-- A reader below the height of a write does not see it. -/
theorem WrittenAt.latest_eq [DecidableEq κ] (k : κ) : t'.latest k h' = t.latest k h' :=
  (hw.sameUpTo hlt).latest_eq le_rfl k

theorem WrittenAt.lookup_eq [DecidableEq κ] (k : κ) : t'.lookup k h' = t.lookup k h' := by
  rw [lookup, lookup, hw.latest_eq hlt]

end

/-- A reader at or above the height of the last write sees it. -/
theorem UpTo.lookup_upsert [DecidableEq κ] (ht : t.UpTo h) (hle : h ≤ h') (k k' : κ) (v : ν) :
    (t.upsert k h v).lookup k' h' = if k' = k then some v else t.lookup k' h' := by
  rw [(ht.upsert k v).lookup_eq hle, Table.lookup_upsert, ht.lookup_eq hle]

end OneHeight

/-! ## Other values in the same rows -/

section MapRows

variable {ν' : Type}

/-- The rows with other values. -/
def mapRows (f : Row κ η ν → ν') (t : Table κ η ν) : Table κ η ν' where
  rows := t.rows.map fun r => ⟨r.key, r.height, f r⟩
  unique := by
    rw [List.map_map]
    exact t.unique

variable {f : Row κ η ν → ν'} {r : Row κ η ν'}

theorem mem_mapRows :
    r ∈ (t.mapRows f).rows ↔ ∃ row ∈ t.rows, ⟨row.key, row.height, f row⟩ = r := List.mem_map

theorem UpTo.mapRows [LinearOrder η] (ht : t.UpTo h)
    (f : Row κ η ν → ν') : (t.mapRows f).UpTo h := by
  intro r hr
  obtain ⟨row, hrow, rfl⟩ := mem_mapRows.1 hr
  exact ht row hrow

theorem latest_mapRows [DecidableEq κ] [LinearOrder η] :
    (t.mapRows f).latest k h = some r ↔
      ∃ row, t.latest k h = some row ∧ ⟨row.key, row.height, f row⟩ = r := by
  constructor
  · intro hlatest
    obtain ⟨hr, hkey, hle, hmax⟩ := latest_eq_some_iff.1 hlatest
    obtain ⟨row, hrow, rfl⟩ := mem_mapRows.1 hr
    refine ⟨row, latest_eq_some_iff.2 ⟨hrow, hkey, hle, fun row' hrow' => ?_⟩, rfl⟩
    exact hmax _ (mem_mapRows.2 ⟨row', hrow', rfl⟩)
  · rintro ⟨row, hlatest, rfl⟩
    obtain ⟨hrow, hkey, hle, hmax⟩ := latest_eq_some_iff.1 hlatest
    refine latest_eq_some_iff.2 ⟨mem_mapRows.2 ⟨row, hrow, rfl⟩, hkey, hle, fun r' hr' => ?_⟩
    obtain ⟨row', hrow', rfl⟩ := mem_mapRows.1 hr'
    exact hmax row' hrow'

/-- Writes at a height that change the other values at that height only. -/
theorem WrittenAt.mapRows (hw : WrittenAt K h t t') {f' : Row κ η ν → ν'}
    (hf : ∀ r, r.height ≠ h → f' r = f r) :
    WrittenAt K h (t.mapRows f) (t'.mapRows f') where
  others := by
    intro r hr
    rw [mem_mapRows, mem_mapRows]
    constructor
    · rintro ⟨row, hrow, rfl⟩
      exact ⟨row, (hw.others row hr).1 hrow, by rw [hf row hr]⟩
    · rintro ⟨row, hrow, rfl⟩
      exact ⟨row, (hw.others row hr).2 hrow, by rw [hf row hr]⟩
  slots := by
    intro r hr
    obtain ⟨row, hrow, rfl⟩ := mem_mapRows.1 hr
    obtain ⟨row', hrow', hslot⟩ := hw.slots row hrow
    exact ⟨_, mem_mapRows.2 ⟨row', hrow', rfl⟩, hslot⟩
  keys := by
    intro r hr
    obtain ⟨row, hrow, rfl⟩ := mem_mapRows.1 hr
    refine (hw.keys row hrow).imp_right ?_
    rintro ⟨row', hrow', hkey⟩
    exact ⟨_, mem_mapRows.2 ⟨row', hrow', rfl⟩, hkey⟩

end MapRows

/-! ## Tables of integers as ledgers -/

section Ledger

variable [DecidableEq κ] [LinearOrder η]

/-- A key without a row holds nothing. -/
def amount (t : Table κ η ℤ) (k : κ) (h : η) : ℤ := (t.lookup k h).getD 0

def total (t : Table κ η ℤ) (h : η) : ℤ := ∑ k ∈ (t.rows.map Row.key).toFinset, t.amount k h

@[simp] theorem amount_upsert_self (t : Table κ η ℤ) (k : κ) (h : η) (v : ℤ) :
    (t.upsert k h v).amount k h = v := by
  rw [amount, lookup_upsert_self, Option.getD_some]

@[simp] theorem amount_upsert_ne (t : Table κ η ℤ) (h : η) (v : ℤ) (hne : k' ≠ k) :
    (t.upsert k h v).amount k' h = t.amount k' h := by
  rw [amount, lookup_upsert_ne _ _ _ _ hne, amount]

/-- Keys without a row add nothing, so any larger set of keys gives the same total. -/
theorem total_eq_sum {t : Table κ η ℤ} {keys : Finset κ}
    (hsub : (t.rows.map Row.key).toFinset ⊆ keys) : t.total h = ∑ k ∈ keys, t.amount k h := by
  refine Finset.sum_subset hsub fun k _ hk => ?_
  rw [List.mem_toFinset] at hk
  rw [amount, lookup_eq_none_of_not_mem hk, Option.getD_none]

/-- A write moves the total by the change of the one amount it writes. -/
theorem total_upsert (t : Table κ η ℤ) (k : κ) (h : η) (v : ℤ) :
    (t.upsert k h v).total h = t.total h - t.amount k h + v := by
  let keys := insert k (t.rows.map Row.key).toFinset
  have hkeys : k ∈ keys := Finset.mem_insert_self _ _
  have hafter : ((t.upsert k h v).rows.map Row.key).toFinset ⊆ keys := by
    intro k' hk'
    rcases keys_upsert (List.mem_toFinset.1 hk') with heq | hold
    · exact heq ▸ hkeys
    · exact Finset.mem_insert_of_mem (List.mem_toFinset.2 hold)
  have hrest : ∑ k' ∈ keys.erase k, (t.upsert k h v).amount k' h
      = ∑ k' ∈ keys.erase k, t.amount k' h :=
    Finset.sum_congr rfl fun k' hk' => amount_upsert_ne t h v (Finset.ne_of_mem_erase hk')
  rw [total_eq_sum hafter, total_eq_sum (t := t) (Finset.subset_insert k _),
    ← Finset.add_sum_erase _ _ hkeys, ← Finset.add_sum_erase _ _ hkeys, hrest, amount_upsert_self]
  omega

end Ledger

/-! ## Amounts added in any order -/

section Reordering

/-- The same rows, the last of them perhaps in another order; the keys of those satisfy `K`. -/
def Reordered (K : κ → Prop) (t t' : Table κ η ν) : Prop :=
  ∃ front back back', t.rows = front ++ back ∧ t'.rows = front ++ back' ∧ back.Perm back' ∧
    ∀ r ∈ back, K r.key

theorem Reordered.mono (h : Reordered K t t') (hK : ∀ k, K k → K' k) : Reordered K' t t' := by
  obtain ⟨front, back, back', hrows, hrows', hperm, hkeys⟩ := h
  exact ⟨front, back, back', hrows, hrows', hperm, fun r hr => hK r.key (hkeys r hr)⟩

theorem Reordered.rows_perm (h : Reordered K t t') : t.rows.Perm t'.rows := by
  obtain ⟨front, back, back', hrows, hrows', hperm, -⟩ := h
  rw [hrows, hrows']
  exact hperm.append_left front

theorem nodup_of_rows_eq {front back : List (Row κ η ν)} (h : t.rows = front ++ back) :
    (back.map Row.slot).Nodup := by
  have hall := t.unique
  rw [h, List.map_append] at hall
  exact (List.nodup_append.1 hall).2.1

end Reordering

section Adding
variable [DecidableEq κ] [LinearOrder η]

/-- Amounts that are added one after another. -/
def addAll (t : Table κ η ℤ) (h : η) (ops : List (κ × ℤ)) : Table κ η ℤ :=
  ops.foldl (fun t op => t.upsert op.1 h (t.amount op.1 h + op.2)) t

/-- What is added to a key in all. -/
def added (k : κ) (ops : List (κ × ℤ)) : ℤ := ((ops.filter fun op => op.1 = k).map Prod.snd).sum

theorem amount_addAll (t : Table κ η ℤ) (h : η) (ops : List (κ × ℤ)) (k : κ) :
    (t.addAll h ops).amount k h = t.amount k h + added k ops := by
  induction ops generalizing t with
  | nil => simp [addAll, added]
  | cons op ops ih =>
    have hcons : t.addAll h (op :: ops) = (t.upsert op.1 h (t.amount op.1 h + op.2)).addAll h ops := rfl
    rw [hcons, ih]
    by_cases hk : k = op.1
    · rw [hk, amount_upsert_self]
      simp [added]
      omega
    · rw [amount_upsert_ne _ _ _ hk]
      simp [added, Ne.symm hk]

theorem exists_rows_addAll (t : Table κ η ℤ) (h : η) (ops : List (κ × ℤ)) :
    ∃ back, (t.addAll h ops).rows
        = (t.rows.filter fun r => ¬ (r.height = h ∧ r.key ∈ ops.map Prod.fst)) ++ back ∧
      ∀ r, r ∈ back ↔ r.height = h ∧ r.key ∈ ops.map Prod.fst ∧
        r.value = t.amount r.key h + added r.key ops := by
  induction ops using List.reverseRecOn with
  | nil => exact ⟨[], by simp [addAll], by simp⟩
  | append_singleton ops op ih =>
    obtain ⟨back, hrows, hback⟩ := ih
    have hsnoc : t.addAll h (ops ++ [op])
        = (t.addAll h ops).upsert op.1 h ((t.addAll h ops).amount op.1 h + op.2) :=
      List.foldl_concat ..
    have hadded : ∀ k, added k (ops ++ [op]) = added k ops + if k = op.1 then op.2 else 0 := by
      intro k
      by_cases hk : op.1 = k
      · simp [added, hk]
      · simp [added, hk, Ne.symm hk]
    let new : Row κ η ℤ := ⟨op.1, h, (t.addAll h ops).amount op.1 h + op.2⟩
    have hwritten : (t.addAll h (ops ++ [op])).rows = (t.addAll h ops).others op.1 h ++ [new] := by
      rw [hsnoc]
      rfl
    refine ⟨back.filter (fun r => r.slot ≠ (op.1, h)) ++ [new], ?_, ?_⟩
    · rw [hwritten, others, hrows, List.filter_append, List.filter_filter, List.append_assoc]
      congr 1
      refine List.filter_congr fun r _ => ?_
      simp only [Row.slot, List.map_append, List.mem_append]
      grind
    · intro r
      have hnew : r = new ↔ r.key = op.1 ∧ r.height = h ∧
          r.value = t.amount op.1 h + added op.1 ops + op.2 := by
        rw [← amount_addAll]
        cases r
        simp [new]
      rw [List.mem_append, List.mem_filter, hback, List.mem_singleton, hadded, hnew]
      by_cases hh : r.height = h
      · by_cases hk : r.key = op.1
        · simp [hk, hh, Row.slot, add_assoc]
        · simp [hk, hh, Row.slot]
      · simp [hh]

/-- **Adding in another order** writes the same rows. -/
theorem reordered_addAll (t : Table κ η ℤ) (h : η) {ops ops' : List (κ × ℤ)} (hops : ops.Perm ops')
    : Reordered (· ∈ ops.map Prod.fst) (t.addAll h ops) (t.addAll h ops') := by
  obtain ⟨back, hrows, hback⟩ := exists_rows_addAll t h ops
  obtain ⟨back', hrows', hback'⟩ := exists_rows_addAll t h ops'
  have hkeys : ∀ k, k ∈ ops.map Prod.fst ↔ k ∈ ops'.map Prod.fst :=
    fun k => (hops.map Prod.fst).mem_iff
  have hadded : ∀ k, added k ops = added k ops' := fun k => ((hops.filter _).map _).sum_eq
  simp only [← hkeys, ← hadded] at hrows' hback'
  refine ⟨_, back, back', hrows, hrows', ?_, fun r hr => ((hback r).1 hr).2.1⟩
  refine (List.perm_ext_iff_of_nodup (nodup_of_rows_eq hrows).of_map
    (nodup_of_rows_eq hrows').of_map).2 fun r => ?_
  rw [hback, hback']

end Adding
/-! ## Sums over the latest rows -/

section Sums

variable [DecidableEq κ] [LinearOrder η] (w : ν → ℤ)

/-- What the latest row of a key weighs. -/
def weight (t : Table κ η ν) (k : κ) (h : η) : ℤ := ((t.lookup k h).map w).getD 0

/-- The weight of all keys but those in `out`. -/
def sumOutside (t : Table κ η ν) (h : η) (out : Finset κ) : ℤ :=
  ∑ k ∈ (t.rows.map Row.key).toFinset \ out, t.weight w k h

variable {w}

variable {out : Finset κ}

theorem sumOutside_eq_sum {keys : Finset κ} (hsub : (t.rows.map Row.key).toFinset ⊆ keys) :
    t.sumOutside w h out = ∑ k ∈ keys \ out, t.weight w k h := by
  refine Finset.sum_subset (Finset.sdiff_subset_sdiff hsub subset_rfl) fun k hk hnot => ?_
  have hrow : k ∉ t.rows.map Row.key := by
    intro hmem
    exact hnot (Finset.mem_sdiff.2 ⟨List.mem_toFinset.2 hmem, (Finset.mem_sdiff.1 hk).2⟩)
  rw [weight, lookup_eq_none_of_not_mem hrow]
  rfl

/-- A change of the weight of one key changes the sum by as much, if the key counts. -/
theorem sumOutside_of_change (hother : ∀ k' ≠ k, t'.weight w k' h = t.weight w k' h) :
    t'.sumOutside w h out
      = t.sumOutside w h out + if k ∈ out then 0 else t'.weight w k h - t.weight w k h := by
  let keys := insert k ((t.rows.map Row.key).toFinset ∪ (t'.rows.map Row.key).toFinset)
  have hkeys : (t.rows.map Row.key).toFinset ⊆ keys :=
    Finset.subset_union_left.trans (Finset.subset_insert _ _)
  have hkeys' : (t'.rows.map Row.key).toFinset ⊆ keys :=
    Finset.subset_union_right.trans (Finset.subset_insert _ _)
  rw [sumOutside_eq_sum hkeys, sumOutside_eq_sum hkeys']
  by_cases hk : k ∈ out
  · rw [if_pos hk, add_zero]
    refine Finset.sum_congr rfl fun k' hk' => hother k' fun heq => ?_
    exact (Finset.mem_sdiff.1 hk').2 (heq ▸ hk)
  · have hmem : k ∈ keys \ out := Finset.mem_sdiff.2 ⟨Finset.mem_insert_self _ _, hk⟩
    have hrest : ∑ k' ∈ (keys \ out).erase k, t'.weight w k' h
        = ∑ k' ∈ (keys \ out).erase k, t.weight w k' h :=
      Finset.sum_congr rfl fun k' hk' => hother k' (Finset.ne_of_mem_erase hk')
    rw [if_neg hk, ← Finset.add_sum_erase _ _ hmem, ← Finset.add_sum_erase _ _ hmem, hrest]
    omega

theorem sumOutside_congr (hsame : ∀ k, t'.weight w k h = t.weight w k h) :
    t'.sumOutside w h out = t.sumOutside w h out := by
  let keys := (t.rows.map Row.key).toFinset ∪ (t'.rows.map Row.key).toFinset
  have hkeys : (t.rows.map Row.key).toFinset ⊆ keys := Finset.subset_union_left
  have hkeys' : (t'.rows.map Row.key).toFinset ⊆ keys := Finset.subset_union_right
  rw [sumOutside_eq_sum hkeys, sumOutside_eq_sum hkeys']
  exact Finset.sum_congr rfl fun k _ => hsame k

/-- Leaving out more keys takes away what those weigh that still counted. -/
theorem sumOutside_union (out more : Finset κ) :
    t.sumOutside w h (out ∪ more)
      = t.sumOutside w h out - ∑ k ∈ more \ out, t.weight w k h := by
  let keys := (t.rows.map Row.key).toFinset ∪ more
  have hkeys : (t.rows.map Row.key).toFinset ⊆ keys := Finset.subset_union_left
  have hsplit : (keys \ (out ∪ more)) ∪ (more \ out) = keys \ out := by
    ext k
    simp only [keys, Finset.mem_union, Finset.mem_sdiff]
    tauto
  have hdisjoint : Disjoint (keys \ (out ∪ more)) (more \ out) := by
    rw [Finset.disjoint_left]
    intro k hk hk'
    exact (Finset.mem_sdiff.1 hk).2 (Finset.mem_union_right _ (Finset.mem_sdiff.1 hk').1)
  rw [sumOutside_eq_sum hkeys, sumOutside_eq_sum hkeys, ← hsplit, Finset.sum_union hdisjoint]
  omega

end Sums

end Table

end VersionedTable
