import Mathlib.Data.List.Perm.Basic
import Mathlib.Data.List.Sort
import Mathlib.Data.List.Dedup
import Pocket.Library.VersionedTable

/-!
# The newest row of each key

`SELECT DISTINCT ON (key) … WHERE height<=h ORDER BY key, height DESC`: for each key that has a row at `h`
or below, the newest of these rows, in the order of the keys.  That order is the collation of
the server, which is a linear order.  The rows that are selected depend on nothing above `h`, not even on where
the rows are stored (`distinctOn_eq`).
-/

set_option autoImplicit false

namespace VersionedTable

/-- An order in which a server sorts. -/
structure Collation (κ : Type) where
  le : κ → κ → Bool
  trans : ∀ a b c, le a b = true → le b c = true → le a c = true
  total : ∀ a b, (le a b || le b a) = true
  antisymm : ∀ a b, le a b = true → le b a = true → a = b

namespace Table

variable {κ η ν : Type} [DecidableEq κ] [LinearOrder η]

/-- The keys that have a row at the height `h` or below. -/
def keysUpTo (t : Table κ η ν) (h : η) : List κ :=
  ((t.rows.filter fun r => r.height ≤ h).map Row.key).dedup

def distinctOn (C : Collation κ) (t : Table κ η ν) (h : η) : List (Row κ η ν) :=
  ((t.keysUpTo h).insertionSort fun k k' => C.le k k').filterMap fun k => t.latest k h

variable {t : Table κ η ν} {h : η} {k : κ} {r : Row κ η ν} {C : Collation κ}

theorem mem_keysUpTo :
    k ∈ t.keysUpTo h ↔ ∃ r ∈ t.rows, r.height ≤ h ∧ r.key = k := by
  simp [keysUpTo, and_assoc]

theorem height_le_of_mem_distinctOn (hr : r ∈ t.distinctOn C h) : r.height ≤ h := by
  obtain ⟨k, -, hlatest⟩ := List.mem_filterMap.1 hr
  exact (latest_eq_some_iff.1 hlatest).2.2.1

theorem key_of_latest (hr : t.latest k h = some r) : r.key = k :=
  (latest_eq_some_iff.1 hr).2.1

/-- A reader at the height of the row that is newest reads the same row. -/
theorem latest_height (hr : t.latest k h = some r) : t.latest k r.height = some r := by
  obtain ⟨hmem, hkey, hle, hmax⟩ := latest_eq_some_iff.1 hr
  exact latest_eq_some_iff.2 ⟨hmem, hkey, le_rfl, fun r' hr' hkey' hle' => hle'⟩

theorem exists_latest (hr : r ∈ t.rows)
    (hkey : r.key = k) (hle : r.height ≤ h) : ∃ newest, t.latest k h = some newest := by
  refine Option.isSome_iff_exists.1 (newest_isSome (List.mem_filter.2 ⟨hr, ?_⟩))
  exact decide_eq_true ⟨hkey, hle⟩

/-- The keys of the rows that are selected are sorted, each once. -/
theorem keys_distinctOn (C : Collation κ) (t : Table κ η ν) (h : η) :
    (t.distinctOn C h).map Row.key = (t.keysUpTo h).insertionSort fun k k' => C.le k k' := by
  rw [distinctOn, List.map_filterMap]
  refine (List.filterMap_congr fun k hk => ?_).trans (List.filterMap_some)
  obtain ⟨r, hr, hle, hkey⟩ := mem_keysUpTo.1 ((List.mem_insertionSort _).1 hk)
  obtain ⟨newest, hnewest⟩ := exists_latest hr hkey hle
  rw [hnewest, Option.map_some, key_of_latest hnewest]

theorem nodup_keys_distinctOn (C : Collation κ) (t : Table κ η ν) (h : η) :
    ((t.distinctOn C h).map Row.key).Nodup := by
  rw [keys_distinctOn]
  exact (List.perm_insertionSort _ _).nodup_iff.2 (List.nodup_dedup _)

theorem mem_distinctOn : r ∈ t.distinctOn C h ↔ t.latest r.key h = some r := by
  constructor
  · intro hr
    obtain ⟨k, -, hlatest⟩ := List.mem_filterMap.1 hr
    rwa [key_of_latest hlatest]
  · intro hlatest
    obtain ⟨hr, -, hle, -⟩ := latest_eq_some_iff.1 hlatest
    refine List.mem_filterMap.2 ⟨r.key, (List.mem_insertionSort _).2 ?_, hlatest⟩
    exact mem_keysUpTo.2 ⟨r, hr, hle, rfl⟩

omit [DecidableEq κ] in
/-- Two lists without repetitions that have the same members are sorted into one list. -/
theorem insertionSort_eq_of_mem_iff (C : Collation κ) {l l' : List κ} (hl : l.Nodup) (hl' : l'.Nodup)
    (hmem : ∀ k, k ∈ l ↔ k ∈ l') :
    l.insertionSort (fun k k' => C.le k k') = l'.insertionSort fun k k' => C.le k k' := by
  have : Std.Total fun k k' => C.le k k' = true := ⟨fun a b => by simpa using C.total a b⟩
  have : IsTrans κ fun k k' => C.le k k' = true := ⟨C.trans⟩
  have hperm := ((List.perm_insertionSort (fun k k' => C.le k k') l).trans
    ((List.perm_ext_iff_of_nodup hl hl').2 hmem)).trans
    (List.perm_insertionSort (fun k k' => C.le k k') l').symm
  refine hperm.eq_of_pairwise (fun a b _ _ hab hba => C.antisymm a b hab hba) ?_ ?_
  · exact List.pairwise_insertionSort _ l
  · exact List.pairwise_insertionSort _ l'

/-- What is selected at a height depends on the rows up to that height only. -/
theorem SameUpTo.distinctOn_eq {t' : Table κ η ν} (hsame : t.SameUpTo h t')
    (C : Collation κ) : t'.distinctOn C h = t.distinctOn C h := by
  have hmem : ∀ k, k ∈ t'.keysUpTo h ↔ k ∈ t.keysUpTo h := by
    intro k
    rw [mem_keysUpTo, mem_keysUpTo]
    refine exists_congr fun r => ?_
    constructor
    · rintro ⟨hr, hle, hkey⟩
      exact ⟨(hsame r hle).1 hr, hle, hkey⟩
    · rintro ⟨hr, hle, hkey⟩
      exact ⟨(hsame r hle).2 hr, hle, hkey⟩
  have hkeys := insertionSort_eq_of_mem_iff C (List.nodup_dedup _) (List.nodup_dedup _) hmem
  rw [distinctOn, distinctOn, keysUpTo, keysUpTo, hkeys]
  exact List.filterMap_congr fun k _ => hsame.latest_eq le_rfl k

end Table

end VersionedTable
