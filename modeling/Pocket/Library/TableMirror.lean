import Pocket.Library.LeafMap
import Pocket.Library.VersionedTable

/-!
# Maps that follow a table

A map has a leaf for every key of a versioned table, under the path of the key and with the value
of its latest row.  It is kept up to date height by height: after the writes at a height, the
leaves of the rows at that height are set, and this may have been done before in between.  The map
then is the one that would be built from the latest rows (`holds_latestLeaf`).
-/

set_option autoImplicit false

namespace TableMirror

open VersionedTable

variable {κ η ω π : Type} {path : κ → Option π} {K : κ → Prop} {t t' : Table κ η ω} {h h' : η}
  {p : π}

/-- The leaves of the rows at the height. -/
def LeafAt (path : κ → Option π) (t : Table κ η ω) (h : η) (p : π) (v : ω) : Prop :=
  ∃ row ∈ t.rows, row.height = h ∧ path row.key = some p ∧ row.value = v

/-- Different keys of the table have different paths. -/
def Separates (path : κ → Option π) (t : Table κ η ω) : Prop :=
  ∀ row ∈ t.rows, ∀ row' ∈ t.rows, ∀ p, path row.key = some p → path row'.key = some p →
    row.key = row'.key

/-- A path with a leaf at the height keeps one as more is written. -/
theorem exists_leafAt_of_writtenAt (hw : Table.WrittenAt K h t t') {v : ω}
    (hleaf : LeafAt path t h p v) : ∃ v', LeafAt path t' h p v' := by
  obtain ⟨row, hrow, hheight, hpath, -⟩ := hleaf
  obtain ⟨row', hrow', hslot⟩ := hw.slots row hrow
  have hkey : row'.key = row.key := congrArg Prod.fst hslot
  have hheight' : row'.height = row.height := congrArg Prod.snd hslot
  exact ⟨row'.value, row', hrow', hheight'.trans hheight, hkey ▸ hpath, rfl⟩

variable [LinearOrder η] [DecidableEq κ]

/-- The leaves of the latest rows at the height. -/
def LatestLeaf (path : κ → Option π) (t : Table κ η ω) (h : η) (p : π) (v : ω) : Prop :=
  ∃ row, t.latest row.key h = some row ∧ path row.key = some p ∧ row.value = v

theorem latestLeaf_of_leafAt {v : ω} (hleaf : LeafAt path t h p v) : LatestLeaf path t h p v := by
  obtain ⟨row, hrow, hheight, hpath, hvalue⟩ := hleaf
  refine ⟨row, Table.latest_eq_some_iff.2 ⟨hrow, rfl, hheight.le, fun row' _ _ hle => ?_⟩, hpath,
    hvalue⟩
  rw [hheight]
  exact hle

theorem latestLeaf_unique (hpaths : Separates path t) {v v' : ω} (hleaf : LatestLeaf path t h p v)
    (hleaf' : LatestLeaf path t h p v') : v = v' := by
  obtain ⟨row, hlatest, hpath, rfl⟩ := hleaf
  obtain ⟨row', hlatest', hpath', rfl⟩ := hleaf'
  have hmem := (Table.latest_eq_some_iff.1 hlatest).1
  have hmem' := (Table.latest_eq_some_iff.1 hlatest').1
  rw [hpaths row hmem row' hmem' p hpath hpath', hlatest'] at hlatest
  rw [Option.some.inj hlatest]

/-- Where nothing was written at the new height, the latest rows are those from before. -/
theorem latestLeaf_iff_of_writtenAt (hw : Table.WrittenAt K h' t t') (ht : t.UpTo h) (hlt : h < h')
    (hnone : ∀ v, ¬ LeafAt path t' h' p v) (v : ω) :
    LatestLeaf path t' h' p v ↔ LatestLeaf path t h p v := by
  have hold : ∀ row ∈ t'.rows, path row.key = some p → row.height ≠ h' := by
    intro row hrow hpath hheight
    exact hnone row.value ⟨row, hrow, hheight, hpath, rfl⟩
  constructor
  · rintro ⟨row, hlatest, hpath, hvalue⟩
    obtain ⟨hrow, -, -, hmax⟩ := Table.latest_eq_some_iff.1 hlatest
    have hrow' : row ∈ t.rows := (hw.others row (hold row hrow hpath)).1 hrow
    refine ⟨row, Table.latest_eq_some_iff.2 ⟨hrow', rfl, ht row hrow', fun r hr hkey hle => ?_⟩,
      hpath, hvalue⟩
    have hbelow : r.height < h' := hle.trans_lt hlt
    exact hmax r ((hw.others r hbelow.ne).2 hr) hkey hbelow.le
  · rintro ⟨row, hlatest, hpath, hvalue⟩
    obtain ⟨hrow, -, hle, hmax⟩ := Table.latest_eq_some_iff.1 hlatest
    have hbelow : row.height < h' := hle.trans_lt hlt
    have hrow' : row ∈ t'.rows := (hw.others row hbelow.ne).2 hrow
    refine ⟨row, Table.latest_eq_some_iff.2 ⟨hrow', rfl, hbelow.le, fun r hr hkey _ => ?_⟩, hpath,
      hvalue⟩
    have hr' : r ∈ t.rows := (hw.others r (hold r hr (hkey ▸ hpath))).1 hr
    exact hmax r hr' hkey (ht r hr')

/-- **The map follows the table**: it held the latest rows at `h`, and after the writes at `h'` the
leaves of the rows at `h'` are set in it. -/
theorem holds_latestLeaf [DecidableEq π] {tree tree₁ : LeafMap π ω} {leaves : List (π × ω)}
    (htree : tree.Holds (LatestLeaf path t h)) (hw : Table.WrittenAt K h' t t') (ht : t.UpTo h)
    (hlt : h < h') (hpaths : Separates path t')
    (hleaves : ∀ p v, (p, v) ∈ leaves ↔ LeafAt path t' h' p v)
    (hsame : ∀ p, (∀ v, ¬ LeafAt path t' h' p v) → tree₁.lookup p = tree.lookup p) :
    (LeafMap.setAll tree₁ leaves).Holds (LatestLeaf path t' h') := by
  have hunset : ∀ p, p ∉ leaves.map Prod.fst → ∀ v, ¬ LeafAt path t' h' p v := by
    intro p hp v hleaf
    exact hp (List.mem_map.2 ⟨(p, v), (hleaves p v).2 hleaf, rfl⟩)
  refine htree.setAll (fun p hp => hsame p (hunset p hp)) (fun p v hp => ?_) ?_ ?_
  · exact latestLeaf_iff_of_writtenAt hw ht hlt (hunset p hp) v
  · intro leaf hleaf
    exact latestLeaf_of_leafAt ((hleaves leaf.1 leaf.2).1 hleaf)
  · intro p v v' hv hv'
    exact latestLeaf_unique hpaths hv hv'

end TableMirror
