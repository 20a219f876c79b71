import Mathlib.Data.String.Basic
import Pocket.Model.Validators

/-!
# Validator ids are a canonical numbering

Nodes compute the ids of the validators of a height each for itself.  For validators with distinct
addresses the two id maps are inverse to each other, they number the addresses in their order with
`1..n`, and neither they nor the map of validators depend on the order in which the validators came.
-/

set_option autoImplicit false

namespace Pocket.Analysis

open Pocket.Model

variable {validators other : List Actor} {addr addr' : String} {id id' : ℕ}

theorem sortedLE_sortedAddresses : (sortedAddresses validators).SortedLE :=
  List.sortedLE_insertionSort

/-! ## From ids to addresses -/

theorem idToValAddrMap_eq_some_iff :
    (newActorMapper validators).idToValAddrMap id = some addr
      ↔ 0 < id ∧ (sortedAddresses validators)[id - 1]? = some addr := by
  by_cases hid : id = 0
  · simp [newActorMapper, hid]
  · simp [newActorMapper, hid, Nat.pos_of_ne_zero hid]

theorem exists_idToValAddrMap_iff :
    (∃ addr, (newActorMapper validators).idToValAddrMap id = some addr)
      ↔ 1 ≤ id ∧ id ≤ validators.length := by
  have hlength : (sortedAddresses validators).length = validators.length := by
    simp [sortedAddresses]
  simp only [idToValAddrMap_eq_some_iff]
  rw [exists_and_left, ← Option.isSome_iff_exists, Option.isSome_iff_ne_none, ne_eq,
    List.getElem?_eq_none_iff, hlength]
  omega

/-- Greater ids belong to greater addresses. -/
theorem addr_lt_of_id_lt (hdistinct : (validators.map Actor.address).Nodup)
    (h : (newActorMapper validators).idToValAddrMap id = some addr)
    (h' : (newActorMapper validators).idToValAddrMap id' = some addr') (hlt : id < id') :
    addr < addr' := by
  have hsorted := sortedLE_sortedAddresses.sortedLT_of_nodup (sortedAddresses_nodup hdistinct)
  obtain ⟨hpos, hget⟩ := idToValAddrMap_eq_some_iff.mp h
  obtain ⟨-, hget'⟩ := idToValAddrMap_eq_some_iff.mp h'
  obtain ⟨hbound, rfl⟩ := List.getElem?_eq_some_iff.mp hget
  obtain ⟨hbound', rfl⟩ := List.getElem?_eq_some_iff.mp hget'
  exact hsorted.getElem_lt_getElem_of_lt (by omega)

/-! ## From addresses to ids -/

/-- An address has an id exactly if it is that of a validator. -/
theorem exists_valAddrToIdMap_iff :
    (∃ id, (newActorMapper validators).valAddrToIdMap addr = some id)
      ↔ addr ∈ validators.map Actor.address := by
  rw [← Option.isSome_iff_exists, newActorMapper, Option.isSome_map, List.find?_isSome,
    ← List.mem_insertionSort (· ≤ ·)]
  constructor
  · rintro ⟨⟨a, i⟩, hmem, ha⟩
    have hget := List.mem_zipIdx_iff_getElem?.mp (List.mem_reverse.mp hmem)
    rw [← beq_iff_eq.mp ha]
    exact List.mem_of_getElem? hget
  · intro h
    obtain ⟨i, hget⟩ := List.mem_iff_getElem?.mp h
    exact ⟨(addr, i), List.mem_reverse.mpr (List.mem_zipIdx_iff_getElem?.mpr hget), by simp⟩

theorem valAddrToIdMap_eq_some_iff (hdistinct : (validators.map Actor.address).Nodup) :
    (newActorMapper validators).valAddrToIdMap addr = some id
      ↔ (newActorMapper validators).idToValAddrMap id = some addr := by
  refine ⟨idToValAddrMap_of_valAddrToIdMap, fun h => ?_⟩
  have hsorted := List.mem_of_getElem? (idToValAddrMap_eq_some_iff.mp h).2
  rw [sortedAddresses, List.mem_insertionSort] at hsorted
  obtain ⟨id', hid'⟩ := exists_valAddrToIdMap_iff.mpr hsorted
  rwa [id_eq_of_idToValAddrMap hdistinct h (idToValAddrMap_of_valAddrToIdMap hid')]

theorem validatorMap_eq_some_iff (hdistinct : (validators.map Actor.address).Nodup) {v : Actor} :
    (newActorMapper validators).validatorMap addr = some v
      ↔ v ∈ validators ∧ v.address = addr := by
  refine ⟨validatorMap_mem, ?_⟩
  rintro ⟨hv, rfl⟩
  obtain ⟨w, hw⟩ := exists_validatorMap (List.mem_map_of_mem hv)
  obtain ⟨hmem, haddr⟩ := validatorMap_mem hw
  rwa [List.inj_on_of_nodup_map hdistinct hmem hv haddr] at hw

/-! ## The order of the validators -/

theorem newActorMapper_of_perm (hdistinct : (validators.map Actor.address).Nodup)
    (hperm : other.Perm validators) : newActorMapper other = newActorMapper validators := by
  have haddresses := hperm.map Actor.address
  have hsorted : sortedAddresses other = sortedAddresses validators := by
    apply List.Perm.eq_of_sortedLE sortedLE_sortedAddresses sortedLE_sortedAddresses
    exact (List.perm_insertionSort _ _).trans (haddresses.trans (List.perm_insertionSort _ _).symm)
  have hvalidators : (newActorMapper other).validatorMap = (newActorMapper validators).validatorMap := by
    funext addr
    apply Option.ext
    intro v
    rw [validatorMap_eq_some_iff (haddresses.nodup_iff.mpr hdistinct),
      validatorMap_eq_some_iff hdistinct, hperm.mem_iff]
  simp only [newActorMapper, ActorMapper.mk.injEq] at hvalidators ⊢
  exact ⟨by rw [hsorted], by rw [hsorted], hvalidators⟩

/-- **Validator ids are a canonical numbering.** -/
theorem newActorMapper_canonical (hdistinct : (validators.map Actor.address).Nodup) :
    -- inverse to each other
    (∀ addr id, (newActorMapper validators).valAddrToIdMap addr = some id
      ↔ (newActorMapper validators).idToValAddrMap id = some addr)
    -- from all addresses, to all of `1..n`
    ∧ (∀ addr, (∃ id, (newActorMapper validators).valAddrToIdMap addr = some id)
      ↔ addr ∈ validators.map Actor.address)
    ∧ (∀ id, (∃ addr, (newActorMapper validators).idToValAddrMap id = some addr)
      ↔ 1 ≤ id ∧ id ≤ validators.length)
    ∧ (∀ addr addr' id id', (newActorMapper validators).valAddrToIdMap addr = some id →
      (newActorMapper validators).valAddrToIdMap addr' = some id' → (id < id' ↔ addr < addr'))
    ∧ (∀ addr v, (newActorMapper validators).validatorMap addr = some v
      ↔ v ∈ validators ∧ v.address = addr)
    ∧ ∀ other : List Actor, other.Perm validators →
      newActorMapper other = newActorMapper validators := by
  refine ⟨fun _ _ => valAddrToIdMap_eq_some_iff hdistinct, fun _ => exists_valAddrToIdMap_iff,
    fun _ => exists_idToValAddrMap_iff, ?_, fun _ _ => validatorMap_eq_some_iff hdistinct,
    fun _ hperm => newActorMapper_of_perm hdistinct hperm⟩
  intro addr addr' id id' h h'
  have hid := idToValAddrMap_of_valAddrToIdMap h
  have hid' := idToValAddrMap_of_valAddrToIdMap h'
  refine ⟨addr_lt_of_id_lt hdistinct hid hid', fun hlt => ?_⟩
  rcases lt_trichotomy id id' with hcase | rfl | hcase
  · exact hcase
  · rw [hid] at hid'
    exact absurd hlt (Option.some.inj hid' ▸ lt_irrefl _)
  · exact absurd hlt (addr_lt_of_id_lt hdistinct hid' hid hcase).asymm

theorem newActorMapper_canonical_four :
    newActorMapper fourValidators.reverse = newActorMapper fourValidators :=
  (@newActorMapper_canonical fourValidators (by decide)).2.2.2.2.2 _
    fourValidators.reverse_perm

end Pocket.Analysis
