import Pocket.Model.Types

/-!
# Validator ids and leader election

`NewActorMapper` numbers the validators of a height in address order, starting at one.
Leader election is a round robin over these ids, driven by the height, round *and step*
of the message that triggers it; its arithmetic is on `int64`, with Go's truncating `%`.
-/

set_option autoImplicit false

namespace Pocket.Model

/-- SOURCE: consensus/types/actor_mapper.go:9-13 -/
structure ActorMapper where
  valAddrToIdMap : String → Option ℕ
  idToValAddrMap : ℕ → Option String
  validatorMap : String → Option Actor

/-- `sort.Strings` of the validators' addresses. -/
def sortedAddresses (validators : List Actor) : List String :=
  (validators.map Actor.address).insertionSort (· ≤ ·)

/-- The three maps of a validator list.  A repeated address keeps the entry written last.
SOURCE: consensus/types/actor_mapper.go:15-37 -/
def newActorMapper (validators : List Actor) : ActorMapper where
  valAddrToIdMap addr :=
    ((sortedAddresses validators).zipIdx.reverse.find? fun p => p.1 == addr).map fun p => p.2 + 1
  idToValAddrMap id := if id = 0 then none else (sortedAddresses validators)[id - 1]?
  validatorMap addr := validators.reverse.find? fun v => v.address == addr

variable {validators : List Actor} {addr : String}

/-- A validator found under an address has that address and is one of the validators. -/
theorem validatorMap_mem {v : Actor} (h : (newActorMapper validators).validatorMap addr = some v) :
    v ∈ validators ∧ v.address = addr := by
  have hmem := List.mem_of_find?_eq_some h
  have hp := List.find?_some h
  exact ⟨List.mem_reverse.mp hmem, by simpa using hp⟩

/-- An id that is found for an address belongs to it. -/
theorem idToValAddrMap_of_valAddrToIdMap {id : ℕ}
    (h : (newActorMapper validators).valAddrToIdMap addr = some id) :
    (newActorMapper validators).idToValAddrMap id = some addr := by
  obtain ⟨⟨a, i⟩, hfind, rfl⟩ := Option.map_eq_some_iff.mp h
  have hmem := List.mem_reverse.mp (List.mem_of_find?_eq_some hfind)
  have haddr : a = addr := by simpa using List.find?_some hfind
  subst haddr
  have hsorted : (sortedAddresses validators)[i]? = some a :=
    List.mem_zipIdx_iff_getElem?.mp hmem
  simpa [newActorMapper] using hsorted

theorem sortedAddresses_nodup
    (h : (validators.map Actor.address).Nodup) : (sortedAddresses validators).Nodup :=
  (List.perm_insertionSort _ _).nodup_iff.mpr h

/-- Distinct addresses have distinct ids. -/
theorem id_eq_of_idToValAddrMap (hdistinct : (validators.map Actor.address).Nodup) {id id' : ℕ}
    (h : (newActorMapper validators).idToValAddrMap id = some addr)
    (h' : (newActorMapper validators).idToValAddrMap id' = some addr) : id = id' := by
  simp only [newActorMapper] at h h'
  split at h
  · simp at h
  split at h'
  · simp at h'
  obtain ⟨hlt, hget⟩ := List.getElem?_eq_some_iff.mp h
  obtain ⟨hlt', hget'⟩ := List.getElem?_eq_some_iff.mp h'
  have hindex : id - 1 = id' - 1 :=
    (sortedAddresses_nodup hdistinct).getElem_inj_iff.mp (hget.trans hget'.symm)
  omega

/-- A validator is found under its address. -/
theorem exists_validatorMap (h : addr ∈ validators.map Actor.address) :
    ∃ v, (newActorMapper validators).validatorMap addr = some v := by
  obtain ⟨v, hv, rfl⟩ := List.mem_map.mp h
  apply Option.isSome_iff_exists.mp
  rw [newActorMapper, List.find?_isSome]
  exact ⟨v, List.mem_reverse.mpr hv, by simp⟩

/-- `int64` wrap-around. -/
def int64 (x : ℤ) : ℤ := Int.bmod x (2 ^ 64)

theorem int64_eq_self {x : ℤ} (hlow : -2 ^ 63 ≤ x) (hhigh : x < 2 ^ 63) : int64 x = x := by
  apply Int.bmod_eq_of_le
  · omega
  · omega

/-- The elected id; `none` is the panic of a division by zero.
SOURCE: consensus/leader_election/module.go:48-65 -/
def electNextLeaderDeterministicRoundRobin (vals : List Actor) (msg : HotstuffMessage) :
    Option ℕ :=
  let value := int64 (msg.height + msg.round + msg.step - 1)
  if vals.length = 0 then none
  else some ((Int.tmod value vals.length + 1) % 2 ^ 64).toNat

/-- Four validators, for concrete runs. -/
def fourValidators : List Actor :=
  [{ address := "a1", publicKey := "k1" }, { address := "a2", publicKey := "k2" },
   { address := "a3", publicKey := "k3" }, { address := "a4", publicKey := "k4" }]

end Pocket.Model
