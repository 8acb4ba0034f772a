import Mathlib.Data.List.AList

/-!
# Hash maps

A hash map is an association list with distinct keys. The order in which its values are
walked is not part of it: a walk order is any permutation, supplied by whoever iterates,
and may differ from one iteration to the next.
-/

namespace Netmux

/-- A hash map from `κ` to `ν`. -/
abbrev Table (κ ν : Type) := AList fun _ : κ => ν

variable {κ ν : Type}

/-- The values of a map, in the order of its list. -/
def Table.values (t : Table κ ν) : List ν := t.entries.map Sigma.snd

/-- A value occurs exactly when some key is mapped to it. -/
theorem Table.mem_values [DecidableEq κ] {t : Table κ ν} {v : ν} :
    v ∈ t.values ↔ ∃ k, t.lookup k = some v := by
  simp only [Table.values, List.mem_map]
  constructor
  · rintro ⟨⟨k, w⟩, hmem, rfl⟩
    exact ⟨k, AList.mem_lookup_iff.mpr hmem⟩
  · rintro ⟨k, hk⟩
    exact ⟨⟨k, v⟩, AList.mem_lookup_iff.mp hk, rfl⟩

/-- Lookup behind an insertion. -/
theorem Table.lookup_insert_eq [DecidableEq κ] (t : Table κ ν) (k k' : κ) (v : ν) :
    (t.insert k v).lookup k' = if k' = k then some v else t.lookup k' := by
  split
  · rename_i h
    subst h
    exact AList.lookup_insert t
  · rename_i h
    exact AList.lookup_insert_ne h

/-- The order in which one iteration walks the values of a map. -/
structure WalkOrder (ν : Type) where
  walk : List ν → List ν
  perm : ∀ vs, (walk vs).Perm vs

namespace WalkOrder

/-- The order of the list itself. -/
def listed : WalkOrder ν := ⟨id, fun vs => List.Perm.refl vs⟩

/-- A scan only finds values of the map that pass the test. -/
theorem find?_some (order : WalkOrder ν) {vs : List ν} {p : ν → Bool} {v : ν}
    (h : (order.walk vs).find? p = some v) : v ∈ vs ∧ p v = true :=
  ⟨(order.perm vs).mem_iff.mp (List.mem_of_find?_eq_some h), List.find?_some h⟩

/-- In every order a scan finds something when a value passes the test. -/
theorem find?_of_mem (order : WalkOrder ν) {vs : List ν} {p : ν → Bool} {v : ν} (hv : v ∈ vs)
    (hp : p v = true) : ∃ w, (order.walk vs).find? p = some w := by
  have hsome : ((order.walk vs).find? p).isSome = true :=
    List.find?_isSome.mpr ⟨v, (order.perm vs).mem_iff.mpr hv, hp⟩
  exact Option.isSome_iff_exists.mp hsome

/-- The order that walks one given value first. -/
def first [DecidableEq ν] (v : ν) : WalkOrder ν :=
  ⟨fun vs => if v ∈ vs then v :: vs.erase v else vs, fun vs => by
    split
    · rename_i h
      exact (List.perm_cons_erase h).symm
    · exact List.Perm.refl vs⟩

/-- A passing value is found when the walk starts with it. -/
theorem find?_first [DecidableEq ν] {vs : List ν} {p : ν → Bool} {v : ν} (hv : v ∈ vs)
    (hp : p v = true) : ((first v).walk vs).find? p = some v := by
  simp only [first, if_pos hv, List.find?_cons, hp]

end WalkOrder

end Netmux
