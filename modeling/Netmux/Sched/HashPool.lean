import Netmux.Sched.Policy

/-!
# Hash values that no pool tells apart

Two hash values select one interface from every weighted pool exactly when they are equal
or both at most one: the first interface of a pool of several has at least two slots, and
any other two values are separated by a pool of two interfaces.
-/

namespace Netmux

/-- Equal hash values, or two of the values zero and one. -/
def HashTwins (h h' : UInt32) : Prop := h = h' ∨ h.toNat ≤ 1 ∧ h'.toNat ≤ 1

instance (h h' : UInt32) : Decidable (HashTwins h h') := inferInstanceAs (Decidable (_ ∨ _))

/-- Beside another interface every interface has at least two slots. -/
theorem two_le_copies {total weight : Nat} (ht : 2 ≤ total) (hw : 0 < weight) :
    2 ≤ copies total weight := by
  have htotal := min_le_toDouble total
  have hprod := Nat.mul_le_mul_left (toDouble total) hw
  have hproduct := min_le_toDouble (toDouble total * weight)
  have hsum := min_le_toDouble (2 * toDouble (toDouble total * weight) + 1)
  rw [copies]
  omega

theorem length_le_totalWeight (list : List CandidateIface) : list.length ≤ totalWeight list := by
  induction list with
  | nil => simp [totalWeight]
  | cons c list ih =>
    have hc := weight_pos c
    simp only [totalWeight, List.map_cons, List.sum_cons, List.length_cons] at ih ⊢
    omega

/-- Every candidate fills its share of the pool. -/
theorem copies_le_count_poolOf {list : List CandidateIface} {c : CandidateIface} (hc : c ∈ list) :
    copies (totalWeight list) c.weight ≤ (poolOf list).count c := by
  rw [poolOf, (perm_sortByKey _ _).count_eq]
  generalize totalWeight list = total
  obtain ⟨before, after, rfl⟩ := List.append_of_mem hc
  rw [List.flatMap_append, List.flatMap_cons, List.count_append, List.count_append,
    List.count_replicate_self]
  omega

/-- The first two slots of a pool belong to one name. -/
theorem name_poolOf_one {list : List CandidateIface} {c d : CandidateIface}
    (hc : (poolOf list)[0]? = some c)
    (hd : (poolOf list)[1 % (poolOf list).length]? = some d) : c.name = d.name := by
  have hcmem : c ∈ list := mem_poolOf.mp (List.mem_of_getElem? hc)
  have hdmem : d ∈ list := mem_poolOf.mp (List.mem_of_getElem? hd)
  have hpos := List.length_pos_of_mem hcmem
  by_cases hone : list.length < 2
  · obtain ⟨e, rfl⟩ := List.length_eq_one_iff.mp (show list.length = 1 by omega)
    rw [List.mem_singleton.mp hcmem, List.mem_singleton.mp hdmem]
  · have htotal : 2 ≤ totalWeight list :=
      (Nat.le_of_not_lt hone).trans (length_le_totalWeight list)
    have hcopies := two_le_copies htotal (weight_pos c)
    have hcount := hcopies.trans (copies_le_count_poolOf hcmem)
    have hsorted := pairwise_sortByKey CandidateIface.name (list.flatMap fun c =>
      List.replicate (copies (totalWeight list) c.weight) c)
    rw [← poolOf] at hsorted
    generalize poolOf list = pool at hc hd hcount hsorted
    cases pool with
    | nil => exact absurd hc (by simp)
    | cons e rest =>
      obtain rfl := Option.some.inj hc
      rw [List.count_cons_self] at hcount
      have hrest : e ∈ rest := List.count_pos_iff.mp (by omega)
      cases rest with
      | nil => exact absurd hrest List.not_mem_nil
      | cons f rest =>
        have hmod : 1 % (e :: f :: rest).length = 1 := Nat.mod_eq_of_lt (by simp)
        rw [hmod] at hd
        obtain rfl := Option.some.inj hd
        rw [List.pairwise_cons, List.pairwise_cons] at hsorted
        refine le_antisymm (hsorted.1 f List.mem_cons_self) ?_
        rcases List.mem_cons.mp hrest with rfl | hrest
        · exact le_rfl
        · exact hsorted.2.1 e hrest

/-! ## A separating pool -/

/-- A usable candidate of the given name and weight. -/
def weighted (name : String) (weight : UInt32) : CandidateIface :=
  ⟨name, .ethernet, ⟨30, weight, true⟩, 0, 0, true⟩

/-- Two interfaces, the first of which owns the slots below `h`. -/
def separating (h : UInt32) : List CandidateIface := [weighted "eth0" 1, weighted "wlan0" (h - 1)]

private theorem weight_weighted {name : String} {weight : UInt32} (h : 1 ≤ weight) :
    (weighted name weight).weight = weight.toNat := by
  have hmax : max weight 1 = weight := by
    simp only [Max.max]
    split
    · rename_i hle
      exact UInt32.le_antisymm h hle
    · rfl
  rw [CandidateIface.weight, weighted, hmax]

private theorem copies_one {total : Nat} (h : total < 2 ^ 32) (hpos : 0 < total) :
    copies total 1 = total := by
  have hdouble : toDouble total = total := toDouble_of_lt (by omega)
  rw [copies, hdouble, Nat.mul_one, hdouble, toDouble_of_lt (by omega)]
  omega

/-- The slots of the separating pool. -/
theorem poolOf_separating {h : UInt32} (hh : 2 ≤ h.toNat) :
    ∃ n, 0 < n ∧ poolOf (separating h) =
      List.replicate h.toNat (weighted "eth0" 1) ++
        List.replicate n (weighted "wlan0" (h - 1)) := by
  have hone : 1 ≤ h := UInt32.le_iff_toNat_le.mpr (by simp; omega)
  have hsub : (h - 1).toNat = h.toNat - 1 := UInt32.toNat_sub_of_le h 1 hone
  have hweight : (weighted "wlan0" (h - 1)).weight = h.toNat - 1 := by
    rw [weight_weighted (UInt32.le_iff_toNat_le.mpr (by rw [hsub]; simp; omega)), hsub]
  have hfirst : (weighted "eth0" 1).weight = 1 := weight_weighted (UInt32.le_refl 1)
  have htotal : totalWeight (separating h) = h.toNat := by
    simp only [totalWeight, separating, List.map_cons, List.map_nil, List.sum_cons, List.sum_nil,
      hweight, hfirst]
    omega
  have hlt := h.toNat_lt
  refine ⟨copies h.toNat (h.toNat - 1), copies_pos _ _, ?_⟩
  have hslots : ((separating h).flatMap fun c => List.replicate (copies h.toNat c.weight) c) =
      List.replicate h.toNat (weighted "eth0" 1) ++
        List.replicate (copies h.toNat (h.toNat - 1)) (weighted "wlan0" (h - 1)) := by
    simp only [separating, List.flatMap_cons, List.flatMap_nil, List.append_nil, hweight, hfirst,
      copies_one hlt (by omega)]
  rw [poolOf, htotal, hslots, sortByKey]
  refine List.Pairwise.insertionSort_eq (List.pairwise_append.mpr ⟨?_, ?_, ?_⟩)
  · exact List.pairwise_replicate.mpr (.inr le_rfl)
  · exact List.pairwise_replicate.mpr (.inr le_rfl)
  · intro c hc d hd
    rw [List.eq_of_mem_replicate hc, List.eq_of_mem_replicate hd]
    exact (by decide : "eth0" ≤ "wlan0")

/-- A usable list whose pool sends two hash values to different names. -/
def Separates (list : List CandidateIface) (h h' : UInt32) : Prop :=
  usableOf list = list ∧ totalWeight list < 2 ^ 64 ∧
    ∃ c d, (poolOf list)[h.toNat % (poolOf list).length]? = some c ∧
      (poolOf list)[h'.toNat % (poolOf list).length]? = some d ∧ c.name ≠ d.name

private theorem separates_of_lt {h h' : UInt32} (hlt : h.toNat < h'.toNat) (hh : 2 ≤ h'.toNat) :
    Separates (separating h') h h' := by
  obtain ⟨n, hn, hpool⟩ := poolOf_separating hh
  have hlength : (poolOf (separating h')).length = h'.toNat + n := by
    rw [hpool, List.length_append, List.length_replicate, List.length_replicate]
  have hweight := totalWeight_le (separating h')
  have htwo : (separating h').length = 2 := rfl
  refine ⟨rfl, by omega, weighted "eth0" 1, weighted "wlan0" (h' - 1), ?_, ?_, by
    simp [weighted]⟩
  · rw [hlength, Nat.mod_eq_of_lt (by omega), hpool,
      List.getElem?_append_left (by rw [List.length_replicate]; exact hlt),
      List.getElem?_replicate, if_pos hlt]
  · rw [hlength, Nat.mod_eq_of_lt (by omega), hpool,
      List.getElem?_append_right (by rw [List.length_replicate]), List.length_replicate,
      Nat.sub_self, List.getElem?_replicate, if_pos hn]

/-- Every two hash values that are no twins are separated by a pool. -/
theorem exists_separates {h h' : UInt32} (hnot : ¬ HashTwins h h') :
    ∃ list, Separates list h h' := by
  rw [HashTwins, not_or, not_and_or] at hnot
  rcases lt_or_gt_of_ne (fun heq => hnot.1 (UInt32.toNat_inj.mp heq)) with hlt | hgt
  · exact ⟨_, separates_of_lt hlt (by omega)⟩
  · obtain ⟨husable, hweight, c, d, hc, hd, hne⟩ := separates_of_lt hgt (by omega)
    exact ⟨_, husable, hweight, d, c, hd, hc, hne.symm⟩

/-- Twins select one name from every pool. -/
theorem HashTwins.name_eq {h h' : UInt32} (htwins : HashTwins h h') {list : List CandidateIface}
    {c d : CandidateIface} (hc : (poolOf list)[h.toNat % (poolOf list).length]? = some c)
    (hd : (poolOf list)[h'.toNat % (poolOf list).length]? = some d) : c.name = d.name := by
  rcases htwins with rfl | ⟨hh, hh'⟩
  · rw [Option.some.inj (hc.symm.trans hd)]
  · have hzero {c : CandidateIface} (h : (poolOf list)[0 % (poolOf list).length]? = some c) :
        (poolOf list)[0]? = some c := by
      rw [Nat.zero_mod] at h
      exact h
    rcases (by omega : h.toNat = 0 ∨ h.toNat = 1) with h0 | h1 <;>
      rcases (by omega : h'.toNat = 0 ∨ h'.toNat = 1) with h0' | h1'
    · rw [h0] at hc
      rw [h0'] at hd
      rw [Option.some.inj (hc.symm.trans hd)]
    · rw [h0] at hc
      rw [h1'] at hd
      exact name_poolOf_one (hzero hc) hd
    · rw [h1] at hc
      rw [h0'] at hd
      exact (name_poolOf_one (hzero hd) hc).symm
    · rw [h1] at hc
      rw [h1'] at hd
      rw [Option.some.inj (hc.symm.trans hd)]

end Netmux
