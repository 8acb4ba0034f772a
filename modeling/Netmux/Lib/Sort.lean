import Mathlib.Data.List.Sort

/-!
# Stable sorting by a key

The sorted list of keys depends only on the multiset of keys, and the first element of a
stable sort is the first one of least key.
-/

namespace Netmux

variable {α κ : Type} [LinearOrder κ]

/-- Stable sort by a key. -/
def sortByKey (key : α → κ) (l : List α) : List α := l.insertionSort fun a b => key a ≤ key b

theorem perm_sortByKey (key : α → κ) (l : List α) : (sortByKey key l).Perm l :=
  List.perm_insertionSort _ l

@[simp] theorem mem_sortByKey {key : α → κ} {l : List α} {a : α} :
    a ∈ sortByKey key l ↔ a ∈ l :=
  (perm_sortByKey key l).mem_iff

@[simp] theorem length_sortByKey (key : α → κ) (l : List α) :
    (sortByKey key l).length = l.length :=
  (perm_sortByKey key l).length_eq

theorem pairwise_sortByKey (key : α → κ) (l : List α) :
    (sortByKey key l).Pairwise fun a b => key a ≤ key b := by
  have htotal : Std.Total fun a b => key a ≤ key b := ⟨fun a b => le_total (key a) (key b)⟩
  have htrans : IsTrans α fun a b => key a ≤ key b := ⟨fun _ _ _ => le_trans⟩
  exact List.pairwise_insertionSort _ l

/-- The keys of a sorted list are determined by the multiset of keys. -/
theorem map_sortByKey_congr {β : Type} {key : α → κ} {key' : β → κ} {l : List α} {l' : List β}
    (h : (l.map key).Perm (l'.map key')) :
    (sortByKey key l).map key = (sortByKey key' l').map key' := by
  have hleft := List.pairwise_map.mpr (pairwise_sortByKey key l)
  have hright := List.pairwise_map.mpr (pairwise_sortByKey key' l')
  refine List.Perm.eq_of_pairwise' hleft hright ?_
  exact ((perm_sortByKey key l).map key).trans (h.trans ((perm_sortByKey key' l').map key').symm)

/-- Sorted by distinct keys, a list is determined by its elements. -/
theorem sortByKey_eq_of_perm {key : α → κ} {l l' : List α} (h : l.Perm l')
    (hnodup : (l.map key).Nodup) : sortByKey key l = sortByKey key l' := by
  have hsorted : (sortByKey key l).Perm (sortByKey key l') :=
    (perm_sortByKey key l).trans (h.trans (perm_sortByKey key l').symm)
  refine List.Perm.eq_of_pairwise ?_ (pairwise_sortByKey key l) (pairwise_sortByKey key l') hsorted
  intro a b ha hb hle hge
  have hb' : b ∈ l := h.mem_iff.mpr (mem_sortByKey.mp hb)
  exact List.inj_on_of_nodup_map hnodup (mem_sortByKey.mp ha) hb' (le_antisymm hle hge)

/-- The first element of least key. -/
def FirstLeast (key : α → κ) (l : List α) (a : α) : Prop :=
  ∃ before after, l = before ++ a :: after ∧ (∀ b ∈ before, key a < key b) ∧
    ∀ b ∈ after, key a ≤ key b

/-- All elements of least key, in their order. -/
def leasts (key : α → κ) (l : List α) : List α := l.filter fun a => ∀ b ∈ l, key a ≤ key b

theorem mem_leasts {key : α → κ} {l : List α} {a : α} :
    a ∈ leasts key l ↔ a ∈ l ∧ ∀ b ∈ l, key a ≤ key b := by
  rw [leasts, List.mem_filter, decide_eq_true_eq]

namespace FirstLeast

variable {key : α → κ} {l : List α} {a b : α}

theorem mem (h : FirstLeast key l a) : a ∈ l := by
  obtain ⟨before, after, rfl, _, _⟩ := h
  simp

theorem le (h : FirstLeast key l a) (hb : b ∈ l) : key a ≤ key b := by
  obtain ⟨before, after, rfl, hbefore, hafter⟩ := h
  rcases List.mem_append.mp hb with hb | hb
  · exact (hbefore b hb).le
  · rcases List.mem_cons.mp hb with rfl | hb
    · exact le_rfl
    · exact hafter b hb

/-- Putting an element in front keeps the old first when it is strictly less. -/
theorem cons_of_lt (h : FirstLeast key l a) (hlt : key a < key b) : FirstLeast key (b :: l) a := by
  obtain ⟨before, after, rfl, hbefore, hafter⟩ := h
  refine ⟨b :: before, after, rfl, ?_, hafter⟩
  intro c hc
  rcases List.mem_cons.mp hc with rfl | hc
  · exact hlt
  · exact hbefore c hc

/-- An element at most as great as all others is first when it stands in front. -/
theorem cons_self (h : ∀ b ∈ l, key a ≤ key b) : FirstLeast key (a :: l) a :=
  ⟨[], l, rfl, fun _ hb => absurd hb List.not_mem_nil, h⟩

theorem unique (h : FirstLeast key l a) (h' : FirstLeast key l b) : a = b := by
  induction l with
  | nil => exact absurd h.mem List.not_mem_nil
  | cons c l ih =>
    obtain ⟨before, after, heq, hbefore, hafter⟩ := h
    obtain ⟨before', after', heq', hbefore', hafter'⟩ := h'
    cases before with
    | nil =>
      obtain ⟨rfl, rfl⟩ := List.cons.inj heq
      cases before' with
      | nil => exact (List.cons.inj heq').1
      | cons d before' =>
        obtain ⟨rfl, rfl⟩ := List.cons.inj heq'
        have hlt := hbefore' c List.mem_cons_self
        exact absurd (hafter b (by simp)) (not_le.mpr hlt)
    | cons d before =>
      obtain ⟨rfl, rfl⟩ := List.cons.inj heq
      have hlt := hbefore c List.mem_cons_self
      cases before' with
      | nil =>
        obtain ⟨rfl, rfl⟩ := List.cons.inj heq'
        exact absurd (hafter' a (by simp)) (not_le.mpr hlt)
      | cons d before' =>
        obtain ⟨rfl, hrest⟩ := List.cons.inj heq'
        exact ih ⟨before, after, rfl, fun b hb => hbefore b (List.mem_cons_of_mem _ hb), hafter⟩
          ⟨before', after', hrest, fun b hb => hbefore' b (List.mem_cons_of_mem _ hb), hafter'⟩

/-- Among the elements of least key the first stands before the others. -/
theorem rel_of_pairwise {r : α → α → Prop} (h : FirstLeast key l a) (hl : l.Pairwise r)
    (hrefl : r a a) (hb : b ∈ l) (hkey : key b = key a) : r a b := by
  obtain ⟨before, after, rfl, hbefore, _⟩ := h
  rcases List.mem_append.mp hb with hb | hb
  · exact absurd hkey (hbefore b hb).ne'
  · rcases List.mem_cons.mp hb with rfl | hb
    · exact hrefl
    · exact List.rel_of_pairwise_cons (List.pairwise_append.mp hl).2.1 hb

/-- It stands in front of everything that has its key. -/
theorem lt_or_sublist (h : FirstLeast key l a) (hb : b ∈ l) (hne : b ≠ a) :
    key a < key b ∨ [a, b].Sublist l := by
  obtain ⟨before, after, rfl, hbefore, _⟩ := h
  rcases List.mem_append.mp hb with hb | hb
  · exact .inl (hbefore b hb)
  · have hafter := (List.mem_cons.mp hb).resolve_left hne
    exact .inr (((List.singleton_sublist.mpr hafter).cons_cons a).trans
      (List.sublist_append_right before _))

/-- Taking other elements away leaves it first. -/
theorem of_sublist {l' : List α} (h : FirstLeast key l a) (hsub : l'.Sublist l) (hnodup : l.Nodup)
    (ha : a ∈ l') : FirstLeast key l' a := by
  obtain ⟨before, after, rfl, hbefore, hafter⟩ := h
  obtain ⟨front, back, rfl, hfront, hback⟩ := List.sublist_append_iff.mp hsub
  have hnotbefore : a ∉ before := fun hmem => absurd (hbefore a hmem) (lt_irrefl _)
  have hnotafter : a ∉ after :=
    (List.nodup_cons.mp (hnodup.sublist (List.sublist_append_right _ _))).1
  have hback' := (List.mem_append.mp ha).resolve_left fun hmem => hnotbefore (hfront.subset hmem)
  rcases List.sublist_cons_iff.mp hback with hgone | ⟨rest, rfl, hrest⟩
  · exact absurd (hgone.subset hback') hnotafter
  · exact ⟨front, rest, rfl, fun b hb => hbefore b (hfront.subset hb),
      fun b hb => hafter b (hrest.subset hb)⟩

theorem map {β : Type} {f : β → α} {l : List β} {b : β}
    (h : FirstLeast (fun x => key (f x)) l b) : FirstLeast key (l.map f) (f b) := by
  obtain ⟨before, after, rfl, hbefore, hafter⟩ := h
  refine ⟨before.map f, after.map f, by simp, ?_, ?_⟩
  · intro c hc
    obtain ⟨x, hx, rfl⟩ := List.mem_map.mp hc
    exact hbefore x hx
  · intro c hc
    obtain ⟨x, hx, rfl⟩ := List.mem_map.mp hc
    exact hafter x hx

/-- It is the first of the elements that nothing is less than. -/
theorem head?_leasts (h : FirstLeast key l a) : (leasts key l).head? = some a := by
  have hmem := mem_leasts.mpr ⟨h.mem, fun b hb => h.le hb⟩
  obtain ⟨before, after, rfl, hbefore, _⟩ := h
  unfold leasts at hmem ⊢
  generalize hpred : (fun c => decide (∀ b ∈ before ++ a :: after, key c ≤ key b)) = pred at hmem ⊢
  have hnone : before.filter pred = [] := by
    rw [List.filter_eq_nil_iff, ← hpred]
    intro c hc hleast
    have hca := of_decide_eq_true hleast a (by simp)
    exact absurd (hbefore c hc) (not_lt.mpr hca)
  rw [List.filter_append, hnone, List.nil_append,
    List.filter_cons_of_pos (List.mem_filter.mp hmem).2, List.head?_cons]

end FirstLeast

/-- A stable sort puts the first element of least key in front. -/
theorem firstLeast_of_head?_sortByKey {key : α → κ} {l : List α} {a : α}
    (h : (sortByKey key l).head? = some a) : FirstLeast key l a := by
  induction l generalizing a with
  | nil => simp [sortByKey] at h
  | cons b l ih =>
    have hleast : ∀ c ∈ b :: l, key a ≤ key c := by
      have hsorted := pairwise_sortByKey key (b :: l)
      obtain ⟨rest, hrest⟩ := List.head?_eq_some_iff.mp h
      rw [hrest, List.pairwise_cons] at hsorted
      intro c hc
      have hmem : c ∈ sortByKey key (b :: l) := mem_sortByKey.mpr hc
      rw [hrest] at hmem
      rcases List.mem_cons.mp hmem with rfl | hmem
      · exact le_rfl
      · exact hsorted.1 c hmem
    have hcons : sortByKey key (b :: l) =
        (sortByKey key l).orderedInsert (fun a b => key a ≤ key b) b := rfl
    rw [hcons] at h
    cases hs : sortByKey key l with
    | nil =>
      rw [hs, List.orderedInsert_nil, List.head?_cons] at h
      obtain rfl := Option.some.inj h
      exact .cons_self fun c hc => hleast c (List.mem_cons_of_mem _ hc)
    | cons c rest =>
      rw [hs, List.orderedInsert_cons] at h
      split at h
      · rw [List.head?_cons] at h
        obtain rfl := Option.some.inj h
        exact .cons_self fun c hc => hleast c (List.mem_cons_of_mem _ hc)
      · rename_i hlt
        rw [List.head?_cons] at h
        obtain rfl := Option.some.inj h
        exact (ih (by rw [hs, List.head?_cons])).cons_of_lt (not_le.mp hlt)

theorem head?_sortByKey_eq_some_iff {key : α → κ} {l : List α} {a : α} :
    (sortByKey key l).head? = some a ↔ FirstLeast key l a := by
  constructor
  · exact firstLeast_of_head?_sortByKey
  · intro h
    cases hhead : (sortByKey key l).head? with
    | none =>
      have hnil := List.head?_eq_none_iff.mp hhead
      have ha : a ∈ sortByKey key l := mem_sortByKey.mpr h.mem
      rw [hnil] at ha
      exact absurd ha List.not_mem_nil
    | some b => rw [(firstLeast_of_head?_sortByKey hhead).unique h]

/-- Every nonempty list has a first element of least key. -/
theorem exists_firstLeast (key : α → κ) {l : List α} (h : l ≠ []) : ∃ a, FirstLeast key l a := by
  have hsome : (sortByKey key l).head?.isSome = true := by
    rw [List.isSome_head?, ne_eq, ← List.length_eq_zero_iff, length_sortByKey,
      List.length_eq_zero_iff]
    exact h
  obtain ⟨a, ha⟩ := Option.isSome_iff_exists.mp hsome
  exact ⟨a, firstLeast_of_head?_sortByKey ha⟩

end Netmux
