import Netmux.Lib.Table
import Mathlib.Data.Set.Card
import Mathlib.Order.Basic

/-!
# Ordered tallies

An ordered map that counts occurrences is a list of keys with their counts, strictly
ascending by key. Counting one more occurrence keeps the order, so a tally is determined by
how often each key occurs, whatever the order of counting. The keys of a hash map are
counted by the value they are mapped to.
-/

namespace Netmux

section Tally

variable {κ : Type} [LinearOrder κ]

/-- Count one more occurrence of a key. -/
def bump (k : κ) : List (κ × Nat) → List (κ × Nat)
  | [] => [(k, 1)]
  | (k', n) :: t =>
    if k < k' then (k, 1) :: (k', n) :: t
    else if k' < k then (k', n) :: bump k t
    else (k', n + 1) :: t

/-- Count every key of a list. -/
def tally (ks : List κ) : List (κ × Nat) := ks.foldl (fun t k => bump k t) []

/-- The list has each key that occurs at its place, with the number of its occurrences. -/
structure Counts (t : List (κ × Nat)) (c : κ → Nat) : Prop where
  ordered : t.Pairwise fun a b => a.1 < b.1
  mem : ∀ k n, (k, n) ∈ t ↔ 0 < n ∧ c k = n

theorem counts_nil : Counts ([] : List (κ × Nat)) fun _ => 0 := by
  refine ⟨List.Pairwise.nil, ?_⟩
  intro k n
  constructor
  · intro h
    exact absurd h List.not_mem_nil
  · rintro ⟨hpos, rfl⟩
    exact absurd hpos (Nat.lt_irrefl 0)

/-- The first key is the least, and the others are counted behind it. -/
theorem counts_cons {t : List (κ × Nat)} {c : κ → Nat} {k : κ} {n : Nat} :
    Counts ((k, n) :: t) c ↔ (∀ e ∈ t, k < e.1) ∧ 0 < n ∧ c k = n ∧
      Counts t fun x => if x = k then 0 else c x := by
  constructor
  · rintro ⟨hordered, hmem⟩
    obtain ⟨hleast, htail⟩ := List.pairwise_cons.mp hordered
    obtain ⟨hpos, hcount⟩ := (hmem k n).mp List.mem_cons_self
    refine ⟨hleast, hpos, hcount, htail, ?_⟩
    intro x m
    by_cases hx : x = k
    · subst hx
      rw [if_pos rfl]
      constructor
      · intro h
        exact absurd (hleast _ h) (lt_irrefl x)
      · rintro ⟨hm, rfl⟩
        exact absurd hm (Nat.lt_irrefl 0)
    · rw [if_neg hx, ← hmem, List.mem_cons]
      constructor
      · exact Or.inr
      · rintro (h | h)
        · exact absurd (Prod.mk.inj h).1 hx
        · exact h
  · rintro ⟨hleast, hpos, hcount, htail⟩
    refine ⟨List.pairwise_cons.mpr ⟨hleast, htail.ordered⟩, ?_⟩
    intro x m
    rw [List.mem_cons, htail.mem]
    by_cases hx : x = k
    · subst hx
      rw [if_pos rfl]
      constructor
      · rintro (h | ⟨hm, rfl⟩)
        · obtain rfl := (Prod.mk.inj h).2
          exact ⟨hpos, hcount⟩
        · exact absurd hm (Nat.lt_irrefl 0)
      · rintro ⟨-, rfl⟩
        exact .inl (by rw [hcount])
    · rw [if_neg hx]
      constructor
      · rintro (h | h)
        · exact absurd (Prod.mk.inj h).1 hx
        · exact h
      · exact Or.inr

/-- A key below all others does not occur. -/
theorem Counts.eq_zero {t : List (κ × Nat)} {c : κ → Nat} (h : Counts t c) {k : κ}
    (hk : ∀ e ∈ t, k < e.1) : c k = 0 := by
  by_contra hne
  have hmem := (h.mem k (c k)).mpr ⟨Nat.pos_of_ne_zero hne, rfl⟩
  exact absurd (hk _ hmem) (lt_irrefl k)

/-- Keys above a bound stay above it. -/
theorem lt_of_mem_bump {t : List (κ × Nat)} {k low : κ} (hk : low < k)
    (h : ∀ e ∈ t, low < e.1) : ∀ e ∈ bump k t, low < e.1 := by
  induction t with
  | nil => simpa [bump] using hk
  | cons e t ih =>
    obtain ⟨k', n⟩ := e
    rw [List.forall_mem_cons] at h
    rw [bump]
    split
    · exact List.forall_mem_cons.mpr ⟨hk, List.forall_mem_cons.mpr h⟩
    · split
      · exact List.forall_mem_cons.mpr ⟨h.1, ih h.2⟩
      · exact List.forall_mem_cons.mpr ⟨h.1, h.2⟩

/-- One more occurrence of a key, all other counts as before. -/
theorem Counts.bump {t : List (κ × Nat)} {c : κ → Nat} (h : Counts t c) (k : κ) :
    Counts (bump k t) fun x => c x + if x = k then 1 else 0 := by
  induction t generalizing c with
  | nil =>
    have hc : c = fun _ => 0 := funext fun x => h.eq_zero (by simp)
    refine counts_cons.mpr ⟨by simp, Nat.one_pos, by simp [hc], ?_⟩
    have hrest : (fun x => if x = k then 0 else c x + if x = k then 1 else 0) = fun _ => 0 := by
      funext x
      split
      · rfl
      · simp [hc]
    rw [hrest]
    exact counts_nil
  | cons e t ih =>
    obtain ⟨k', n⟩ := e
    obtain ⟨hleast, hpos, hcount, htail⟩ := counts_cons.mp h
    rw [Netmux.bump]
    split
    · -- a new least key
      rename_i hlt
      have hbelow : ∀ e ∈ (k', n) :: t, k < e.1 :=
        List.forall_mem_cons.mpr ⟨hlt, fun e he => hlt.trans (hleast e he)⟩
      have hzero := h.eq_zero hbelow
      refine counts_cons.mpr ⟨hbelow, Nat.one_pos, by simp [hzero], ?_⟩
      have hrest : (fun x => if x = k then 0 else c x + if x = k then 1 else 0) = c := by
        funext x
        split
        · rename_i hx
          rw [hx, hzero]
        · rfl
      rw [hrest]
      exact h
    · split
      · -- further down
        rename_i hlt
        refine counts_cons.mpr ⟨lt_of_mem_bump hlt hleast, hpos, by simp [hcount, hlt.ne], ?_⟩
        have hrest : (fun x => if x = k' then 0 else c x + if x = k then 1 else 0) =
            fun x => (if x = k' then 0 else c x) + if x = k then 1 else 0 := by
          funext x
          by_cases hx : x = k'
          · simp [hx, hlt.ne]
          · simp [hx]
        rw [hrest]
        exact ih htail
      · -- the first key itself
        rename_i hge hle
        obtain rfl : k = k' := le_antisymm (not_lt.mp hle) (not_lt.mp hge)
        refine counts_cons.mpr ⟨hleast, Nat.succ_pos n, by simp [hcount], ?_⟩
        have hrest : (fun x => if x = k then 0 else c x + if x = k then 1 else 0) =
            fun x => if x = k then 0 else c x := by
          funext x
          split
          · rfl
          · rfl
        rw [hrest]
        exact htail

theorem sum_bump (k : κ) (t : List (κ × Nat)) :
    ((bump k t).map Prod.snd).sum = (t.map Prod.snd).sum + 1 := by
  induction t with
  | nil => rfl
  | cons e t ih =>
    rw [bump]
    split
    · simp only [List.map_cons, List.sum_cons]
      omega
    · split
      · simp only [List.map_cons, List.sum_cons, ih]
        omega
      · simp only [List.map_cons, List.sum_cons]
        omega

/-- A tally counts. -/
theorem counts_tally (ks : List κ) : Counts (tally ks) fun k => ks.count k := by
  induction ks using List.reverseRecOn with
  | nil => exact counts_nil
  | append_singleton ks k ih =>
    have hcount : (fun x => (ks ++ [k]).count x) =
        fun x => ks.count x + if x = k then 1 else 0 := by
      funext x
      rw [List.count_append]
      by_cases hx : x = k
      · rw [hx, if_pos rfl, List.count_singleton_self]
      · rw [if_neg hx, List.count_singleton, if_neg (by simpa using Ne.symm hx)]
    rw [tally, List.foldl_append, hcount]
    exact ih.bump k

/-- Every occurrence is counted once. -/
theorem sum_tally (ks : List κ) : ((tally ks).map Prod.snd).sum = ks.length := by
  induction ks using List.reverseRecOn with
  | nil => rfl
  | append_singleton ks k ih =>
    rw [tally, List.foldl_append, List.length_append]
    exact (sum_bump k _).trans (by rw [← tally, ih, List.length_singleton])

end Tally

/-! ## Keys by value -/

namespace Table

variable {κ ν : Type} [DecidableEq κ]

/-- The keys of a list of entries that pass a test. -/
theorem ncard_keys (t : Table κ ν) (p : ν → Bool) :
    Set.ncard {k | ∃ v, t.lookup k = some v ∧ p v = true} = t.values.countP p := by
  have hset : {k | ∃ v, t.lookup k = some v ∧ p v = true} =
      ((t.entries.filter fun e => p e.2).map Sigma.fst).toFinset := by
    ext k
    simp only [Set.mem_ofPred_eq, Finset.mem_coe, List.mem_toFinset, List.mem_map, List.mem_filter]
    constructor
    · rintro ⟨v, hv, hp⟩
      exact ⟨⟨k, v⟩, ⟨AList.mem_lookup_iff.mp hv, hp⟩, rfl⟩
    · rintro ⟨⟨k, v⟩, ⟨hmem, hp⟩, rfl⟩
      exact ⟨v, AList.mem_lookup_iff.mpr hmem, hp⟩
  have hnodup : ((t.entries.filter fun e => p e.2).map Sigma.fst).Nodup :=
    List.Nodup.sublist (List.filter_sublist.map _) t.nodupKeys
  rw [hset, Set.ncard_coe_finset, List.toFinset_card_of_nodup hnodup, List.length_map, values,
    List.countP_map, List.countP_eq_length_filter]
  rfl

/-- As many keys are mapped to a value as the value occurs. -/
theorem ncard_lookup [DecidableEq ν] (t : Table κ ν) (v : ν) :
    Set.ncard {k | t.lookup k = some v} = t.values.count v := by
  have hset : {k | t.lookup k = some v} = {k | ∃ w, t.lookup k = some w ∧ (w == v) = true} := by
    ext k
    simp
  rw [hset, ncard_keys, List.count]

/-- As many keys are mapped as there are values. -/
theorem ncard_mem (t : Table κ ν) :
    Set.ncard {k | (t.lookup k).isSome = true} = t.values.length := by
  have hset : {k | (t.lookup k).isSome = true} =
      {k | ∃ v, t.lookup k = some v ∧ (fun _ : ν => true) v = true} := by
    ext k
    simp [Option.isSome_iff_exists]
  rw [hset, ncard_keys, List.countP_true]

end Table

end Netmux
