import Netmux.Lib.Sort
import Mathlib.Algebra.Ring.Nat
import Mathlib.Data.List.Count
import Mathlib.Data.List.Rotate

/-!
# Blocks and cyclic windows

A list in which every element stands for a block of copies of itself, and what is read when
the positions of a list are walked round and round from an arbitrary start. A window of one
full turn sees every element as often as the list has it.
-/

namespace Netmux

variable {α κ : Type}

/-! ## Blocks -/

/-- Every element repeated `size` times. -/
def blocks (size : α → Nat) (l : List α) : List α := l.flatMap fun a => List.replicate (size a) a

@[simp] theorem blocks_cons (size : α → Nat) (a : α) (l : List α) :
    blocks size (a :: l) = List.replicate (size a) a ++ blocks size l := rfl

theorem length_blocks (size : α → Nat) (l : List α) :
    (blocks size l).length = (l.map size).sum := by
  induction l with
  | nil => rfl
  | cons a l ih =>
    rw [blocks_cons, List.length_append, List.length_replicate, ih, List.map_cons, List.sum_cons]

theorem mem_of_mem_blocks {size : α → Nat} {l : List α} {a : α} (h : a ∈ blocks size l) :
    a ∈ l := by
  obtain ⟨b, hb, hrep⟩ := List.mem_flatMap.mp h
  rw [List.eq_of_mem_replicate hrep]
  exact hb

theorem perm_blocks (size : α → Nat) {l l' : List α} (h : l.Perm l') :
    (blocks size l).Perm (blocks size l') :=
  h.flatMap_right _

theorem getElem?_blocks_cons {size : α → Nat} {a : α} {l : List α} (i : Nat) :
    (blocks size (a :: l))[i]? = if i < size a then some a else (blocks size l)[i - size a]? := by
  rw [blocks_cons]
  split
  · rename_i hi
    rw [List.getElem?_append_left (by rw [List.length_replicate]; exact hi),
      List.getElem?_replicate, if_pos hi]
  · rename_i hi
    rw [List.getElem?_append_right (by rw [List.length_replicate]; omega), List.length_replicate]

/-- A key occurs as often as its only owner is repeated. -/
theorem count_map_blocks [DecidableEq κ] {size : α → Nat} {key : α → κ} {l : List α} {a : α}
    (hnodup : (l.map key).Nodup) (ha : a ∈ l) :
    ((blocks size l).map key).count (key a) = size a := by
  induction l with
  | nil => exact absurd ha List.not_mem_nil
  | cons b l ih =>
    rw [List.map_cons, List.nodup_cons] at hnodup
    rw [blocks_cons, List.map_append, List.map_replicate, List.count_append, List.count_replicate]
    rcases List.mem_cons.mp ha with rfl | ha
    · have hnone : ((blocks size l).map key).count (key a) = 0 := by
        rw [List.count_eq_zero]
        intro hmem
        obtain ⟨c, hc, hkey⟩ := List.mem_map.mp hmem
        rw [← hkey] at hnodup
        exact hnodup.1 (List.mem_map_of_mem (mem_of_mem_blocks hc))
      rw [hnone]
      simp
    · have hne : key b ≠ key a := by
        intro hkey
        rw [hkey] at hnodup
        exact hnodup.1 (List.mem_map_of_mem ha)
      rw [ih hnodup.2 ha]
      simp [hne]

/-- The first block holds its own key only. -/
theorem slot_first [DecidableEq κ] {size : α → Nat} {key : α → κ} {a : α} {l : List α}
    (hnodup : ((a :: l).map key).Nodup) (i : Nat) :
    ((blocks size (a :: l)).map key)[i]? = some (key a) ↔ i < size a := by
  rw [List.map_cons, List.nodup_cons] at hnodup
  rw [List.getElem?_map, getElem?_blocks_cons]
  split
  · rename_i hi
    exact iff_of_true rfl hi
  · rename_i hi
    refine iff_of_false ?_ hi
    intro hslot
    obtain ⟨b, hb, hkey⟩ := Option.map_eq_some_iff.mp hslot
    rw [← hkey] at hnodup
    exact hnodup.1 (List.mem_map_of_mem (mem_of_mem_blocks (List.mem_of_getElem? hb)))

/-- The keys of the other blocks stand behind the first. -/
theorem slot_rest [DecidableEq κ] {size : α → Nat} {key : α → κ} {a b : α} {l : List α}
    (hnodup : ((a :: l).map key).Nodup) (hb : b ∈ l) (i : Nat) :
    ((blocks size (a :: l)).map key)[i]? = some (key b) ↔
      size a ≤ i ∧ ((blocks size l).map key)[i - size a]? = some (key b) := by
  rw [List.map_cons, List.nodup_cons] at hnodup
  rw [List.getElem?_map, getElem?_blocks_cons]
  split
  · rename_i hi
    refine iff_of_false ?_ (by omega)
    intro hslot
    rw [Option.some.inj hslot] at hnodup
    exact hnodup.1 (List.mem_map_of_mem hb)
  · rename_i hi
    rw [List.getElem?_map]
    exact ⟨fun h => ⟨by omega, h⟩, fun h => h.2⟩

theorem pairwise_blocks {r : α → α → Prop} (size : α → Nat) {l : List α} (hrefl : ∀ a, r a a)
    (h : l.Pairwise r) : (blocks size l).Pairwise r := by
  induction l with
  | nil => exact List.Pairwise.nil
  | cons a l ih =>
    rw [List.pairwise_cons] at h
    rw [blocks_cons, List.pairwise_append]
    refine ⟨List.pairwise_replicate.mpr (.inr (hrefl a)), ih h.2, ?_⟩
    intro b hb c hc
    rw [List.eq_of_mem_replicate hb]
    exact h.1 c (mem_of_mem_blocks hc)

/-- Over distinct keys, sorting the copies sorts the blocks. -/
theorem sortByKey_blocks [LinearOrder κ] {key : α → κ} (size : α → Nat) {l : List α}
    (hnodup : (l.map key).Nodup) :
    sortByKey key (blocks size l) = blocks size (sortByKey key l) := by
  have hsorted := pairwise_sortByKey key (blocks size l)
  have hblocks := pairwise_blocks size (fun a => le_refl (key a)) (pairwise_sortByKey key l)
  have hperm : (sortByKey key (blocks size l)).Perm (blocks size (sortByKey key l)) :=
    (perm_sortByKey _ _).trans (perm_blocks size (perm_sortByKey key l).symm)
  refine hperm.eq_of_pairwise ?_ hsorted hblocks
  intro a b ha hb hab hba
  have hal : a ∈ l := mem_of_mem_blocks (mem_sortByKey.mp ha)
  have hbl : b ∈ l := mem_sortByKey.mp (mem_of_mem_blocks hb)
  exact List.inj_on_of_nodup_map hnodup hal hbl (le_antisymm hab hba)

/-! ## Cyclic windows -/

/-- What `n` steps round a list read, from position `start` on. -/
def cycle (xs : List α) (start n : Nat) : List (Option α) :=
  (List.range n).map fun k => xs[(start + k) % xs.length]?

theorem cycle_succ (xs : List α) (start n : Nat) :
    cycle xs start (n + 1) = xs[start % xs.length]? :: cycle xs (start + 1) n := by
  rw [cycle, List.range_succ_eq_map, List.map_cons, List.map_map, Nat.add_zero, cycle]
  congr 1
  apply List.map_congr_left
  intro k hk
  rw [Function.comp_apply, Nat.succ_eq_add_one, Nat.add_right_comm, ← Nat.add_assoc]

@[simp] theorem cycle_nil (start n : Nat) :
    cycle ([] : List α) start n = List.replicate n none := by
  simp [cycle]

theorem mem_cycle {xs : List α} {start n : Nat} {a : Option α} :
    a ∈ cycle xs start n ↔ ∃ k < n, xs[(start + k) % xs.length]? = a := by
  simp only [cycle, List.mem_map, List.mem_range]

/-- The position after at most one full turn. -/
theorem add_mod_turn {start k len : Nat} (hlen : 0 < len) (hk : k ≤ len) :
    (start + k) % len =
      if start % len + k < len then start % len + k else start % len + k - len := by
  have hstart := Nat.mod_lt start hlen
  rw [← Nat.mod_add_mod]
  split
  · rename_i hlt
    exact Nat.mod_eq_of_lt hlt
  · rename_i hge
    rw [Nat.mod_eq_sub_mod (by omega), Nat.mod_eq_of_lt (by omega)]

/-- A window of at most one turn covers the positions from its start to its end, and those it
reaches beyond the end of the list. -/
theorem mem_cycle_window {xs : List α} {start n : Nat} (hn : n ≤ xs.length) {a : α} :
    some a ∈ cycle xs start n ↔ ∃ i, xs[i]? = some a ∧
      (start % xs.length ≤ i ∧ i < start % xs.length + n ∨
        i + xs.length < start % xs.length + n) := by
  rw [mem_cycle]
  constructor
  · rintro ⟨k, hk, hslot⟩
    refine ⟨(start + k) % xs.length, hslot, ?_⟩
    rw [add_mod_turn (by omega) (show k ≤ xs.length by omega)]
    split
    · omega
    · omega
  · rintro ⟨i, hslot, hi⟩
    have hlt : i < xs.length := (List.getElem?_eq_some_iff.mp hslot).1
    have hstart : start % xs.length < xs.length := Nat.mod_lt _ (by omega)
    rcases hi with ⟨hge, hend⟩ | hbeyond
    · refine ⟨i - start % xs.length, by omega, ?_⟩
      rw [add_mod_turn (by omega) (by omega), if_pos (by omega), Nat.add_sub_cancel' hge]
      exact hslot
    · refine ⟨i + xs.length - start % xs.length, by omega, ?_⟩
      rw [add_mod_turn (by omega) (by omega), if_neg (by omega),
        show start % xs.length + (i + xs.length - start % xs.length) - xs.length = i by omega]
      exact hslot

/-- One full turn from anywhere is a rotation of the list. -/
theorem cycle_length (xs : List α) (start : Nat) :
    cycle xs start xs.length = (xs.rotate start).map some := by
  ext k : 1
  rw [cycle, List.getElem?_map, List.getElem?_map]
  by_cases hk : k < xs.length
  · have hmod : (start + k) % xs.length < xs.length := Nat.mod_lt _ (by omega)
    have hrot : k < (xs.rotate start).length := by
      rw [List.length_rotate]
      exact hk
    rw [List.getElem?_range hk, List.getElem?_eq_getElem hrot, Option.map_some, Option.map_some,
      List.getElem_rotate, List.getElem?_eq_getElem hmod]
    simp only [Nat.add_comm]
  · rw [List.getElem?_eq_none (by rw [List.length_range]; omega),
      List.getElem?_eq_none (by rw [List.length_rotate]; omega), Option.map_none, Option.map_none]

/-- So it sees every element as often as the list does. -/
theorem count_cycle_length [DecidableEq α] (xs : List α) (start : Nat) (a : α) :
    (cycle xs start xs.length).count (some a) = xs.count a := by
  rw [cycle_length, List.count_map_of_injective _ _ (Option.some_injective α)]
  exact (List.rotate_perm xs start).count_eq a

/-! ## Long windows -/

theorem cycle_add (xs : List α) (start m n : Nat) :
    cycle xs start (m + n) = cycle xs start m ++ cycle xs (start + m) n := by
  induction m generalizing start with
  | zero => rw [Nat.zero_add, Nat.add_zero]; rfl
  | succ m ih =>
    rw [Nat.add_right_comm, cycle_succ, ih, cycle_succ, List.cons_append, Nat.add_right_comm start,
      ← Nat.add_assoc]

/-- Whole turns see every element as often as they go round. -/
theorem count_cycle_turns [DecidableEq α] (xs : List α) (start turns : Nat) (a : α) :
    (cycle xs start (turns * xs.length)).count (some a) = turns * xs.count a := by
  induction turns generalizing start with
  | zero => rw [Nat.zero_mul, Nat.zero_mul]; rfl
  | succ turns ih =>
    rw [Nat.succ_mul, cycle_add, List.count_append, ih, count_cycle_length, Nat.succ_mul]

/-- Less than a turn sees an element at most as often as the list has it. -/
theorem count_cycle_le [DecidableEq α] (xs : List α) (start : Nat) {n : Nat} (hn : n ≤ xs.length)
    (a : α) : (cycle xs start n).count (some a) ≤ xs.count a := by
  have hturn := count_cycle_length xs start a
  rw [← Nat.add_sub_cancel' hn, cycle_add, List.count_append] at hturn
  omega

/-- A window sees an element in each of its whole turns and at most one turn's worth beyond. -/
theorem count_cycle_bounds [DecidableEq α] (xs : List α) (start n : Nat) (a : α) :
    n / xs.length * xs.count a ≤ (cycle xs start n).count (some a) ∧
      (cycle xs start n).count (some a) ≤ n / xs.length * xs.count a + xs.count a := by
  rcases Nat.eq_zero_or_pos xs.length with hzero | hpos
  · obtain rfl := List.length_eq_zero_iff.mp hzero
    simp [List.count_replicate]
  · have hsplit : n / xs.length * xs.length + n % xs.length = n := Nat.div_add_mod' n xs.length
    have hrest := count_cycle_le xs (start + n / xs.length * xs.length)
      (Nat.mod_lt n hpos).le a
    have hcount : (cycle xs start n).count (some a) = n / xs.length * xs.count a +
        (cycle xs (start + n / xs.length * xs.length) (n % xs.length)).count (some a) := by
      conv_lhs => rw [← hsplit, cycle_add, List.count_append, count_cycle_turns]
    omega

/-! ## Short windows over long blocks -/

/-- Two blocks: a window meets both exactly when it crosses from one to the other. -/
private theorem meets_two_iff {first second start n : Nat} (hfirst : n ≤ first)
    (hsecond : n ≤ second) (hstart : start < first + second) (hn : 0 < n) :
    ((∃ i, i < first ∧ (start ≤ i ∧ i < start + n ∨ i + (first + second) < start + n)) ∧
      ∃ i, (first ≤ i ∧ i - first < second) ∧
        (start ≤ i ∧ i < start + n ∨ i + (first + second) < start + n)) ↔
      start < first ∧ first < start + n ∨ first + second < start + n := by
  constructor
  · rintro ⟨⟨i, hi, hmeet⟩, j, hj, hmeet'⟩
    omega
  · rintro (⟨hbefore, hafter⟩ | hbeyond)
    · exact ⟨⟨start, hbefore, .inl ⟨le_refl _, by omega⟩⟩,
        first, ⟨le_refl _, by omega⟩, .inl ⟨by omega, hafter⟩⟩
    · exact ⟨⟨0, by omega, .inr (by omega)⟩,
        start, ⟨by omega, by omega⟩, .inl ⟨le_refl _, by omega⟩⟩

/-- When no block is shorter than the window, the window meets every block exactly when there is
at most one, or there are two and it crosses the end of the first or of the list. -/
theorem window_meets_all_iff [DecidableEq κ] {size : α → Nat} {key : α → κ} {l : List α} {n : Nat}
    (hnodup : (l.map key).Nodup) (hn : l ≠ [] → 0 < n) (hsize : ∀ a ∈ l, n ≤ size a)
    (start : Nat) :
    (∀ a ∈ l, some (key a) ∈ cycle ((blocks size l).map key) start n) ↔
      l.length ≤ 1 ∨ ∃ first second, l = [first, second] ∧
        (start % (blocks size l).length < size first ∧
            size first < start % (blocks size l).length + n ∨
          (blocks size l).length < start % (blocks size l).length + n) := by
  cases l with
  | nil => simp
  | cons a l =>
    have hpos := hn (List.cons_ne_nil a l)
    have ha := hsize a List.mem_cons_self
    have hlength : (blocks size (a :: l)).length = size a + (blocks size l).length := by
      rw [blocks_cons, List.length_append, List.length_replicate]
    have hwindow : n ≤ ((blocks size (a :: l)).map key).length := by
      rw [List.length_map, hlength]
      omega
    have hstart : start % (blocks size (a :: l)).length < (blocks size (a :: l)).length :=
      Nat.mod_lt _ (by omega)
    simp only [mem_cycle_window hwindow, List.length_map]
    generalize start % (blocks size (a :: l)).length = r at hstart ⊢
    cases l with
    | nil =>
      refine iff_of_true ?_ (.inl (le_refl _))
      intro b hb
      obtain rfl := List.mem_singleton.mp hb
      have hone : (blocks size [b]).length = size b := by simp [blocks]
      rw [hone] at hstart ⊢
      exact ⟨r, (slot_first hnodup r).mpr hstart, .inl ⟨le_refl _, by omega⟩⟩
    | cons b l =>
      have hb := hsize b (by simp)
      have hbmem : b ∈ b :: l := List.mem_cons_self
      have hnodup' : ((b :: l).map key).Nodup := (List.nodup_cons.mp hnodup).2
      have hlength' : (blocks size (b :: l)).length = size b + (blocks size l).length := by
        rw [blocks_cons, List.length_append, List.length_replicate]
      rw [hlength, hlength'] at hstart ⊢
      cases l with
      | nil =>
        rw [show (blocks size ([] : List α)).length = 0 from rfl, Nat.add_zero] at hstart ⊢
        simp only [List.forall_mem_cons, slot_first hnodup, slot_rest hnodup hbmem,
          slot_first hnodup']
        have hmeets := meets_two_iff ha hb hstart hpos
        constructor
        · rintro ⟨hfirst, hsecond, -⟩
          exact .inr ⟨a, b, rfl, hmeets.mp ⟨hfirst, hsecond⟩⟩
        · rintro (hshort | ⟨first, second, heq, hcross⟩)
          · exact absurd hshort (by simp)
          · obtain ⟨rfl, rfl, -⟩ : a = first ∧ b = second ∧ True := by simpa using heq
            obtain ⟨hfirst, hsecond⟩ := hmeets.mpr hcross
            exact ⟨hfirst, hsecond, fun c hc => absurd hc List.not_mem_nil⟩
      | cons c l =>
        -- three places in three blocks are further apart than the window is long
        have hc := hsize c (by simp)
        have hcmem : c ∈ c :: l := List.mem_cons_self
        have hlength'' : (blocks size (c :: l)).length = size c + (blocks size l).length := by
          rw [blocks_cons, List.length_append, List.length_replicate]
        refine iff_of_false ?_ ?_
        · intro hall
          obtain ⟨i, hi, hmeet⟩ := hall a List.mem_cons_self
          obtain ⟨j, hj, hmeet'⟩ := hall b (by simp)
          obtain ⟨k, hk, hmeet''⟩ := hall c (by simp)
          rw [slot_first hnodup] at hi
          rw [slot_rest hnodup hbmem, slot_first hnodup'] at hj
          rw [slot_rest hnodup (by simp), slot_rest hnodup' hcmem,
            slot_first (List.nodup_cons.mp hnodup').2] at hk
          omega
        · rintro (hshort | ⟨first, second, heq, -⟩)
          · exact absurd hshort (by simp)
          · exact absurd heq (by simp)

end Netmux
