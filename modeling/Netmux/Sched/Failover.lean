import Netmux.Sched.Selection

/-!
# Failover

Failover returns the first usable candidate of highest priority and reads nothing else. So
the result survives every failure of the others, and it moves only when the selected
interface stops being usable or a better one becomes usable.
-/

namespace Netmux

/-- The name failover selects. -/
def failoverPick (candidates : List CandidateIface) : Option String :=
  (sortByKey CandidateIface.rank (usableOf candidates)).head?.map CandidateIface.name

/-- Failover reads neither the flow key nor the counter, and never panics. -/
theorem selectInterface_failover {cfg : AggregatorConfig} (hs : cfg.strategy = .failover)
    (candidates : List CandidateIface) (flowKey : String) (rr : UInt64) :
    selectInterface cfg candidates flowKey rr = .ok (failoverPick candidates, rr) := by
  rw [selectInterface, failoverPick]
  split
  · rename_i hempty
    rw [List.isEmpty_iff.mp hempty]
    rfl
  · simp only [hs, Checked.pure_eq]

theorem failoverPick_eq_some_iff {candidates : List CandidateIface} {name : String} :
    failoverPick candidates = some name ↔
      ∃ c, FirstLeast CandidateIface.rank (usableOf candidates) c ∧ c.name = name := by
  simp only [failoverPick, Option.map_eq_some_iff, head?_sortByKey_eq_some_iff]

theorem failoverPick_eq_none_iff {candidates : List CandidateIface} :
    failoverPick candidates = none ↔ usableOf candidates = [] := by
  rw [failoverPick, Option.map_eq_none_iff, List.head?_eq_none_iff, ← List.length_eq_zero_iff,
    length_sortByKey, List.length_eq_zero_iff]

/-- What failover sees of a candidate. -/
def CandidateIface.standing (c : CandidateIface) : String × UInt32 × Bool × Bool :=
  (c.name, c.policy.priority, c.policy.enabled, c.healthy)

/-- The second list is the first with some candidates other than `kept` unhealthy, disabled or
absent. -/
inductive Withdrawn (kept : String) : List CandidateIface → List CandidateIface → Prop
  | nil : Withdrawn kept [] []
  | same {l l' : List CandidateIface} (c : CandidateIface) (h : Withdrawn kept l l') :
    Withdrawn kept (c :: l) (c :: l')
  | absent {l l' : List CandidateIface} {c : CandidateIface} (hother : c.name ≠ kept)
      (h : Withdrawn kept l l') : Withdrawn kept (c :: l) l'
  | unhealthy {l l' : List CandidateIface} {c : CandidateIface} (hother : c.name ≠ kept)
      (h : Withdrawn kept l l') : Withdrawn kept (c :: l) ({ c with healthy := false } :: l')
  | disabled {l l' : List CandidateIface} {c : CandidateIface} (hother : c.name ≠ kept)
      (h : Withdrawn kept l l') :
    Withdrawn kept (c :: l) ({ c with policy := { c.policy with enabled := false } } :: l')

/-- Interfaces that stand in both lists have one priority and one order in them. -/
structure Agrees (candidates candidates' : List CandidateIface) : Prop where
  priority : ∀ c ∈ candidates, ∀ c' ∈ candidates', c.name = c'.name →
    c.policy.priority = c'.policy.priority
  order : ∀ a b, [a, b].Sublist (candidates.map CandidateIface.name) →
    a ∈ candidates'.map CandidateIface.name → b ∈ candidates'.map CandidateIface.name →
    [a, b].Sublist (candidates'.map CandidateIface.name)

/-- Of higher priority, or of equal priority and earlier in the list. -/
def Better (candidates : List CandidateIface) (d c : CandidateIface) : Prop :=
  c.policy.priority < d.policy.priority ∨
    d.policy.priority = c.policy.priority ∧ [d, c].Sublist candidates

/-- The stability of failover on a candidate list. -/
structure FailoverStable (candidates : List CandidateIface) : Prop where
  complete : failoverPick candidates = none ↔ usableOf candidates = []
  top : ∀ name ∈ failoverPick candidates, ∃ c ∈ candidates, c.name = name ∧
    c.policy.enabled = true ∧ c.healthy = true ∧
    ∀ d ∈ usableOf candidates, d.policy.priority ≤ c.policy.priority
  standing : ∀ candidates' : List CandidateIface,
    candidates'.map CandidateIface.standing = candidates.map CandidateIface.standing →
    failoverPick candidates' = failoverPick candidates
  withdrawn : ∀ name ∈ failoverPick candidates, ∀ candidates',
    Withdrawn name candidates candidates' → failoverPick candidates' = some name
  moves : ∀ name ∈ failoverPick candidates, ∀ candidates' : List CandidateIface,
    (candidates'.map CandidateIface.name).Nodup → Agrees candidates candidates' →
    failoverPick candidates' ≠ some name →
    (∀ c ∈ usableOf candidates', c.name ≠ name) ∨
      ∃ c ∈ usableOf candidates', c.name = name ∧ ∃ d ∈ usableOf candidates',
        Better candidates' d c ∧ ∀ e ∈ usableOf candidates, e.name ≠ d.name

section Pick

variable {candidates candidates' : List CandidateIface} {name : String}

theorem rank_le_iff {c d : CandidateIface} :
    c.rank ≤ d.rank ↔ d.policy.priority ≤ c.policy.priority := by
  rw [CandidateIface.rank, CandidateIface.rank, OrderDual.toDual_le_toDual,
    UInt32.le_iff_toNat_le]

/-- The selected interface is enabled, healthy and of highest priority. -/
theorem top_of_failoverPick (h : failoverPick candidates = some name) :
    ∃ c ∈ candidates, c.name = name ∧ c.policy.enabled = true ∧ c.healthy = true ∧
      ∀ d ∈ usableOf candidates, d.policy.priority ≤ c.policy.priority := by
  obtain ⟨c, hc, hname⟩ := failoverPick_eq_some_iff.mp h
  obtain ⟨hmem, husable⟩ := List.mem_filter.mp hc.mem
  rw [CandidateIface.usable, Bool.and_eq_true] at husable
  exact ⟨c, hmem, hname, husable.1, husable.2, fun d hd => rank_le_iff.mp (hc.le hd)⟩

/-- Names and priorities along the usable candidates. -/
private theorem map_usableOf_congr
    (h : candidates'.map CandidateIface.standing = candidates.map CandidateIface.standing) :
    (usableOf candidates').map (fun c => (c.name, c.policy.priority)) =
      (usableOf candidates).map fun c => (c.name, c.policy.priority) := by
  have hview (l : List CandidateIface) : (usableOf l).map (fun c => (c.name, c.policy.priority)) =
      ((l.map CandidateIface.standing).filter fun s => s.2.2.1 && s.2.2.2).map
        fun s => (s.1, s.2.1) := by
    rw [List.filter_map, List.map_map]
    rfl
  rw [hview, hview, h]

/-- Weights, loads and kinds do not matter. -/
theorem failoverPick_congr
    (h : candidates'.map CandidateIface.standing = candidates.map CandidateIface.standing) :
    failoverPick candidates' = failoverPick candidates := by
  have hview := map_usableOf_congr h
  cases hpick : failoverPick candidates with
  | none =>
    rw [failoverPick_eq_none_iff] at hpick ⊢
    rw [hpick, List.map_nil, List.map_eq_nil_iff] at hview
    exact hview
  | some name =>
    obtain ⟨c, hc, hname⟩ := failoverPick_eq_some_iff.mp hpick
    have hne : usableOf candidates' ≠ [] := by
      intro hnil
      rw [hnil, List.map_nil, eq_comm, List.map_eq_nil_iff] at hview
      have hmem := hc.mem
      rw [hview] at hmem
      cases hmem
    obtain ⟨c', hc'⟩ := exists_firstLeast CandidateIface.rank hne
    have hmap {l : List CandidateIface} {c : CandidateIface}
        (h : FirstLeast CandidateIface.rank l c) :
        FirstLeast (fun p : String × UInt32 => OrderDual.toDual p.2.toNat)
          (l.map fun c => (c.name, c.policy.priority)) (c.name, c.policy.priority) :=
      FirstLeast.map (f := fun c : CandidateIface => (c.name, c.policy.priority)) h
    have hfirst := hmap hc
    have hfirst' := hmap hc'
    rw [hview] at hfirst'
    have heq := congrArg Prod.fst (hfirst'.unique hfirst)
    exact failoverPick_eq_some_iff.mpr ⟨c', hc', heq.trans hname⟩

/-- A withdrawal takes usable candidates away and keeps the one named. -/
theorem Withdrawn.usable {kept : String} {l l' : List CandidateIface} (h : Withdrawn kept l l') :
    (usableOf l').Sublist (usableOf l) ∧ ∀ c ∈ usableOf l, c.name = kept → c ∈ usableOf l' := by
  have hskip {c : CandidateIface} {l l' : List CandidateIface} (hother : c.name ≠ kept)
      (ih : (usableOf l').Sublist (usableOf l) ∧
        ∀ c ∈ usableOf l, c.name = kept → c ∈ usableOf l') :
      (usableOf l').Sublist (usableOf (c :: l)) ∧
        ∀ d ∈ usableOf (c :: l), d.name = kept → d ∈ usableOf l' := by
    refine ⟨ih.1.trans ((List.sublist_cons_self c l).filter _), ?_⟩
    intro d hd hname
    obtain ⟨hmem, husable⟩ := List.mem_filter.mp hd
    rcases List.mem_cons.mp hmem with rfl | hmem
    · exact absurd hname hother
    · exact ih.2 d (List.mem_filter.mpr ⟨hmem, husable⟩) hname
  have hunusable {c : CandidateIface} {l : List CandidateIface} (hc : c.usable = false) :
      usableOf (c :: l) = usableOf l := by
    rw [usableOf, List.filter_cons_of_neg (by rw [hc]; exact Bool.false_ne_true), ← usableOf]
  induction h with
  | nil => exact ⟨List.Sublist.refl _, fun c hc _ => hc⟩
  | @same l l' c h ih =>
    cases hc : c.usable with
    | false =>
      rw [hunusable hc, hunusable hc]
      exact ih
    | true =>
      have hcons (l : List CandidateIface) : usableOf (c :: l) = c :: usableOf l :=
        List.filter_cons_of_pos hc
      rw [hcons, hcons]
      refine ⟨ih.1.cons_cons c, ?_⟩
      intro d hd hname
      rcases List.mem_cons.mp hd with rfl | hd
      · exact List.mem_cons_self
      · exact List.mem_cons_of_mem c (ih.2 d hd hname)
  | absent hother h ih => exact hskip hother ih
  | @unhealthy l l' c hother h ih =>
    have hdown : ({ c with healthy := false } : CandidateIface).usable = false := Bool.and_false _
    rw [hunusable hdown]
    exact hskip hother ih
  | @disabled l l' c hother h ih =>
    have hoff : ({ c with policy := { c.policy with enabled := false } } : CandidateIface).usable =
        false := Bool.false_and _
    rw [hunusable hoff]
    exact hskip hother ih

/-- Whatever becomes of the others, the selected interface stays selected. -/
theorem failoverPick_withdrawn (hnodup : (candidates.map CandidateIface.name).Nodup)
    (h : failoverPick candidates = some name) (hgone : Withdrawn name candidates candidates') :
    failoverPick candidates' = some name := by
  obtain ⟨c, hc, hname⟩ := failoverPick_eq_some_iff.mp h
  obtain ⟨hsub, hkept⟩ := hgone.usable
  exact failoverPick_eq_some_iff.mpr
    ⟨c, hc.of_sublist hsub (.of_map _ (nodup_map_usableOf hnodup)) (hkept c hc.mem hname), hname⟩

/-- In a list without repetition two elements have one order. -/
theorem not_sublist_swap {α : Type} {a b : α} {l : List α} (hnodup : l.Nodup)
    (h : [a, b].Sublist l) : ¬ [b, a].Sublist l := by
  induction l with
  | nil => cases h
  | cons c l ih =>
    obtain ⟨hc, hl⟩ := List.nodup_cons.mp hnodup
    intro h'
    rcases List.sublist_cons_iff.mp h with hab | ⟨rest, heq, hrest⟩
    · rcases List.sublist_cons_iff.mp h' with hba | ⟨rest', heq', hrest'⟩
      · exact ih hl hab hba
      · obtain ⟨rfl, rfl⟩ := List.cons.inj heq'
        exact hc (hab.subset (by simp))
    · obtain ⟨rfl, rfl⟩ := List.cons.inj heq
      rcases List.sublist_cons_iff.mp h' with hba | ⟨rest', heq', hrest'⟩
      · exact hc (hba.subset (by simp))
      · obtain ⟨rfl, rfl⟩ := List.cons.inj heq'
        exact hc (hrest.subset (by simp))

/-- Where another interface than before is selected, the old one is not usable any more or a
better one has become usable. -/
theorem failoverPick_moves (hnodup' : (candidates'.map CandidateIface.name).Nodup)
    (hagrees : Agrees candidates candidates') (h : failoverPick candidates = some name)
    (hmoved : failoverPick candidates' ≠ some name) :
    (∀ c ∈ usableOf candidates', c.name ≠ name) ∨
      ∃ c ∈ usableOf candidates', c.name = name ∧ ∃ d ∈ usableOf candidates',
        Better candidates' d c ∧ ∀ e ∈ usableOf candidates, e.name ≠ d.name := by
  by_cases hfails : ∀ c ∈ usableOf candidates', c.name ≠ name
  · exact .inl hfails
  right
  obtain ⟨c, hc, hname⟩ : ∃ c ∈ usableOf candidates', c.name = name := by
    simpa only [not_forall, not_not, exists_prop] using hfails
  obtain ⟨c₀, hc₀, hname₀⟩ := failoverPick_eq_some_iff.mp h
  obtain ⟨d, hd⟩ := exists_firstLeast CandidateIface.rank (List.ne_nil_of_mem hc)
  have hother : d.name ≠ name := fun hdname =>
    hmoved (failoverPick_eq_some_iff.mpr ⟨d, hd, hdname⟩)
  have hmem {l : List CandidateIface} {e : CandidateIface} (he : e ∈ usableOf l) : e ∈ l :=
    List.mem_of_mem_filter he
  have hbetter : Better candidates' d c := by
    have hne : c ≠ d := by
      rintro rfl
      exact hother hname
    rcases UInt32.lt_or_eq_of_le (rank_le_iff.mp (hd.le hc)) with hlt | heq
    · exact .inl hlt
    · rcases hd.lt_or_sublist hc hne with hlt | hsub
      · have hle : d.policy.priority ≤ c.policy.priority := by
          rw [heq]
          exact UInt32.le_refl _
        exact absurd (rank_le_iff.mpr hle) (not_le.mpr hlt)
      · exact .inr ⟨heq.symm, hsub.trans List.filter_sublist⟩
  refine ⟨c, hc, hname, d, hd.mem, hbetter, ?_⟩
  -- had it been usable before, it would have stood behind the selected one then and now
  intro e he hename
  have hprio := hagrees.priority e (hmem he) d (hmem hd.mem) hename
  have hprio₀ := hagrees.priority c₀ (hmem hc₀.mem) c (hmem hc) (hname₀.trans hname.symm)
  have hne₀ : e ≠ c₀ := by
    rintro rfl
    exact hother (hename.symm.trans hname₀)
  have hle := rank_le_iff.mp (hc₀.le he)
  rw [hprio, hprio₀] at hle
  rcases hbetter with hlt | ⟨heq, hsub⟩
  · exact absurd hle (UInt32.not_le.mpr hlt)
  · rcases hc₀.lt_or_sublist he hne₀ with hlt | hsub₀
    · refine absurd (rank_le_iff.mpr ?_) (not_le.mpr hlt)
      rw [hprio, hprio₀, heq]
      exact UInt32.le_refl _
    · have horder := hagrees.order name d.name
        (by simpa [hname₀, hename] using (hsub₀.trans List.filter_sublist).map CandidateIface.name)
        (hname ▸ List.mem_map_of_mem (hmem hc)) (List.mem_map_of_mem (hmem hd.mem))
      apply not_sublist_swap hnodup' horder
      simpa [hname] using hsub.map CandidateIface.name

end Pick

/-- Failover returns the same usable interface of highest priority for every flow key and counter,
whatever the weights and loads are and whatever becomes of the other interfaces. -/
theorem failover_stable {cfg : AggregatorConfig} (hs : cfg.strategy = .failover) :
    (∀ candidates flowKey rr,
      selectInterface cfg candidates flowKey rr = .ok (failoverPick candidates, rr)) ∧
      ∀ candidates : List CandidateIface, (candidates.map CandidateIface.name).Nodup →
        FailoverStable candidates :=
  ⟨selectInterface_failover hs, fun _ hnodup =>
    { complete := failoverPick_eq_none_iff
      top := fun _ h => top_of_failoverPick h
      standing := fun _ h => failoverPick_congr h
      withdrawn := fun _ h _ hgone => failoverPick_withdrawn hnodup h hgone
      moves := fun _ h _ hnodup' hagrees hmoved => failoverPick_moves hnodup' hagrees h hmoved }⟩

private def foConfig : AggregatorConfig := { AggregatorConfig.default with strategy := .failover }

private def foUplink (name : String) (priority : UInt32) (healthy : Bool) : CandidateIface :=
  ⟨name, .ethernet, ⟨priority, 1, true⟩, 0, 0, healthy⟩

/-- Two of the three share the top priority. -/
private def tied : List CandidateIface :=
  [foUplink "ath0" 10 true, foUplink "eth0" 30 true, foUplink "wlan0" 30 true]

/-- One of the others is gone and one is down. -/
private def bereft : List CandidateIface := [foUplink "eth0" 30 true, foUplink "wlan0" 30 false]

/-- The selected one is down. -/
private def fallen : List CandidateIface :=
  [foUplink "ath0" 10 true, foUplink "eth0" 30 false, foUplink "wlan0" 30 true]

/-- The first of a tie stays selected without the others, and its fall moves the selection. -/
theorem failover_stable_tied :
    selectInterface foConfig tied "10.99.0.1:5000->8.8.8.8:443" 7 = .ok (some "eth0", 7) ∧
      Withdrawn "eth0" tied bereft ∧ failoverPick bereft = some "eth0" ∧
      failoverPick fallen = some "wlan0" ∧
      ((∀ c ∈ usableOf fallen, c.name ≠ "eth0") ∨
        ∃ c ∈ usableOf fallen, c.name = "eth0" ∧ ∃ d ∈ usableOf fallen,
          Better fallen d c ∧ ∀ e ∈ usableOf tied, e.name ≠ d.name) ∧
      FailoverStable tied := by
  obtain ⟨hselect, hstable⟩ := failover_stable (rfl : foConfig.strategy = .failover)
  have hpick : failoverPick tied = some "eth0" := by decide +kernel
  have hstable := hstable tied (by decide)
  have hgone : Withdrawn "eth0" tied bereft :=
    .absent (by decide) (.same _ (.unhealthy (by decide) .nil))
  have hagrees : Agrees tied fallen := by
    refine ⟨by decide, ?_⟩
    intro a b h _ _
    exact h
  have hfallen : failoverPick fallen = some "wlan0" := by decide +kernel
  have hmoves := hstable.moves "eth0" hpick fallen (by decide) hagrees (by rw [hfallen]; decide)
  have hkept := hstable.withdrawn "eth0" hpick bereft hgone
  exact ⟨by rw [hselect, hpick], hgone, hkept, hfallen, hmoves, hstable⟩

end Netmux
