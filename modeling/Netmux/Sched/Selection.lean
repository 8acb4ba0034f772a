import Netmux.Sched.Policy

/-!
# What a selection returns

Whatever the strategy and the algorithm, the selector returns a name exactly when some
candidate is enabled and healthy, and the name is that of such a candidate. Hash balancing
and round robin read the name off one slot of the weighted pool, whose names depend only on
the names and weights of the usable candidates.
-/

namespace Netmux

/-- What every selection promises. -/
structure SelectionExact (cfg : AggregatorConfig) (candidates : List CandidateIface) (rr : UInt64)
    (pick : Option String) (rr' : UInt64) : Prop where
  complete : pick.isSome = true ↔ ∃ c ∈ candidates, c.policy.enabled = true ∧ c.healthy = true
  sound : ∀ name ∈ pick, ∃ c ∈ candidates,
    c.policy.enabled = true ∧ c.healthy = true ∧ c.name = name
  counter : rr' =
    if cfg.strategy = .loadBalance ∧ cfg.algorithm = .roundRobin ∧ pick.isSome = true then rr + 1
    else rr

theorem usableOf_eq_nil_iff {candidates : List CandidateIface} :
    usableOf candidates = [] ↔ ¬ ∃ c ∈ candidates, c.policy.enabled = true ∧ c.healthy = true := by
  simp only [usableOf, List.filter_eq_nil_iff, CandidateIface.usable, Bool.and_eq_true, not_exists,
    not_and]

/-- Every way a selection can end keeps the promise. -/
theorem Pick.exact {cfg : AggregatorConfig} {candidates : List CandidateIface} {flowKey : String}
    {rr rr' : UInt64} {pick : Option String} (h : Pick cfg candidates flowKey rr pick rr') :
    SelectionExact cfg candidates rr pick rr' := by
  have hfound {name : String} {rr' : UInt64}
      (hpick : Pick cfg candidates flowKey rr (some name) rr') :
      ∃ c ∈ candidates, c.policy.enabled = true ∧ c.healthy = true ∧ c.name = name := by
    obtain ⟨c, hc, husable, hname⟩ := hpick.mem
    rw [CandidateIface.usable, Bool.and_eq_true] at husable
    exact ⟨c, hc, husable.1, husable.2, hname⟩
  have hsome {name : String} {rr' : UInt64} (hpick : Pick cfg candidates flowKey rr (some name) rr')
      (hcounter : rr' = if cfg.strategy = .loadBalance ∧ cfg.algorithm = .roundRobin then rr + 1
        else rr) : SelectionExact cfg candidates rr (some name) rr' := by
    obtain ⟨c, hc, henabled, hhealthy, hname⟩ := hfound hpick
    refine ⟨?_, ?_, ?_⟩
    · simp only [Option.isSome_some, true_iff]
      exact ⟨c, hc, henabled, hhealthy⟩
    · intro other hother
      obtain rfl := Option.some.inj hother
      exact ⟨c, hc, henabled, hhealthy, hname⟩
    · simpa only [Option.isSome_some, and_true] using hcounter
  cases h with
  | unusable hnone =>
    refine ⟨?_, ?_, ?_⟩
    · simp only [Option.isSome_none, Bool.false_eq_true, false_iff]
      exact usableOf_eq_nil_iff.mp hnone
    · intro name hname
      exact absurd hname (by simp)
    · simp
  | failover hs hc =>
    apply hsome (.failover hs hc)
    simp [hs]
  | roundRobin hs ha hc =>
    apply hsome (.roundRobin hs ha hc)
    simp [hs, ha]
  | hash hs ha hc =>
    apply hsome (.hash hs ha hc)
    simp [ha]
  | leastLoaded hs ha hc =>
    apply hsome (.leastLoaded hs ha hc)
    simp [ha]

/-- A selection over weights whose sum fits never panics, returns a name exactly when a candidate
is enabled and healthy, and advances the counter only in a successful round robin. -/
theorem selectInterface_exact (cfg : AggregatorConfig) {candidates : List CandidateIface}
    (flowKey : String) (rr : UInt64) (hweight : totalWeight (usableOf candidates) < 2 ^ 64) :
    ∃ pick rr', selectInterface cfg candidates flowKey rr = .ok (pick, rr') ∧
      SelectionExact cfg candidates rr pick rr' := by
  obtain ⟨pick, rr', hselect⟩ := selectInterface_ok cfg flowKey rr hweight
  exact ⟨pick, rr', hselect, (pick_of_selectInterface hselect).exact⟩

/-! ## Slots of the pool -/

/-- The name in the slot that a counter or a hash value falls on. -/
def slotName (list : List CandidateIface) (n : Nat) : Option String :=
  ((poolOf list).map CandidateIface.name)[n % (poolOf list).length]?

private theorem slotName_nil (n : Nat) : slotName [] n = none := rfl

private theorem slotName_of_slot {list : List CandidateIface} {n : Nat} {c : CandidateIface}
    (h : (poolOf list)[n % (poolOf list).length]? = some c) : slotName list n = some c.name := by
  rw [slotName, List.getElem?_map, h, Option.map_some]

/-- Hash balancing reads the slot of the flow key and leaves the counter. -/
theorem selectInterface_hash {cfg : AggregatorConfig} {candidates : List CandidateIface}
    (hs : cfg.strategy = .loadBalance) (ha : cfg.algorithm = .hash)
    (hweight : totalWeight (usableOf candidates) < 2 ^ 64) (flowKey : String) (rr : UInt64) :
    selectInterface cfg candidates flowKey rr =
      .ok (slotName (usableOf candidates) (fnv1a (utf8 flowKey)).toNat, rr) := by
  obtain ⟨pick, rr', hselect⟩ := selectInterface_ok cfg flowKey rr hweight
  rw [hselect]
  have hpick := pick_of_selectInterface hselect
  cases pick with
  | none =>
    cases hpick with
    | unusable hnone => rw [hnone, slotName_nil]
  | some name =>
    obtain ⟨rfl, c, hc, rfl⟩ := hpick.hash_inv hs ha
    rw [slotName_of_slot hc]

/-- Round robin reads the slot of the counter and advances it. -/
theorem selectInterface_roundRobin {cfg : AggregatorConfig} {candidates : List CandidateIface}
    (hs : cfg.strategy = .loadBalance) (ha : cfg.algorithm = .roundRobin)
    (hweight : totalWeight (usableOf candidates) < 2 ^ 64) (flowKey : String) (rr : UInt64) :
    selectInterface cfg candidates flowKey rr =
      .ok (slotName (usableOf candidates) rr.toNat,
        if usableOf candidates = [] then rr else rr + 1) := by
  obtain ⟨pick, rr', hselect⟩ := selectInterface_ok cfg flowKey rr hweight
  rw [hselect]
  have hpick := pick_of_selectInterface hselect
  cases pick with
  | none =>
    cases hpick with
    | unusable hnone => rw [if_pos hnone, hnone, slotName_nil]
  | some name =>
    obtain ⟨rfl, c, hc, rfl⟩ := hpick.roundRobin_inv hs ha
    rw [if_neg (List.ne_nil_of_mem (mem_of_slot hc)), slotName_of_slot hc]

/-- The same usable names and weights fill the slots alike. -/
theorem slotName_congr {list list' : List CandidateIface}
    (h : (list.map fun c => (c.name, c.weight)).Perm (list'.map fun c => (c.name, c.weight)))
    (n : Nat) : slotName list n = slotName list' n := by
  have hnames := map_name_poolOf_congr h
  have hlength : (poolOf list).length = (poolOf list').length := by
    simpa only [List.length_map] using congrArg List.length hnames
  rw [slotName, slotName, hnames, hlength]

/-- Two candidate lists whose enabled and healthy members have one set of names and weights. -/
def SameUsable (candidates candidates' : List CandidateIface) : Prop :=
  (∀ c ∈ usableOf candidates, ∃ d ∈ usableOf candidates', d.name = c.name ∧ d.weight = c.weight) ∧
    ∀ d ∈ usableOf candidates', ∃ c ∈ usableOf candidates, c.name = d.name ∧ c.weight = d.weight

instance (candidates candidates' : List CandidateIface) :
    Decidable (SameUsable candidates candidates') :=
  inferInstanceAs (Decidable (_ ∧ _))

private theorem nodup_usable {candidates : List CandidateIface}
    (h : (candidates.map CandidateIface.name).Nodup) :
    ((usableOf candidates).map fun c => (c.name, c.weight)).Nodup := by
  have hnames := nodup_map_usableOf h
  apply List.Nodup.of_map Prod.fst
  rw [List.map_map]
  exact hnames

/-- Over distinct names one set of usable names and weights is one multiset of them. -/
theorem SameUsable.perm {candidates candidates' : List CandidateIface}
    (h : SameUsable candidates candidates') (hnodup : (candidates.map CandidateIface.name).Nodup)
    (hnodup' : (candidates'.map CandidateIface.name).Nodup) :
    ((usableOf candidates).map fun c => (c.name, c.weight)).Perm
      ((usableOf candidates').map fun c => (c.name, c.weight)) := by
  rw [List.perm_ext_iff_of_nodup (nodup_usable hnodup) (nodup_usable hnodup')]
  intro p
  simp only [List.mem_map]
  constructor
  · rintro ⟨c, hc, rfl⟩
    obtain ⟨d, hd, hname, hweight⟩ := h.1 c hc
    exact ⟨d, hd, by rw [hname, hweight]⟩
  · rintro ⟨d, hd, rfl⟩
    obtain ⟨c, hc, hname, hweight⟩ := h.2 d hd
    exact ⟨c, hc, by rw [hname, hweight]⟩

/-- Hash balancing pins a flow key, and round robin a counter value, to one name that depends only
on the names and weights of the usable candidates. -/
theorem selectInterface_sameUsable {cfg : AggregatorConfig}
    {candidates candidates' : List CandidateIface} (hs : cfg.strategy = .loadBalance)
    (hnodup : (candidates.map CandidateIface.name).Nodup)
    (hnodup' : (candidates'.map CandidateIface.name).Nodup)
    (hsame : SameUsable candidates candidates')
    (hweight : totalWeight (usableOf candidates) < 2 ^ 64) :
    (cfg.algorithm = .hash → ∀ flowKey, ∃ pick, ∀ rr,
      selectInterface cfg candidates flowKey rr = .ok (pick, rr) ∧
        selectInterface cfg candidates' flowKey rr = .ok (pick, rr)) ∧
      (cfg.algorithm = .roundRobin → ∀ rr, ∃ pick rr', ∀ flowKey,
        selectInterface cfg candidates flowKey rr = .ok (pick, rr') ∧
          selectInterface cfg candidates' flowKey rr = .ok (pick, rr')) := by
  have hperm := hsame.perm hnodup hnodup'
  have hweight' : totalWeight (usableOf candidates') < 2 ^ 64 := by
    rw [← totalWeight_congr hperm]
    exact hweight
  constructor
  · intro ha flowKey
    refine ⟨slotName (usableOf candidates) (fnv1a (utf8 flowKey)).toNat, fun rr => ⟨?_, ?_⟩⟩
    · exact selectInterface_hash hs ha hweight flowKey rr
    · rw [slotName_congr hperm]
      exact selectInterface_hash hs ha hweight' flowKey rr
  · intro ha rr
    refine ⟨slotName (usableOf candidates) rr.toNat,
      if usableOf candidates = [] then rr else rr + 1, fun flowKey => ⟨?_, ?_⟩⟩
    · exact selectInterface_roundRobin hs ha hweight flowKey rr
    · have hempty : usableOf candidates = [] ↔ usableOf candidates' = [] := by
        rw [← List.length_eq_zero_iff, ← List.length_eq_zero_iff]
        have hlength := hperm.length_eq
        rw [List.length_map, List.length_map] at hlength
        rw [hlength]
      rw [slotName_congr hperm]
      simp only [hempty]
      exact selectInterface_roundRobin hs ha hweight' flowKey rr

private def ethernet (name : String) (weight : UInt32) (healthy : Bool) : CandidateIface :=
  ⟨name, .ethernet, ⟨30, weight, true⟩, 0, 0, healthy⟩

private def wifi (name : String) (weight : UInt32) (load : ℚ) : CandidateIface :=
  ⟨name, .wifi, ⟨7, weight, true⟩, load, load, true⟩

/-- Two uplinks of weights 2 and 0, one of them down. -/
theorem selectInterface_exact_uplinks :
    ∃ pick rr', selectInterface .default [ethernet "eth0" 2 false, wifi "wlan0" 0 3] "x" 5 =
        .ok (pick, rr') ∧
      SelectionExact .default [ethernet "eth0" 2 false, wifi "wlan0" 0 3] 5 pick rr' :=
  selectInterface_exact .default "x" 5 (by decide)

/-- The same two uplinks in the other order, with other loads, behind one that is down. -/
theorem selectInterface_sameUsable_uplinks :
    (AggregatorConfig.default.algorithm = .hash → ∀ flowKey, ∃ pick, ∀ rr,
      selectInterface .default [ethernet "eth0" 2 true, wifi "wlan0" 1 3] flowKey rr =
          .ok (pick, rr) ∧
        selectInterface .default
          [ethernet "wwan0" 9 false, wifi "wlan0" 1 8, wifi "eth0" 2 0] flowKey rr =
          .ok (pick, rr)) ∧
      (AggregatorConfig.default.algorithm = .roundRobin → ∀ rr, ∃ pick rr', ∀ flowKey,
        selectInterface .default [ethernet "eth0" 2 true, wifi "wlan0" 1 3] flowKey rr =
            .ok (pick, rr') ∧
          selectInterface .default
            [ethernet "wwan0" 9 false, wifi "wlan0" 1 8, wifi "eth0" 2 0] flowKey rr =
            .ok (pick, rr')) :=
  selectInterface_sameUsable rfl (by decide) (by decide) (by decide) (by decide)

end Netmux
