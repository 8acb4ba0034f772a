import Netmux.Sched.Selection

/-!
# Ties between least-loaded interfaces

The scan for the least load keeps the first candidate it meets, so among equal loads the
position in the list decides. That is the documented tie-break by priority exactly when the
first of the least-loaded candidates has the highest priority among them.
-/

namespace Netmux

/-- A candidate of least load and, among those of that load, of highest priority. -/
structure Preferred (list : List CandidateIface) (c : CandidateIface) : Prop where
  mem : c ∈ list
  least : ∀ d ∈ list, c.load ≤ d.load
  priority : ∀ d ∈ list, d.load = c.load → d.policy.priority ≤ c.policy.priority

/-- What a least-loaded selection with ties broken by priority returns. -/
def BreaksTies (candidates : List CandidateIface) : Option String → Prop
  | none => usableOf candidates = []
  | some name => ∃ c, Preferred (usableOf candidates) c ∧ c.name = name

/-- Of the least-loaded usable candidates the first has the highest priority. -/
def TiesInOrder (candidates : List CandidateIface) : Prop :=
  ∀ first ∈ (leasts CandidateIface.load (usableOf candidates)).head?,
    ∀ c ∈ leasts CandidateIface.load (usableOf candidates),
      c.policy.priority ≤ first.policy.priority

/-- Least-loaded balancing never panics and returns the first candidate of least load. -/
theorem selectInterface_leastLoaded {cfg : AggregatorConfig} (candidates : List CandidateIface)
    (hs : cfg.strategy = .loadBalance) (ha : cfg.algorithm = .leastLoaded) (flowKey : String)
    (rr : UInt64) :
    selectInterface cfg candidates flowKey rr = .ok (none, rr) ∧ usableOf candidates = [] ∨
      ∃ c, selectInterface cfg candidates flowKey rr = .ok (some c.name, rr) ∧
        FirstLeast CandidateIface.load (usableOf candidates) c := by
  have hselect : ∃ pick, selectInterface cfg candidates flowKey rr = .ok (pick, rr) := by
    simp only [selectInterface, hs, ha, Checked.pure_eq]
    split
    · exact ⟨_, rfl⟩
    · exact ⟨_, rfl⟩
  obtain ⟨pick, hselect⟩ := hselect
  have hpick := pick_of_selectInterface hselect
  cases pick with
  | none =>
    cases hpick with
    | unusable hnone => exact .inl ⟨hselect, hnone⟩
  | some name =>
    obtain ⟨_, c, hc, rfl⟩ := hpick.leastLoaded_inv hs ha
    exact .inr ⟨c, hselect, hc⟩

/-- The first candidate of least load is the preferred one when the ties stand in order. -/
theorem preferred_iff {list : List CandidateIface} {c : CandidateIface}
    (hc : FirstLeast CandidateIface.load list c) :
    Preferred list c ↔ ∀ first ∈ (leasts CandidateIface.load list).head?,
      ∀ d ∈ leasts CandidateIface.load list, d.policy.priority ≤ first.policy.priority := by
  rw [hc.head?_leasts]
  constructor
  · intro h first hfirst d hd
    obtain rfl := Option.some.inj hfirst
    obtain ⟨hmem, hleast⟩ := mem_leasts.mp hd
    exact h.priority d hmem (le_antisymm (hleast c hc.mem) (hc.le hmem))
  · intro h
    refine ⟨hc.mem, fun d hd => hc.le hd, ?_⟩
    intro d hd hload
    refine h c rfl d (mem_leasts.mpr ⟨hd, ?_⟩)
    intro e he
    rw [hload]
    exact hc.le he

/-- Least-loaded balancing breaks ties by priority exactly on the candidate lists in which the
first of the least-loaded usable candidates has the highest priority among them. -/
theorem leastLoaded_breaksTies_iff {cfg : AggregatorConfig} {candidates : List CandidateIface}
    (hs : cfg.strategy = .loadBalance) (ha : cfg.algorithm = .leastLoaded)
    (hnodup : (candidates.map CandidateIface.name).Nodup) (flowKey : String) (rr : UInt64) :
    (∃ pick, selectInterface cfg candidates flowKey rr = .ok (pick, rr) ∧
      BreaksTies candidates pick) ↔ TiesInOrder candidates := by
  have husable := nodup_map_usableOf hnodup
  rcases selectInterface_leastLoaded candidates hs ha flowKey rr with
    ⟨hselect, hnone⟩ | ⟨c, hselect, hc⟩
  · refine iff_of_true ⟨none, hselect, hnone⟩ ?_
    intro first hfirst
    rw [hnone] at hfirst
    cases hfirst
  · rw [TiesInOrder, ← preferred_iff hc]
    constructor
    · rintro ⟨pick, hpick, hties⟩
      rw [hselect] at hpick
      obtain ⟨rfl, -⟩ := Prod.mk.inj (Except.ok.inj hpick)
      obtain ⟨d, hd, hname⟩ := hties
      rwa [← List.inj_on_of_nodup_map husable hd.mem hc.mem hname]
    · intro hpreferred
      exact ⟨_, hselect, c, hpreferred, rfl⟩

private def llConfig : AggregatorConfig :=
  { AggregatorConfig.default with algorithm := .leastLoaded }

private def idle (name : String) (kind : InterfaceKind) (priority : UInt32) : CandidateIface :=
  ⟨name, kind, ⟨priority, 1, true⟩, 0, 0, true⟩

/-- Two idle uplinks, the preferred one in front. -/
theorem leastLoaded_breaksTies_iff_uplinks :
    (∃ pick, selectInterface llConfig [idle "eth0" .ethernet 30, idle "wlan0" .wifi 10] "x" 0 =
        .ok (pick, 0) ∧
      BreaksTies [idle "eth0" .ethernet 30, idle "wlan0" .wifi 10] pick) ↔
      TiesInOrder [idle "eth0" .ethernet 30, idle "wlan0" .wifi 10] :=
  leastLoaded_breaksTies_iff rfl rfl (by decide) "x" 0

/-- Behind an idle wireless link the idle wired one is never used, although it is preferred. -/
theorem leastLoaded_ignores_priority :
    ¬ ∃ pick, selectInterface llConfig [idle "ath0" .wifi 10, idle "eth0" .ethernet 30] "x" 0 =
        .ok (pick, 0) ∧
      BreaksTies [idle "ath0" .wifi 10, idle "eth0" .ethernet 30] pick := by
  rintro ⟨pick, hpick, hties⟩
  have hrun : selectInterface llConfig [idle "ath0" .wifi 10, idle "eth0" .ethernet 30] "x" 0 =
      .ok (some "ath0", 0) := by
    decide +kernel
  rw [hrun] at hpick
  obtain ⟨rfl, -⟩ := Prod.mk.inj (Except.ok.inj hpick)
  obtain ⟨c, hc, hname⟩ := hties
  have hmem := hc.mem
  have hwired := hc.priority (idle "eth0" .ethernet 30) (by decide)
  rcases List.mem_cons.mp hmem with rfl | hmem
  · exact absurd (hwired rfl) (by decide)
  · obtain rfl := List.mem_singleton.mp hmem
    exact absurd hname (by decide)

end Netmux
