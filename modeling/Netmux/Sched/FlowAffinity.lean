import Netmux.Sched.Aggregator

/-!
# Flow affinity

While the configuration and the set of usable interfaces stay the same, a flow that was
routed once keeps its interface under failover and under hash balancing. Round robin and
least loaded never consult the flow table, so there it holds as long as no flow with a
recorded and still usable interface is routed beside a second usable one.
-/

namespace Netmux

/-- What the selector sees of the usable candidates. -/
def Aggregator.schedulable (a : Aggregator) : List (String × UInt32 × UInt32) :=
  (usableOf a.candidates).map fun c => (c.name, c.policy.priority, c.policy.weight)

/-- Same configuration and same set of usable interfaces. -/
structure SameScheduling (a b : Aggregator) : Prop where
  strategy : b.config.strategy = a.config.strategy
  algorithm : b.config.algorithm = a.config.algorithm
  enabled : b.config.enabled = a.config.enabled
  usable : b.schedulable.Perm a.schedulable

/-- Routing and throughput updates. -/
def AggOp.isTraffic : AggOp → Bool
  | .route _ => true
  | .tick _ _ _ => true
  | _ => false

/-- Once a packet of a flow was sent to an interface, every later packet of the flow is, while the
scheduling stays the same. -/
def FlowAffine (history : List AggEvent) : Prop :=
  ∀ (before between after : List AggEvent) (first later : AggEvent),
    history = before ++ first :: (between ++ later :: after) →
    (∀ e ∈ between, e.input.isTraffic = true ∧ SameScheduling first.before e.before) →
    SameScheduling first.before later.before →
    ∀ pkt flow iface, first.input = .route pkt → first.output = some ⟨flow, some iface⟩ →
    ∀ pkt' flow', later.input = .route pkt' → parse pkt' = .ok (some flow') →
      flow'.key = flow.key → later.output = some ⟨flow', some iface⟩

/-- When a step cannot forget an earlier decision. A flow that round robin or least loaded routes
is new, or its recorded interface is no longer usable, or it is the only usable one; and a tick
under failover finds the interfaces of top priority listed by name, as it will leave them. -/
def KeepsAffinity (a : Aggregator) : AggOp → Prop
  | .route pkt => a.config.strategy = .loadBalance → a.config.algorithm ≠ .hash →
    ∀ flow recorded, parse pkt = .ok (some flow) →
      a.flowTable.lookup flow.key = some recorded →
      (∃ c ∈ usableOf a.candidates, c.name = recorded) →
      ∀ c ∈ usableOf a.candidates, c.name = recorded
  | .tick _ _ _ => a.config.strategy = .failover →
    ∀ c, FirstLeast CandidateIface.rank (usableOf a.candidates) c →
      ∀ d ∈ usableOf a.candidates, d.rank = c.rank → c.name ≤ d.name
  | _ => True

/-- A flow is bound to an interface: the flow table records it, it is usable, and the selections
that do not depend on the counter or on loads arrive at it. -/
structure Bound (key iface : String) (a : Aggregator) : Prop where
  recorded : a.flowTable.lookup key = some iface
  usable : ∃ c ∈ usableOf a.candidates, c.name = iface
  failover : a.config.strategy = .failover →
    ∀ c, FirstLeast CandidateIface.rank (usableOf a.candidates) c → c.name = iface
  hash : a.config.strategy = .loadBalance → a.config.algorithm = .hash →
    ∀ c, (poolOf (usableOf a.candidates))[(fnv1a (utf8 key)).toNat %
      (poolOf (usableOf a.candidates)).length]? = some c → c.name = iface

theorem mem_schedulable {a b : Aggregator} (h : b.schedulable.Perm a.schedulable)
    {c : CandidateIface} (hc : c ∈ usableOf a.candidates) :
    ∃ d ∈ usableOf b.candidates, d.name = c.name ∧ d.rank = c.rank := by
  have hmem : (c.name, c.policy.priority, c.policy.weight) ∈ b.schedulable :=
    h.mem_iff.mpr (List.mem_map_of_mem hc)
  obtain ⟨d, hd, heq⟩ := List.mem_map.mp hmem
  simp only [Prod.mk.injEq] at heq
  refine ⟨d, hd, heq.1, ?_⟩
  rw [CandidateIface.rank, CandidateIface.rank, heq.2.1]

/-- The names along the weighted pool depend only on the usable set. -/
theorem map_name_poolOf_schedulable {a b : Aggregator} (h : b.schedulable.Perm a.schedulable) :
    (poolOf (usableOf b.candidates)).map CandidateIface.name =
      (poolOf (usableOf a.candidates)).map CandidateIface.name := by
  have hweights := h.map fun p : String × UInt32 × UInt32 => (p.1, (max p.2.2 1).toNat)
  rw [Aggregator.schedulable, Aggregator.schedulable, List.map_map, List.map_map] at hweights
  exact map_name_poolOf_congr hweights

/-- A decision binds its flow. -/
theorem bound_of_decided {a : Aggregator} {flow : Flow} {iface : String} {rr : UInt64}
    (hpick : Pick a.config a.candidates flow.key a.rrCounter (some iface) rr) :
    Bound flow.key iface (a.decided flow.key iface rr) where
  recorded := AList.lookup_insert _
  usable := by
    obtain ⟨c, hc, husable, hname⟩ := hpick.mem
    exact ⟨c, List.mem_filter.mpr ⟨hc, husable⟩, hname⟩
  failover hs c hc := by
    obtain ⟨_, c', hc', hname⟩ := hpick.failover_inv hs
    rw [hc.unique hc', hname]
  hash hs ha c hc := by
    obtain ⟨_, c', hc', hname⟩ := hpick.hash_inv hs ha
    rw [Option.some.inj (hc.symm.trans hc'), hname]

/-- A bound flow is routed to its interface. -/
theorem Bound.iface_eq {a : Aggregator} {pkt : List UInt8} {flow : Flow} {iface iface' : String}
    {rr : UInt64} (h : Bound flow.key iface a) (hkeeps : KeepsAffinity a (.route pkt))
    (hparse : parse pkt = .ok (some flow))
    (hpick : Pick a.config a.candidates flow.key a.rrCounter (some iface') rr) :
    iface' = iface := by
  cases hpick with
  | failover hs hc => exact h.failover hs _ hc
  | roundRobin hs ha hc =>
    have hmem := mem_of_slot hc
    exact hkeeps hs (by simp [ha]) flow iface hparse h.recorded h.usable _ hmem
  | hash hs ha hc => exact h.hash hs ha _ hc
  | leastLoaded hs ha hc =>
    exact hkeeps hs (by simp [ha]) flow iface hparse h.recorded h.usable _ hc.mem

/-- A routed packet leaves its flow bound. -/
theorem bound_of_routed {a a' : Aggregator} {pkt : List UInt8} {flow : Flow} {iface : String}
    (hrouted : a.Routed pkt (some ⟨flow, some iface⟩) a') :
    a.config.enabled = true ∧ Bound flow.key iface a' := by
  cases hrouted with
  | decided henabled _ hpick => exact ⟨henabled, bound_of_decided hpick⟩

/-- While the aggregator is enabled, every packet of a bound flow goes to its interface. -/
theorem Bound.decision_eq {a a' : Aggregator} {pkt : List UInt8} {flow : Flow} {iface : String}
    {d : Option ForwardDecision} (h : Bound flow.key iface a)
    (henabled : a.config.enabled = true) (hkeeps : KeepsAffinity a (.route pkt))
    (hparse : parse pkt = .ok (some flow)) (hrouted : a.Routed pkt d a') :
    d = some ⟨flow, some iface⟩ := by
  cases hrouted with
  | disabled hdisabled => cases henabled.symm.trans hdisabled
  | unparsed hunparsed => exact absurd (hparse.symm.trans hunparsed) (by simp)
  | unusable hnone =>
    obtain ⟨c, hc, _⟩ := h.usable
    rw [hnone] at hc
    exact absurd hc List.not_mem_nil
  | decided _ hparse' hpick =>
    obtain rfl := Option.some.inj (Except.ok.inj (hparse.symm.trans hparse'))
    rw [h.iface_eq hkeeps hparse hpick]

/-- A routing step keeps every binding. -/
theorem Bound.route {a a' : Aggregator} {pkt : List UInt8} {key iface : String}
    {d : Option ForwardDecision} (h : Bound key iface a)
    (hkeeps : KeepsAffinity a (.route pkt)) (hrouted : a.Routed pkt d a') : Bound key iface a' := by
  cases hrouted with
  | disabled _ => exact h
  | unparsed _ => exact h
  | unusable _ => exact h
  | @decided flow iface' rr _ hparse hpick =>
    refine ⟨?_, h.usable, h.failover, h.hash⟩
    rw [Aggregator.decided, Table.lookup_insert_eq]
    split
    · rename_i hkey
      subst hkey
      rw [h.iface_eq hkeeps hparse hpick]
    · exact h.recorded

/-- A tick that leaves the scheduling the same keeps every binding. -/
theorem Bound.tick {a : Aggregator} {key iface : String} {now : Nat} {sampled listed : ReadDir}
    (h : Bound key iface a) (hkeeps : KeepsAffinity a (.tick now sampled listed))
    (hsame : SameScheduling a (a.tick now sampled listed)) :
    Bound key iface (a.tick now sampled listed) where
  recorded := h.recorded
  usable := by
    obtain ⟨c, hc, hname⟩ := h.usable
    obtain ⟨d, hd, hd', _⟩ := mem_schedulable hsame.usable hc
    exact ⟨d, hd, hd'.trans hname⟩
  failover hs c' hc' := by
    obtain ⟨u, hu, _⟩ := h.usable
    obtain ⟨c, hc⟩ := exists_firstLeast CandidateIface.rank (List.ne_nil_of_mem hu)
    -- `c` was first among the top priority before the tick, `c'` is after it
    obtain ⟨e, he, hename, herank⟩ := mem_schedulable hsame.usable hc.mem
    obtain ⟨d, hd, hdname, hdrank⟩ := mem_schedulable hsame.usable.symm hc'.mem
    have hrank : c'.rank = c.rank := by
      refine le_antisymm ?_ ?_
      · exact (hc'.le he).trans herank.le
      · exact (hc.le hd).trans hdrank.le
    have hlower : c.name ≤ c'.name := by
      rw [← hdname]
      exact hkeeps hs c hc d hd (hdrank.trans hrank)
    have hupper : c'.name ≤ c.name := by
      rw [← hename]
      exact hc'.rel_of_pairwise ((Aggregator.pairwise_refreshCandidates _ listed).filter _) le_rfl
        he (herank.trans hrank.symm)
    rw [le_antisymm hupper hlower]
    exact h.failover hs c hc
  hash hs ha c' hc' := by
    have hnames := map_name_poolOf_schedulable hsame.usable
    have hlength : (poolOf (usableOf (a.tick now sampled listed).candidates)).length =
        (poolOf (usableOf a.candidates)).length := by
      simpa only [List.length_map] using congrArg List.length hnames
    have hname : ((poolOf (usableOf a.candidates)).map CandidateIface.name)[
        (fnv1a (utf8 key)).toNat % (poolOf (usableOf a.candidates)).length]? = some c'.name := by
      rw [← hnames, ← hlength, List.getElem?_map, hc', Option.map_some]
    rw [List.getElem?_map, Option.map_eq_some_iff] at hname
    obtain ⟨c, hc, hcname⟩ := hname
    rw [← hcname]
    exact h.hash hs ha c hc

theorem SameScheduling.trans {a b c : Aggregator} (h : SameScheduling a b)
    (h' : SameScheduling a c) : SameScheduling b c where
  strategy := h'.strategy.trans h.strategy.symm
  algorithm := h'.algorithm.trans h.algorithm.symm
  enabled := h'.enabled.trans h.enabled.symm
  usable := h'.usable.trans h.usable.symm

/-- A binding survives a run of traffic during which the scheduling stays the same. -/
theorem Bound.run {a b : Aggregator} {key iface : String} {between : List AggEvent}
    (h : Bound key iface a) (hrun : Run Aggregator.step a between b)
    (hkeeps : ∀ e ∈ between, KeepsAffinity e.before e.input)
    {origin : Aggregator}
    (hsame : ∀ e ∈ between, e.input.isTraffic = true ∧ SameScheduling origin e.before)
    (hlast : SameScheduling origin b) : Bound key iface b := by
  induction hrun with
  | nil => exact h
  | @cons s t u op d rest hstep hrest ih =>
    rw [List.forall_mem_cons] at hkeeps hsame
    have hnext : SameScheduling origin t := by
      cases hrest with
      | nil => exact hlast
      | cons _ _ => exact (hsame.2 _ List.mem_cons_self).2
    refine ih ?_ hkeeps.2 hsame.2 hlast
    cases op with
    | route pkt => exact h.route hkeeps.1 (Aggregator.routed_of_route hstep)
    | tick now sampled listed =>
      obtain ⟨rfl, rfl⟩ := Prod.mk.inj (Except.ok.inj hstep)
      exact h.tick hkeeps.1 (hsame.1.2.trans hnext)
    | refreshCandidates dir => exact absurd hsame.1.1 (by simp [AggOp.isTraffic])
    | injectSimCandidates entries => exact absurd hsame.1.1 (by simp [AggOp.isTraffic])
    | setMode mode => exact absurd hsame.1.1 (by simp [AggOp.isTraffic])
    | configure config => exact absurd hsame.1.1 (by simp [AggOp.isTraffic])

/-- Flow affinity holds in every run, from any state, whose steps cannot forget a decision. -/
theorem flow_affinity {a b : Aggregator} {history : List AggEvent}
    (hrun : Run Aggregator.step a history b)
    (hkeeps : ∀ e ∈ history, KeepsAffinity e.before e.input) : FlowAffine history := by
  intro before between after first later hsplit hsame hlast pkt flow iface hpkt hfirst pkt' flow'
    hpkt' hparse' hkey
  subst hsplit
  obtain ⟨_, hstep, hrest⟩ := hrun.split
  obtain ⟨hbetween, hstep', _⟩ := hrest.split
  rw [hpkt, hfirst] at hstep
  rw [hpkt'] at hstep'
  have hkeeps' : ∀ e ∈ between, KeepsAffinity e.before e.input := by
    intro e he
    exact hkeeps e (by simp [he])
  have hlater : KeepsAffinity later.before (.route pkt') := by
    rw [← hpkt']
    exact hkeeps later (by simp)
  obtain ⟨henabled, hbound⟩ := bound_of_routed (Aggregator.routed_of_route hstep)
  have hbound' := hbound.run hbetween hkeeps' hsame hlast
  rw [← hkey] at hbound'
  exact hbound'.decision_eq (hlast.enabled.trans henabled) hlater hparse'
    (Aggregator.routed_of_route hstep')

private def routed (a : Aggregator) (iface : String) (rr : UInt64) : AggEvent :=
  ⟨a, .route hostPacket, some ⟨hostFlow, some iface⟩, a.decided hostFlow.key iface rr⟩

private def hashHistory : List AggEvent :=
  let a := uplinksAggregator .default
  [routed a "wlan0" 0, routed (a.decided hostFlow.key "wlan0" 0) "wlan0" 0]

/-- Two packets of one flow under hash balancing, beside two uplinks. -/
theorem flow_affinity_hash : FlowAffine hashHistory := by
  refine flow_affinity (a := uplinksAggregator .default)
    (.cons (Aggregator.route_eq rfl ?_ ?_) (.cons (Aggregator.route_eq rfl ?_ ?_) (.nil _))) ?_
  · decide +kernel
  · decide +kernel
  · decide +kernel
  · decide +kernel
  · intro e he
    simp only [hashHistory, List.mem_cons, List.not_mem_nil, or_false] at he
    rcases he with rfl | rfl <;> exact fun _ hhash => absurd rfl hhash

private def roundRobin : AggregatorConfig :=
  { AggregatorConfig.default with algorithm := .roundRobin }

private def rrState : Nat → Aggregator
  | 0 => uplinksAggregator roundRobin
  | n + 1 => (rrState n).decided hostFlow.key "eth0" (UInt64.ofNat (n + 1))

private def rrHistory : List AggEvent :=
  [⟨freshAggregator roundRobin, .refreshCandidates uplinksDir, none, rrState 0⟩,
    routed (rrState 0) "eth0" 1, routed (rrState 1) "eth0" 2, routed (rrState 2) "wlan0" 3]

/-- Round robin sends the third packet of a flow to the second uplink. -/
theorem flow_affinity_roundRobin :
    ∃ b, Aggregator.new roundRobin .tunnelling .listed 0 = .ok (freshAggregator roundRobin) ∧
      Run Aggregator.step (freshAggregator roundRobin) rrHistory b ∧ ¬ FlowAffine rrHistory := by
  have hparse : parse hostPacket = .ok (some hostFlow) := by decide +kernel
  have hpick (n : Nat) (iface : String) (rr : UInt64)
      (h : selectInterface roundRobin (uplinksAggregator roundRobin).candidates hostFlow.key
        (rrState n).rrCounter = .ok (some iface, rr)) (hn : n < 3) :
      (rrState n).route hostPacket = .ok (some ⟨hostFlow, some iface⟩,
        (rrState n).decided hostFlow.key iface rr) := by
    match n, hn with
    | 0, _ => exact Aggregator.route_eq rfl hparse h
    | 1, _ => exact Aggregator.route_eq rfl hparse h
    | 2, _ => exact Aggregator.route_eq rfl hparse h
  refine ⟨(rrState 2).decided hostFlow.key "wlan0" 3, rfl, ?_, ?_⟩
  · refine .cons rfl (.cons (hpick 0 _ _ ?_ (by decide)) (.cons (hpick 1 _ _ ?_ (by decide))
      (.cons (hpick 2 _ _ ?_ (by decide)) (.nil _))))
    · decide +kernel
    · decide +kernel
    · decide +kernel
  · intro h
    have hlater := h [⟨freshAggregator roundRobin, .refreshCandidates uplinksDir, none, rrState 0⟩,
      routed (rrState 0) "eth0" 1] [] [] (routed (rrState 1) "eth0" 2)
      (routed (rrState 2) "wlan0" 3) rfl (fun e he => absurd he List.not_mem_nil)
      ⟨rfl, rfl, rfl, .refl _⟩ hostPacket hostFlow "eth0" rfl rfl hostPacket hostFlow rfl hparse rfl
    exact absurd hlater (by decide)

end Netmux
