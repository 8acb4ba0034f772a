import Netmux.Sched.Aggregator

/-!
# The flow table as a log of decisions

A routing step that decides writes the entry of its flow, one that refuses changes nothing, and
no other operation touches the table. So the table holds the last decision for every key.
-/

namespace Netmux

/-- The interface an event decides on for a flow key. -/
def decisionFor (flowKey : String) (e : AggEvent) : Option String :=
  match e.input, e.output with
  | .route _, some d => if d.flow.key = flowKey then d.interface else none
  | _, _ => none

theorem decisionFor_route (flowKey : String) (a b : Aggregator) (pkt : List UInt8)
    (d : ForwardDecision) : decisionFor flowKey ⟨a, .route pkt, some d, b⟩ =
      if d.flow.key = flowKey then d.interface else none := rfl

theorem decisionFor_none (flowKey : String) (a b : Aggregator) (op : AggOp) :
    decisionFor flowKey ⟨a, op, none, b⟩ = none := by
  cases op with
  | _ => rfl

/-- The most recent decision of a history for a flow key. -/
def lastDecision (flowKey : String) (history : List AggEvent) : Option String :=
  history.reverse.findSome? (decisionFor flowKey)

/-- It was taken by some event, and no later one decided on the key. -/
theorem lastDecision_eq_some_iff {flowKey iface : String} {history : List AggEvent} :
    lastDecision flowKey history = some iface ↔
      ∃ before e after, history = before ++ e :: after ∧ decisionFor flowKey e = some iface ∧
        ∀ later ∈ after, decisionFor flowKey later = none := by
  rw [lastDecision, List.findSome?_eq_some_iff]
  constructor
  · rintro ⟨after, e, before, hsplit, he, hafter⟩
    refine ⟨before.reverse, e, after.reverse, ?_, he, ?_⟩
    · rw [← List.reverse_reverse history, hsplit]
      simp
    · intro later hlater
      exact hafter later (List.mem_reverse.mp hlater)
  · rintro ⟨before, e, after, rfl, he, hafter⟩
    refine ⟨after.reverse, e, before.reverse, by simp, he, ?_⟩
    intro later hlater
    exact hafter later (List.mem_reverse.mp hlater)

/-- The counter behind a decision: only round robin moves it. -/
def Aggregator.counterAfter (a : Aggregator) : UInt64 :=
  if a.config.strategy = .loadBalance ∧ a.config.algorithm = .roundRobin then a.rrCounter + 1
  else a.rrCounter

/-- What a call of `route` does to the aggregator. -/
structure RouteEffect (e : AggEvent) (pkt : List UInt8) : Prop where
  refused : e.output = none → e.after = e.before
  decided : ∀ d, e.output = some d → parse pkt = .ok (some d.flow) ∧
    ∃ iface, d.interface = some iface ∧
      e.after = e.before.decided d.flow.key iface e.before.counterAfter
  others : ∀ d, e.output = some d → ∀ flowKey, flowKey ≠ d.flow.key →
    e.after.flowTable.lookup flowKey = e.before.flowTable.lookup flowKey

/-- The counter a selection leaves. -/
theorem Pick.counter_eq {a : Aggregator} {flowKey iface : String} {rr : UInt64}
    (h : Pick a.config a.candidates flowKey a.rrCounter (some iface) rr) :
    rr = a.counterAfter := by
  unfold Aggregator.counterAfter
  cases h with
  | failover hs hc => rw [if_neg (by simp [hs])]
  | roundRobin hs ha hc => rw [if_pos ⟨hs, ha⟩]
  | hash hs ha hc => rw [if_neg (by simp [ha])]
  | leastLoaded hs ha hc => rw [if_neg (by simp [ha])]

theorem routeEffect_of_routed {a b : Aggregator} {pkt : List UInt8} {d : Option ForwardDecision}
    (h : Aggregator.Routed a pkt d b) : RouteEffect ⟨a, .route pkt, d, b⟩ pkt := by
  cases h with
  | disabled h => exact ⟨fun _ => rfl, by simp, by simp⟩
  | unparsed h => exact ⟨fun _ => rfl, by simp, by simp⟩
  | unusable h => exact ⟨fun _ => rfl, by simp, by simp⟩
  | decided henabled hparse hpick =>
    constructor
    · intro hnone
      exact absurd hnone (by simp)
    · intro d hd
      obtain rfl := Option.some.inj hd
      exact ⟨hparse, _, rfl, by rw [hpick.counter_eq]⟩
    · intro d hd flowKey hne
      obtain rfl := Option.some.inj hd
      exact AList.lookup_insert_ne hne

/-- No operation but `route` decides, or touches the flow table. -/
theorem Aggregator.flowTable_of_step {a b : Aggregator} {op : AggOp} {d : Option ForwardDecision}
    (hop : ∀ pkt, op ≠ .route pkt) (hstep : a.step op = .ok (d, b)) :
    d = none ∧ b.flowTable = a.flowTable := by
  cases op with
  | route pkt => exact absurd rfl (hop pkt)
  | refreshCandidates dir =>
    obtain ⟨rfl, rfl⟩ := Prod.mk.inj (Except.ok.inj hstep)
    exact ⟨rfl, rfl⟩
  | tick now sampled listed =>
    obtain ⟨rfl, rfl⟩ := Prod.mk.inj (Except.ok.inj hstep)
    exact ⟨rfl, rfl⟩
  | injectSimCandidates entries =>
    obtain ⟨rfl, rfl⟩ := Prod.mk.inj (Except.ok.inj hstep)
    exact ⟨rfl, rfl⟩
  | setMode mode =>
    obtain ⟨rfl, rfl⟩ := Prod.mk.inj (Except.ok.inj hstep)
    exact ⟨rfl, rfl⟩
  | configure config =>
    obtain ⟨rfl, rfl⟩ := Prod.mk.inj (Except.ok.inj hstep)
    exact ⟨rfl, rfl⟩

/-- Every operation either decides on a key or leaves its entry alone. -/
theorem Aggregator.lookup_of_step {a b : Aggregator} {op : AggOp} {d : Option ForwardDecision}
    (hstep : a.step op = .ok (d, b)) (flowKey : String) :
    b.flowTable.lookup flowKey =
      (decisionFor flowKey ⟨a, op, d, b⟩).or (a.flowTable.lookup flowKey) := by
  by_cases hroute : ∃ pkt, op = .route pkt
  · obtain ⟨pkt, rfl⟩ := hroute
    cases routed_of_route hstep with
    | disabled h => rfl
    | unparsed h => rfl
    | unusable h => rfl
    | decided henabled hparse hpick =>
      rename_i flow iface rr
      rw [decided, Table.lookup_insert_eq, decisionFor_route]
      by_cases hkey : flowKey = flow.key
      · rw [if_pos hkey, if_pos hkey.symm, Option.some_or]
      · rw [if_neg hkey, if_neg (Ne.symm hkey), Option.none_or]
  · obtain ⟨rfl, htable⟩ := flowTable_of_step (by simpa using hroute) hstep
    rw [htable, decisionFor_none, Option.none_or]

/-- The flow table is the log of the decisions of a history. -/
structure DecisionLog (history : List AggEvent) (b : Aggregator) : Prop where
  /-- Its keys are those of the packets that were routed. -/
  keys : ∀ flowKey, flowKey ∈ b.flowTable ↔ ∃ e ∈ history, ∃ pkt d, e.input = .route pkt ∧
    e.output = some d ∧ d.flow.key = flowKey
  /-- Each is mapped to the interface of its most recent decision. -/
  entries : ∀ flowKey iface, b.flowTable.lookup flowKey = some iface ↔
    ∃ before e after, history = before ++ e :: after ∧ decisionFor flowKey e = some iface ∧
      ∀ later ∈ after, decisionFor flowKey later = none
  routes : ∀ e ∈ history, ∀ pkt, e.input = .route pkt → RouteEffect e pkt

/-- Every routing call of a run has that effect. -/
theorem routeEffect_of_run {a b : Aggregator} {history : List AggEvent}
    (hrun : Run Aggregator.step a history b) {e : AggEvent} (he : e ∈ history) {pkt : List UInt8}
    (hroute : e.input = .route pkt) : RouteEffect e pkt := by
  have hstep := hrun.step_of_mem he
  obtain ⟨before, op, d, after⟩ := e
  subst hroute
  exact routeEffect_of_routed (Aggregator.routed_of_route hstep)

/-- An event decides on a key exactly when it routes a packet of it. -/
theorem isSome_decisionFor_iff {e : AggEvent} {flowKey : String}
    (heffect : ∀ pkt, e.input = .route pkt → RouteEffect e pkt) :
    (decisionFor flowKey e).isSome = true ↔
      ∃ pkt d, e.input = .route pkt ∧ e.output = some d ∧ d.flow.key = flowKey := by
  constructor
  · intro h
    unfold decisionFor at h
    split at h
    · rename_i pkt d hinput houtput
      split at h
      · rename_i hkey
        exact ⟨pkt, d, hinput, houtput, hkey⟩
      · exact absurd h (by simp)
    · exact absurd h (by simp)
  · rintro ⟨pkt, d, hinput, houtput, hkey⟩
    obtain ⟨_, iface, hiface, _⟩ := (heffect pkt hinput).decided d houtput
    simp only [decisionFor, hinput, houtput, if_pos hkey, hiface, Option.isSome_some]

/-- In every run of a new aggregator the flow table is exactly the log of its decisions. -/
theorem flowTable_decisionLog {config : AggregatorConfig} {mode : Mode}
    {order : WalkOrder (Σ _ : String, InterfacePolicy)} {now : Nat} {a b : Aggregator}
    (hnew : Aggregator.new config mode order now = .ok a) {history : List AggEvent}
    (hrun : Run Aggregator.step a history b) : DecisionLog history b := by
  have hlookup (flowKey : String) : b.flowTable.lookup flowKey = lastDecision flowKey history := by
    have hlast := hrun.findSome?_reverse (f := fun a => a.flowTable.lookup flowKey)
      fun hstep => Aggregator.lookup_of_step hstep flowKey
    rw [Aggregator.flowTable_new hnew, AList.lookup_empty, Option.or_none] at hlast
    exact hlast
  constructor
  · intro flowKey
    rw [← AList.lookup_isSome, hlookup, lastDecision, List.findSome?_isSome_iff]
    simp only [List.mem_reverse]
    constructor
    · rintro ⟨e, he, hsome⟩
      exact ⟨e, he, (isSome_decisionFor_iff fun _ => routeEffect_of_run hrun he).mp hsome⟩
    · rintro ⟨e, he, hdecided⟩
      exact ⟨e, he, (isSome_decisionFor_iff fun _ => routeEffect_of_run hrun he).mpr hdecided⟩
  · intro flowKey iface
    rw [hlookup, lastDecision_eq_some_iff]
  · intro e he pkt hroute
    exact routeEffect_of_run hrun he hroute

private def balancedConfig : AggregatorConfig :=
  { AggregatorConfig.default with algorithm := .roundRobin }

private def wirelessDir : ReadDir := .ok ⟨[hostEntry "wlan1"], by decide, by decide⟩

/-- A flow that loses its uplink, a malformed packet and one in a pause. -/
private def loggedOps : List AggOp :=
  [.refreshCandidates uplinksDir, .route hostPacket, .tick 1000000000 wirelessDir wirelessDir,
    .route hostPacket, .route [0x45], .configure { balancedConfig with enabled := false },
    .route hostPacket]

/-- Such a run under round robin. -/
theorem flowTable_decisionLog_balanced :
    ∃ history b, Run Aggregator.step (freshAggregator balancedConfig) history b ∧
      history.map Event.input = loggedOps ∧
      history.map (fun e => e.output.bind ForwardDecision.interface) =
        [none, some "eth0", none, some "wlan1", none, none, none] ∧
      DecisionLog history b := by
  have hnew : Aggregator.new balancedConfig .tunnelling .listed 0 =
      .ok (freshAggregator balancedConfig) := rfl
  have hexec : (Run.exec Aggregator.step (freshAggregator balancedConfig) loggedOps).map
      (fun r => r.1.map fun e => e.output.bind ForwardDecision.interface) =
        .ok [none, some "eth0", none, some "wlan1", none, none, none] := by decide +kernel
  obtain ⟨history, b, hrun, hinputs, houtputs⟩ := Run.exists_of_exec hexec
  exact ⟨history, b, hrun, hinputs, houtputs, flowTable_decisionLog hnew hrun⟩

end Netmux
