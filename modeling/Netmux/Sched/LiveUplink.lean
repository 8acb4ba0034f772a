import Netmux.Sched.Aggregator

/-!
# Traffic only goes to live physical uplinks

Every candidate of a reachable aggregator was built by the last refresh, from one interface
of the enumeration it read and from the configuration of that moment. A decision names a
usable candidate, so it inherits what the enumeration and the configuration said.
-/

namespace Netmux

/-- The enumeration and the configuration of a refresh. -/
structure Refresh where
  listed : ReadDir
  config : AggregatorConfig

/-- The refresh an event performs. -/
def refreshOf (e : AggEvent) : Option Refresh :=
  match e.input with
  | .refreshCandidates dir => some ⟨dir, e.before.config⟩
  | .tick _ _ listed => some ⟨listed, e.before.config⟩
  | _ => none

/-- The last refresh of a history, or the given earlier one. -/
def lastRefresh (earlier : Option Refresh) (history : List AggEvent) : Option Refresh :=
  history.foldl (fun last e => (refreshOf e).or last) earlier

/-- Whether an operation injects simulated candidates. -/
def AggOp.isInjection : AggOp → Bool
  | .injectSimCandidates _ => true
  | _ => false

/-- An interface of the enumeration that the configuration lets carry traffic. -/
structure LiveUplink (refresh : Refresh) (name : String) (i : Interface) : Prop where
  listed : i ∈ enumerated refresh.listed
  named : i.name = name
  isUp : i.isUp = true
  carrier : i.carrier = true
  notLoopback : i.kind ≠ .loopback
  notVirtual : i.kind ≠ .virtual
  noVirtualStart : ∀ start ∈ virtualStarts, startsWith name start = false
  enabled : (Aggregator.policyFor refresh.config name).enabled = true

/-- The candidates are those of the given refresh; before the first one there are none. -/
def Sourced (refresh : Option Refresh) (candidates : List CandidateIface) : Prop :=
  ∀ c ∈ candidates, ∃ r, refresh = some r ∧ ∃ i ∈ enumerated r.listed, ∃ stats,
    Aggregator.candidateOf r.config stats i = some c

/-- The kind an enumerated interface carries is the classification of its name. -/
theorem kind_enumerated {dir : ReadDir} {i : Interface} (h : i ∈ enumerated dir) :
    ∃ operstate, i.kind = classify i.name operstate := by
  cases dir with
  | error e => exact absurd h List.not_mem_nil
  | ok d =>
    simp only [enumerated, enumerate, Except.toOption, Option.getD_some, mem_sortByKey,
      List.mem_filterMap] at h
    obtain ⟨entry, _, hread⟩ := h
    obtain ⟨name, _, hi⟩ := Option.map_eq_some_iff.mp hread
    subst hi
    exact ⟨(entry.operstate.map fun s => String.ofList (trim s)).getD "unknown", rfl⟩

/-- A usable candidate of a refresh is a live uplink of it. -/
theorem Sourced.liveUplink {refresh : Option Refresh} {candidates : List CandidateIface}
    (h : Sourced refresh candidates) {c : CandidateIface} (hc : c ∈ candidates)
    (husable : c.usable = true) :
    ∃ r, refresh = some r ∧ ∃ i, LiveUplink r c.name i := by
  obtain ⟨r, hr, i, hi, stats, hcand⟩ := h c hc
  obtain ⟨⟨hloopback, hvirtual⟩, hname, hhealthy, henabled, _⟩ := Aggregator.of_candidateOf hcand
  rw [CandidateIface.usable, hhealthy, henabled] at husable
  simp only [Bool.and_eq_true] at husable
  refine ⟨r, hr, i, hi, hname.symm, husable.2.2, husable.2.1, hloopback, hvirtual, ?_, ?_⟩
  · intro start hstart
    obtain ⟨operstate, hkind⟩ := kind_enumerated hi
    cases hs : startsWith c.name start with
    | false => rfl
    | true =>
      rw [hname] at hs
      exact absurd (hkind.trans (classify_virtual hstart hs operstate)) hvirtual
  · rw [hname]
    exact husable.1

/-- Every operation but an injection keeps the candidates those of the last refresh. -/
theorem Sourced.step {refresh : Option Refresh} {a a' : Aggregator} {op : AggOp}
    {d : Option ForwardDecision} (h : Sourced refresh a.candidates)
    (hstep : a.step op = .ok (d, a')) (hop : op.isInjection = false) :
    Sourced ((refreshOf ⟨a, op, d, a'⟩).or refresh) a'.candidates := by
  have hfresh (b : Aggregator) (dir : ReadDir) (r : Refresh) (hr : r = ⟨dir, b.config⟩) :
      Sourced (some r) (b.refreshCandidates dir).candidates := by
    intro c hc
    obtain ⟨i, hi, hcand⟩ := List.mem_filterMap.mp hc
    subst hr
    exact ⟨_, rfl, i, hi, b.stats, hcand⟩
  cases op with
  | refreshCandidates dir =>
    obtain ⟨rfl, rfl⟩ := Prod.mk.inj (Except.ok.inj hstep)
    exact hfresh a dir _ rfl
  | tick now sampled listed =>
    obtain ⟨rfl, rfl⟩ := Prod.mk.inj (Except.ok.inj hstep)
    exact hfresh { a with
      stats := a.stats.refresh now sampled
      candidates := a.candidates.map (Aggregator.reload (a.stats.refresh now sampled)) }
      listed _ rfl
  | injectSimCandidates entries => exact absurd hop (by simp [AggOp.isInjection])
  | route pkt =>
    have hframe := (Aggregator.routed_of_route hstep).frame
    rw [hframe.2.1]
    exact h
  | setMode mode =>
    obtain ⟨rfl, rfl⟩ := Prod.mk.inj (Except.ok.inj hstep)
    exact h
  | configure config =>
    obtain ⟨rfl, rfl⟩ := Prod.mk.inj (Except.ok.inj hstep)
    exact h

/-- A run without injections keeps the candidates those of its last refresh. -/
theorem Sourced.run {refresh : Option Refresh} {a b : Aggregator} {history : List AggEvent}
    (h : Sourced refresh a.candidates) (hrun : Run Aggregator.step a history b)
    (hops : ∀ e ∈ history, e.input.isInjection = false) :
    Sourced (lastRefresh refresh history) b.candidates := by
  induction hrun generalizing refresh with
  | nil => exact h
  | cons hstep _ ih =>
    rw [List.forall_mem_cons] at hops
    exact ih (h.step hstep hops.1) hops.2

/-- In every run of a new aggregator without injected candidates, a routed packet goes to an
interface that the last refresh listed as a live physical uplink and that was enabled then. -/
theorem route_liveUplink {config : AggregatorConfig} {mode : Mode}
    {order : WalkOrder (Σ _ : String, InterfacePolicy)} {now : Nat} {a b : Aggregator}
    (hnew : Aggregator.new config mode order now = .ok a) {history : List AggEvent}
    (hrun : Run Aggregator.step a history b)
    (hops : ∀ e ∈ history, e.input.isInjection = false) {before after : List AggEvent}
    {e : AggEvent} (hsplit : history = before ++ e :: after) {pkt : List UInt8}
    (hroute : e.input = .route pkt) {d : ForwardDecision} (hd : e.output = some d) {name : String}
    (hname : d.interface = some name) :
    ∃ r, lastRefresh none before = some r ∧ ∃ i, LiveUplink r name i := by
  subst hsplit
  obtain ⟨hbefore, hstep, _⟩ := hrun.split
  have hsourced : Sourced none a.candidates := by
    rw [Aggregator.candidates_new hnew]
    intro c hc
    exact absurd hc List.not_mem_nil
  have hcandidates := hsourced.run hbefore fun e' he' => hops e' (List.mem_append_left _ he')
  rw [hroute] at hstep
  have hrouted := Aggregator.routed_of_route hstep
  rw [hd] at hrouted
  generalize e.after = a' at hrouted
  cases hrouted with
  | decided henabled hparse hpick =>
    obtain rfl := Option.some.inj hname
    obtain ⟨c, hc, husable, rfl⟩ := hpick.mem
    exact hcandidates.liveUplink hc husable

private def hostDir : ReadDir :=
  .ok ⟨[hostEntry "lo", hostEntry "netmux0", hostEntry "eth0"], by decide, by decide⟩

private def hostStart : Aggregator :=
  ⟨.default, .tunnelling, StatsCollector.new 0, [], 0, ∅⟩

private def hostRefreshed : Aggregator := hostStart.refreshCandidates hostDir

private def hostHistory : List AggEvent :=
  [⟨hostStart, .refreshCandidates hostDir, none, hostRefreshed⟩,
    ⟨hostRefreshed, .route hostPacket, some ⟨hostFlow, some "eth0"⟩,
      hostRefreshed.decided hostFlow.key "eth0" 0⟩]

private theorem hostRun :
    Run Aggregator.step hostStart hostHistory (hostRefreshed.decided hostFlow.key "eth0" 0) := by
  refine .cons rfl (.cons ?_ (.nil _))
  exact Aggregator.route_eq rfl (by decide +kernel) (by decide +kernel)

/-- The first packet routed on a host with a loopback, a TUN and an Ethernet device. -/
theorem route_liveUplink_host :
    ∃ r, lastRefresh none [⟨hostStart, .refreshCandidates hostDir, none, hostRefreshed⟩] = some r ∧
      ∃ i, LiveUplink r "eth0" i := by
  have hnew : Aggregator.new .default .tunnelling .listed 0 = .ok hostStart := rfl
  have hsplit : hostHistory = [⟨hostStart, .refreshCandidates hostDir, none, hostRefreshed⟩] ++
      ⟨hostRefreshed, .route hostPacket, some ⟨hostFlow, some "eth0"⟩,
        hostRefreshed.decided hostFlow.key "eth0" 0⟩ :: [] := rfl
  exact route_liveUplink hnew hostRun (by decide) hsplit rfl rfl rfl

end Netmux
