import Netmux.App.NetMux

/-!
# Disabling an interface

The switch is stored in the configuration and read from the copy inside a candidate. The
tunnelling mode makes that copy anew with every tick; the simulation mode never does, so there
the switch works only for a candidate that was not usable in the first place.
-/

namespace Netmux

namespace NetMuxApp

/-- Nothing can be routed to a name: it is switched off, no candidate of that name is usable, and
no tick is going to inject one. -/
structure Shut (name : String) (a : Aggregator) : Prop where
  off : (Aggregator.policyFor a.config name).enabled = false
  unusable : ∀ c ∈ a.candidates, c.name = name → c.usable = false
  shown : a.mode = .simulation → a.candidates ≠ []

/-- A switched-off interface is no usable candidate of a refresh. -/
theorem unusable_refreshCandidates {a : Aggregator} {name : String} (dir : ReadDir)
    (hoff : (Aggregator.policyFor a.config name).enabled = false) :
    ∀ c ∈ (a.refreshCandidates dir).candidates, c.name = name → c.usable = false := by
  intro c hc hname
  obtain ⟨i, -, hcandidate⟩ := List.mem_filterMap.mp hc
  obtain ⟨-, hi, -, henabled, -⟩ := Aggregator.of_candidateOf hcandidate
  rw [← hi, hname, hoff] at henabled
  rw [CandidateIface.usable, henabled, Bool.false_and]

/-- Steps that do not switch a name on leave it off. -/
theorem Stepped.off {app app' : NetMuxApp} {op : AppOp} {ds : List (Option ForwardDecision)}
    (h : Stepped app op ds app') {name : String} (hop : op ≠ .ifaceAction (.enable name true))
    (hoff : (Aggregator.policyFor app.aggregator.config name).enabled = false) :
    (Aggregator.policyFor app'.aggregator.config name).enabled = false := by
  cases h with
  | edited h => exact h.enabled hop hoff
  | refreshed hmode => exact hoff
  | simulated hmode hroutes =>
    rw [hroutes.config, (Aggregator.simulated_frame _).1]
    exact hoff
  | routed hroutes =>
    rw [← hroutes.config] at hoff
    exact hoff

/-- A tick shuts a name that is off: in tunnelling mode always, in simulation when no candidate
of that name is usable. -/
theorem Stepped.shut_of_tick {app app' : NetMuxApp} {now perTick : Nat} {sampled listed : ReadDir}
    {ds : List (Option ForwardDecision)}
    (h : Stepped app (.tick now sampled listed perTick) ds app') {name : String}
    (hoff : (Aggregator.policyFor app.aggregator.config name).enabled = false)
    (hsim : app.aggregator.mode = .simulation →
      ∀ c ∈ app.aggregator.simulated.candidates, c.name = name → c.usable = false) :
    Shut name app'.aggregator := by
  have hoff' := h.off (by simp) hoff
  cases h with
  | edited h => cases h
  | refreshed hmode =>
    refine ⟨hoff', unusable_refreshCandidates listed hoff, ?_⟩
    intro hsimulation
    cases hmode.symm.trans hsimulation
  | simulated hmode hroutes =>
    refine ⟨hoff', ?_, ?_⟩
    · rw [hroutes.candidates]
      exact hsim hmode
    · rw [hroutes.candidates]
      exact fun _ => Aggregator.candidates_simulated_ne_nil _

/-- It stays shut until it is switched on. -/
theorem Shut.step {app app' : NetMuxApp} {op : AppOp} {ds : List (Option ForwardDecision)}
    {name : String} (h : Shut name app.aggregator) (hstep : Stepped app op ds app')
    (hop : op ≠ .ifaceAction (.enable name true)) : Shut name app'.aggregator := by
  have hstepped := hstep
  cases hstep with
  | edited hedit => exact ⟨hedit.enabled hop h.off, h.unusable, h.shown⟩
  | refreshed hmode =>
    apply hstepped.shut_of_tick h.off
    intro hsimulation
    rw [hmode] at hsimulation
    cases hsimulation
  | simulated hmode hroutes =>
    apply hstepped.shut_of_tick h.off
    intro _
    rw [Aggregator.simulated_of_shown (h.shown hmode)]
    exact h.unusable
  | routed hroutes =>
    refine ⟨?_, ?_, ?_⟩
    · rw [hroutes.config]
      exact h.off
    · rw [hroutes.candidates]
      exact h.unusable
    · rw [hroutes.candidates, hroutes.mode]
      exact h.shown

/-- No step routes to a shut name. -/
theorem Shut.not_routed {app app' : NetMuxApp} {op : AppOp} {ds : List (Option ForwardDecision)}
    {name : String} (h : Shut name app.aggregator) (hstep : Stepped app op ds app')
    {d : ForwardDecision} (hd : some d ∈ ds) : d.interface ≠ some name := by
  intro hname
  have hnone (hnamed : ∃ c ∈ app.aggregator.candidates, c.usable = true ∧ c.name = name) :
      False := by
    obtain ⟨c, hc, husable, hcname⟩ := hnamed
    rw [h.unusable c hc hcname] at husable
    exact Bool.noConfusion husable
  cases hstep with
  | edited hedit => exact absurd hd List.not_mem_nil
  | refreshed hmode => exact absurd hd List.not_mem_nil
  | simulated hmode hroutes =>
    rw [Aggregator.simulated_of_shown (h.shown hmode)] at hroutes
    exact hnone (hroutes.named d hd name hname)
  | routed hroutes => exact hnone (hroutes.named d hd name hname)

/-- In every run of the application, in both modes, after an interface is disabled and a tick that
in simulation mode meets no usable candidate of its name, no packet is routed to it until it is
enabled again. -/
theorem disabled_not_routed {app t : NetMuxApp} {before between after : List AppEvent}
    {disable next : AppEvent} {name : String}
    (hrun : Run step app (before ++ disable :: (between ++ next :: after)) t)
    (hdisable : disable.input = .ifaceAction (.enable name false))
    (hbetween : ∀ e ∈ between, e.input ≠ .ifaceAction (.enable name true))
    (hnext : ∃ now sampled listed perTick, next.input = .tick now sampled listed perTick)
    (hsim : next.before.aggregator.mode = .simulation →
      ∀ c ∈ next.before.aggregator.simulated.candidates, c.name = name → c.usable = false)
    (hafter : ∀ e ∈ after, e.input ≠ .ifaceAction (.enable name true)) :
    ∀ e ∈ after, ∀ d, some d ∈ e.output → d.interface ≠ some name := by
  obtain ⟨-, hdisabled, hrest⟩ := hrun.split
  obtain ⟨hwait, htick, hlater⟩ := hrest.split
  -- the edit switches the name off, and it is still off when the tick comes
  have hoff : (Aggregator.policyFor disable.after.aggregator.config name).enabled = false := by
    rw [hdisable] at hdisabled
    obtain ⟨config, hconfig, hafter⟩ := Checked.bind_eq_ok.mp hdisabled
    rw [← (Prod.mk.inj (Except.ok.inj hafter)).2]
    exact IfaceAction.enabled_enable hconfig
  have hstill : (Aggregator.policyFor next.before.aggregator.config name).enabled = false := by
    apply hwait.invariant_of (I := fun app =>
      (Aggregator.policyFor app.aggregator.config name).enabled = false) _ hbetween hoff
    intro app op ds app' hop hoff hstep
    exact (stepped_of_step hstep).off hop hoff
  have hshut : Shut name next.after.aggregator := by
    obtain ⟨now, sampled, listed, perTick, hinput⟩ := hnext
    rw [hinput] at htick
    exact (stepped_of_step htick).shut_of_tick hstill hsim
  intro e he d hd
  have hshut' : Shut name e.before.aggregator := by
    apply hlater.invariant_before (I := fun app => Shut name app.aggregator) _ hafter hshut e he
    intro app op ds app' hop hshut hstep
    exact hshut.step (stepped_of_step hstep) hop
  exact hshut'.not_routed (stepped_of_step (hlater.step_of_mem he)) hd

private def freshApp (mode : Mode) : NetMuxApp :=
  ⟨{ uplinksAggregator .default with mode := mode }, .default, 0, 0⟩

private def disableOps : List AppOp :=
  [.setStrategy .failover, .ifaceAction (.enable "eth0" false), .tick 1 uplinksDir uplinksDir 1,
    .route hostPacket]

/-- In tunnelling mode the packets move to the other uplink. -/
theorem disabled_not_routed_tunnelling :
    ∃ history t, Run step (freshApp .tunnelling) history t ∧
      history.map Event.input = disableOps ∧
      ∀ e ∈ history.drop 3, ∀ d, some d ∈ e.output → d.interface ≠ some "eth0" := by
  have hexec : (Run.exec step (freshApp .tunnelling) disableOps).map
      (fun r => r.1[2]?.map fun e => e.before.aggregator.mode) = .ok (some .tunnelling) := by
    decide +kernel
  obtain ⟨history, t, hrun, hinputs, hmode⟩ := Run.exists_of_exec hexec
  refine ⟨history, t, hrun, hinputs, ?_⟩
  rw [disableOps] at hinputs
  obtain ⟨strategy, _, rfl, -, hinputs⟩ := List.map_eq_cons_iff.mp hinputs
  obtain ⟨disable, _, rfl, hdisable, hinputs⟩ := List.map_eq_cons_iff.mp hinputs
  obtain ⟨next, _, rfl, hnext, hinputs⟩ := List.map_eq_cons_iff.mp hinputs
  obtain ⟨route, _, rfl, hroute, hinputs⟩ := List.map_eq_cons_iff.mp hinputs
  obtain rfl := List.map_eq_nil_iff.mp hinputs
  have hsplit : Run step (freshApp .tunnelling)
      ([strategy] ++ disable :: ([] ++ next :: [route])) t := hrun
  refine disabled_not_routed hsplit hdisable (by simp) ⟨_, _, _, _, hnext⟩ ?_ ?_
  · intro hsim
    exact absurd ((Option.some.inj hmode).symm.trans hsim) (by decide)
  · intro e he
    rw [List.mem_singleton.mp he, hroute]
    simp

/-- In simulation mode the disabled interface keeps its packets. -/
theorem disabled_still_routed :
    ∃ history t, Run step (freshApp .simulation) history t ∧
      history.map Event.input = disableOps ∧
      ∃ e ∈ history.drop 3, some ⟨hostFlow, some "eth0"⟩ ∈ e.output := by
  have hexec : (Run.exec step (freshApp .simulation) disableOps).map
      (fun r => (r.1.drop 3).map Event.output) = .ok [[some ⟨hostFlow, some "eth0"⟩]] := by
    decide +kernel
  obtain ⟨history, t, hrun, hinputs, houtputs⟩ := Run.exists_of_exec hexec
  obtain ⟨e, he, hout⟩ := List.mem_map.mp (show [some (⟨hostFlow, some "eth0"⟩ : ForwardDecision)] ∈
    (history.drop 3).map Event.output by rw [houtputs]; exact List.mem_cons_self)
  refine ⟨history, t, hrun, hinputs, e, he, ?_⟩
  rw [hout]
  exact List.mem_cons_self

end NetMuxApp

end Netmux
