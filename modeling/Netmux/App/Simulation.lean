import Netmux.App.Tuning
import Netmux.Sched.GeneratorCycle

/-!
# The simulation

A simulated tick routes generated packets until one is refused. Nothing changes in between that
could refuse a later packet, so a tick routes all of its packets or draws a single one. The
generator goes on where the last tick left it, so the packets of a run are those of its
stream in order, whatever is edited between the ticks, and the two counters count them.
-/

namespace Netmux

/-- The answers to the packets that a step drew from the generator. -/
def AppEvent.drawn (e : AppEvent) : List (Option ForwardDecision) :=
  match e.input with
  | .tick .. => e.output
  | _ => []

/-- Packets are routed as long as the user has not switched everything off. -/
def Aggregator.Routable (a : Aggregator) : Prop :=
  a.config.enabled = true ∧ usableOf a.candidates ≠ []

/-- A generated packet is routed exactly then, and leaves it so. -/
theorem Aggregator.route_nextPacket {a a' : Aggregator} {g : PcapGenerator} {len : Nat}
    {decision : Option ForwardDecision} (h : a.route (g.nextPacket len).1 = .ok (decision, a')) :
    (a.Routable ∧ a'.Routable ∧
      ∃ iface, decision = some ⟨PcapGenerator.flowOf g.drawn, some iface⟩) ∨
      ¬ a.Routable ∧ decision = none := by
  have hparse := g.parse_nextPacket_eq len
  cases routed_of_route h with
  | disabled henabled =>
    refine .inr ⟨?_, rfl⟩
    rintro ⟨hon, -⟩
    exact absurd (henabled.symm.trans hon) (by simp)
  | unparsed hnone => exact absurd (hparse.symm.trans hnone) (by simp)
  | unusable husable => exact .inr ⟨fun hroutable => hroutable.2 husable, rfl⟩
  | decided henabled hparsed hpick =>
    obtain rfl := Option.some.inj (Except.ok.inj (hparse.symm.trans hparsed))
    obtain ⟨c, hc, husable, -⟩ := hpick.mem
    have hroutable : a.Routable :=
      ⟨henabled, List.ne_nil_of_mem (List.mem_filter.mpr ⟨hc, husable⟩)⟩
    exact .inl ⟨hroutable, hroutable, _, rfl⟩

namespace NetMuxApp

/-! ## A tick -/

/-- All packets of a tick are routed, or the first is refused and no other is drawn. -/
structure Whole (a : Aggregator) (n : Nat) (answers : List (Option ForwardDecision)) : Prop where
  routed : a.Routable → answers.length = n ∧
    ∀ answer ∈ answers, ∃ flow iface, answer = some ⟨flow, some iface⟩
  refused : ¬ a.Routable → answers = List.replicate (min n 1) none

theorem whole_of_simulate {n : Nat} {app app' : NetMuxApp} {answers : List (Option ForwardDecision)}
    (h : simulate n app = .ok (answers, app')) : Whole app.aggregator n answers := by
  induction n generalizing app answers with
  | zero =>
    obtain ⟨rfl, rfl⟩ := Prod.mk.inj (Except.ok.inj h)
    exact ⟨fun _ => ⟨rfl, fun _ hmem => absurd hmem List.not_mem_nil⟩, fun _ => rfl⟩
  | succ n ih =>
    obtain ⟨⟨decision, aggregator⟩, hroute, h⟩ := Checked.bind_eq_ok.mp h
    rcases Aggregator.route_nextPacket hroute with
      ⟨hroutable, hnext, iface, rfl⟩ | ⟨hrefused, rfl⟩
    · obtain ⟨⟨rest, last⟩, hrest, h⟩ := Checked.bind_eq_ok.mp h
      obtain ⟨rfl, rfl⟩ := Prod.mk.inj (Except.ok.inj h)
      obtain ⟨hlength, hrouted⟩ := (ih hrest).routed hnext
      refine ⟨fun _ => ⟨by rw [List.length_cons, hlength], ?_⟩, fun hnot => absurd hroutable hnot⟩
      rw [List.forall_mem_cons]
      exact ⟨⟨_, _, rfl⟩, hrouted⟩
    · obtain ⟨rfl, rfl⟩ := Prod.mk.inj (Except.ok.inj h)
      refine ⟨fun hroutable => absurd hroutable hrefused, fun _ => ?_⟩
      rw [Nat.min_eq_right (Nat.succ_le_succ (Nat.zero_le n))]
      rfl

/-! ## The stream of the generator -/

/-- The answers go to the packets of the generator in order, and are counted. -/
structure Played (app : NetMuxApp) (answers : List (Option ForwardDecision)) (app' : NetMuxApp) :
    Prop where
  /-- A decision is for the flow of the packet at its place in the stream. -/
  flows : ∀ i d, answers[i]? = some (some d) →
    d.flow = PcapGenerator.flowOf (UInt32.ofNat (app.generator.drawnAt i))
  /-- The stream goes on behind the last of them. -/
  rest : ∀ i, app'.generator.drawnAt i = app.generator.drawnAt (answers.length + i)
  calls : app'.generator.tick = app.generator.tick + UInt64.ofNat answers.length
  txPackets : app'.txPackets = app.txPackets + UInt64.ofNat (answers.countP Option.isSome)
  txBytes : app'.txBytes = app.txBytes + UInt64.ofNat (150 * answers.countP Option.isSome)

/-- Steps that draw nothing. -/
theorem played_nil {app app' : NetMuxApp} (hgenerator : app'.generator = app.generator)
    (hpackets : app'.txPackets = app.txPackets) (hbytes : app'.txBytes = app.txBytes) :
    Played app [] app' := by
  refine ⟨?_, ?_, ?_, ?_, ?_⟩
  · intro i d h
    exact absurd h (by simp)
  · intro i
    rw [hgenerator, List.length_nil, Nat.zero_add]
  · simp [hgenerator]
  · simp [hpackets]
  · simp [hbytes]

/-- One stretch after another. -/
theorem Played.append {app app' app'' : NetMuxApp}
    {answers answers' : List (Option ForwardDecision)} (h : Played app answers app')
    (h' : Played app' answers' app'') : Played app (answers ++ answers') app'' := by
  constructor
  · intro i d hi
    rcases Nat.lt_or_ge i answers.length with hlt | hge
    · rw [List.getElem?_append_left hlt] at hi
      exact h.flows i d hi
    · rw [List.getElem?_append_right hge] at hi
      rw [h'.flows _ d hi, h.rest, Nat.add_sub_cancel' hge]
  · intro i
    rw [h'.rest, h.rest, List.length_append, Nat.add_assoc]
  · rw [h'.calls, h.calls, List.length_append, UInt64.ofNat_add, UInt64.add_assoc]
  · rw [h'.txPackets, h.txPackets, List.countP_append, UInt64.ofNat_add, UInt64.add_assoc]
  · rw [h'.txBytes, h.txBytes, List.countP_append, Nat.mul_add, UInt64.ofNat_add,
      UInt64.add_assoc]

/-- One packet, refused or routed. -/
theorem played_refused (app : NetMuxApp) (aggregator : Aggregator) :
    Played app [none]
      { app with generator := app.generator.advanced, aggregator := aggregator } := by
  refine ⟨?_, ?_, rfl, by simp, by simp⟩
  · intro i d h
    cases i with
    | zero => exact absurd h (by simp)
    | succ i => exact absurd h (by simp)
  · intro i
    rw [List.length_singleton, Nat.add_comm, PcapGenerator.drawnAt_succ]

theorem played_routed (app : NetMuxApp) (aggregator : Aggregator) (iface : String) :
    Played app [some ⟨PcapGenerator.flowOf app.generator.drawn, some iface⟩]
      { aggregator := aggregator
        generator := app.generator.advanced
        txPackets := app.txPackets + 1
        txBytes := app.txBytes + 150 } := by
  refine ⟨?_, ?_, rfl, rfl, rfl⟩
  · intro i d h
    cases i with
    | zero =>
      obtain rfl := Option.some.inj (Option.some.inj h)
      rw [PcapGenerator.drawnAt_zero, UInt32.ofNat_toNat]
    | succ i => exact absurd h (by simp)
  · intro i
    rw [List.length_singleton, Nat.add_comm, PcapGenerator.drawnAt_succ]

theorem played_of_simulate {n : Nat} {app app' : NetMuxApp}
    {answers : List (Option ForwardDecision)} (h : simulate n app = .ok (answers, app')) :
    Played app answers app' := by
  induction n generalizing app answers with
  | zero =>
    obtain ⟨rfl, rfl⟩ := Prod.mk.inj (Except.ok.inj h)
    exact played_nil rfl rfl rfl
  | succ n ih =>
    obtain ⟨⟨decision, aggregator⟩, hroute, h⟩ := Checked.bind_eq_ok.mp h
    rcases Aggregator.route_nextPacket hroute with ⟨-, -, iface, rfl⟩ | ⟨-, rfl⟩
    · obtain ⟨⟨rest, last⟩, hrest, h⟩ := Checked.bind_eq_ok.mp h
      obtain ⟨rfl, rfl⟩ := Prod.mk.inj (Except.ok.inj h)
      exact (played_routed app aggregator iface).append (ih hrest)
    · obtain ⟨rfl, rfl⟩ := Prod.mk.inj (Except.ok.inj h)
      exact played_refused app aggregator

/-! ## Steps and runs -/

/-- A step plays what it drew. -/
theorem played_of_step {app app' : NetMuxApp} {op : AppOp} {answers : List (Option ForwardDecision)}
    (h : app.step op = .ok (answers, app')) :
    Played app (AppEvent.drawn ⟨app, op, answers, app'⟩) app' := by
  cases op with
  | ifaceAction action =>
    obtain ⟨config, hconfig, h⟩ := Checked.bind_eq_ok.mp h
    obtain ⟨rfl, rfl⟩ := Prod.mk.inj (Except.ok.inj h)
    exact played_nil rfl rfl rfl
  | setStrategy strategy =>
    obtain ⟨rfl, rfl⟩ := Prod.mk.inj (Except.ok.inj h)
    exact played_nil rfl rfl rfl
  | setAlgorithm algorithm =>
    obtain ⟨rfl, rfl⟩ := Prod.mk.inj (Except.ok.inj h)
    exact played_nil rfl rfl rfl
  | toggleEnabled =>
    obtain ⟨rfl, rfl⟩ := Prod.mk.inj (Except.ok.inj h)
    exact played_nil rfl rfl rfl
  | tick now sampled listed perTick =>
    cases hmode : app.aggregator.mode with
    | tunnelling =>
      simp only [step, tick, hmode] at h
      obtain ⟨rfl, rfl⟩ := Prod.mk.inj (Except.ok.inj h)
      exact played_nil rfl rfl rfl
    | simulation =>
      simp only [step, tick, hmode] at h
      have hplayed := played_of_simulate h
      exact ⟨hplayed.flows, hplayed.rest, hplayed.calls, hplayed.txPackets, hplayed.txBytes⟩
  | route pkt =>
    obtain ⟨⟨decision, aggregator⟩, hroute, h⟩ := Checked.bind_eq_ok.mp h
    obtain ⟨rfl, rfl⟩ := Prod.mk.inj (Except.ok.inj h)
    exact played_nil rfl rfl rfl

theorem played_of_run {app app' : NetMuxApp} {history : List AppEvent}
    (hrun : Run step app history app') : Played app (history.flatMap AppEvent.drawn) app' := by
  induction hrun with
  | nil app => exact played_nil rfl rfl rfl
  | cons hstep _ ih =>
    rw [List.flatMap_cons]
    exact (played_of_step hstep).append ih

/-- What the simulation did in a history that ends in a state. -/
structure Simulated (history : List AppEvent) (app : NetMuxApp) : Prop where
  /-- The decisions are for the flows of the generator's stream, each in its place. -/
  flows : ∀ i d, (history.flatMap AppEvent.drawn)[i]? = some (some d) →
    d.flow = PcapGenerator.flowOf (UInt32.ofNat (PcapGenerator.default.drawnAt i))
  calls : app.generator.tick = UInt64.ofNat (history.flatMap AppEvent.drawn).length
  txPackets : app.txPackets =
    UInt64.ofNat ((history.flatMap AppEvent.drawn).countP Option.isSome)
  txBytes : app.txBytes =
    UInt64.ofNat (150 * (history.flatMap AppEvent.drawn).countP Option.isSome)
  /-- A tick routes its packets, at most 2000, or refuses the first. -/
  ticks : ∀ e ∈ history, ∀ now sampled listed perTick,
    e.input = .tick now sampled listed perTick → e.before.aggregator.mode = .simulation →
      Whole e.before.aggregator.simulated (min perTick 2000) e.output

/-- Whatever is edited between the ticks, the application plays the stream of the generator, whole
ticks at a time, and its counters are exact. -/
theorem simulated_of_run {mode : Mode} {order : WalkOrder (Σ _ : String, InterfacePolicy)}
    {now : Nat} {dir : ReadDir} {app t : NetMuxApp} (hnew : new mode order now dir = .ok app)
    {history : List AppEvent} (hrun : Run step app history t) : Simulated history t := by
  have hfresh : app.generator = .default ∧ app.txPackets = 0 ∧ app.txBytes = 0 := by
    rw [new] at hnew
    cases ha : Aggregator.new .default mode order now with
    | error e =>
      rw [ha] at hnew
      exact absurd hnew (by simp [bind, Except.bind])
    | ok a =>
      rw [ha] at hnew
      obtain rfl := Except.ok.inj hnew
      exact ⟨rfl, rfl, rfl⟩
  obtain ⟨hgenerator, hpackets, hbytes⟩ := hfresh
  have hplayed := played_of_run hrun
  constructor
  · intro i d hi
    rw [hplayed.flows i d hi, hgenerator]
  · rw [hplayed.calls, hgenerator]
    exact UInt64.zero_add _
  · rw [hplayed.txPackets, hpackets, UInt64.zero_add]
  · rw [hplayed.txBytes, hbytes, UInt64.zero_add]
  · intro e he now sampled listed perTick hinput hmode
    have hstep := hrun.step_of_mem he
    rw [hinput] at hstep
    simp only [step, tick, hmode] at hstep
    exact whole_of_simulate hstep

/-- Two packets, a tick in a pause, and three more. -/
private def pausedOps : List AppOp :=
  [.tick 0 (.error 13) (.error 13) 2, .toggleEnabled, .tick 0 (.error 13) (.error 13) 4,
    .toggleEnabled, .setAlgorithm .roundRobin, .tick 0 (.error 13) (.error 13) 3]

/-- Such a run; the pause costs the packet that it refuses. -/
theorem simulated_of_run_paused :
    ∃ app history t, new .simulation .listed 0 (.error 13) = .ok app ∧
      Run step app history t ∧ history.map Event.input = pausedOps ∧ t.txPackets = 5 ∧
      t.txBytes = 750 ∧ t.generator.tick = 6 ∧ Simulated history t := by
  have hnew : new .simulation .listed 0 (.error 13) = .ok
      ⟨⟨.default, .simulation, StatsCollector.new 0, [], 0, ∅⟩, .default, 0, 0⟩ := rfl
  have hexec : (Run.exec step ⟨⟨.default, .simulation, StatsCollector.new 0, [], 0, ∅⟩, .default,
      0, 0⟩ pausedOps).map (fun r : List AppEvent × NetMuxApp =>
        (r.2.txPackets, r.2.txBytes, r.2.generator.tick)) = .ok (5, 750, 6) := by decide +kernel
  obtain ⟨history, t, hrun, hinputs, hshown⟩ := Run.exists_of_exec hexec
  obtain ⟨hpackets, hshown⟩ := Prod.mk.inj hshown
  obtain ⟨hbytes, hcalls⟩ := Prod.mk.inj hshown
  exact ⟨_, history, t, hnew, hrun, hinputs, hpackets, hbytes, hcalls,
    simulated_of_run hnew hrun⟩

end NetMuxApp

end Netmux
