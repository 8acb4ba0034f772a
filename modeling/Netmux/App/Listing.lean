import Netmux.App.Serial
import Netmux.Host.Counters

/-!
# The order of a directory listing

`read_dir` lists `/sys/class/net` in no particular order. The enumeration sorts by distinct
names and the sampler files what it reads under them, so that the order shows nowhere: two
data planes that read the same entries in different orders run in lockstep.
-/

namespace Netmux

/-- Two listings of the same entries; a listing that fails says nothing. -/
inductive Relisted : ReadDir → ReadDir → Prop
  | failed (e e' : Nat) : Relisted (.error e) (.error e')
  | listed {d d' : NetDir} (h : d.entries.Perm d'.entries) : Relisted (.ok d) (.ok d')

theorem Relisted.refl (dir : ReadDir) : Relisted dir dir := by
  cases dir with
  | error e => exact .failed e e
  | ok d => exact .listed (List.Perm.refl d.entries)

/-- An entry is found under its name. -/
theorem NetDir.entryOf_eq_some_iff {d : NetDir} {name : String} {entry : SysEntry} :
    d.entryOf name = some entry ↔ entry ∈ d.entries ∧ entry.name = some name := by
  constructor
  · intro h
    have hname := List.find?_some h
    exact ⟨List.mem_of_find?_eq_some h, by simpa using hname⟩
  · rintro ⟨hmem, hname⟩
    have hsome : (d.entryOf name).isSome = true :=
      List.find?_isSome.mpr ⟨entry, hmem, by simpa using hname⟩
    obtain ⟨found, hfound⟩ := Option.isSome_iff_exists.mp hsome
    have hfoundName : found.name = some name := by simpa using List.find?_some hfound
    rw [hfound]
    by_contra hne
    have hapart := List.pairwise_filterMap.mp d.nodup
    have hsymm : Std.Symm fun e e' : SysEntry =>
        ∀ n, e.name = some n → ∀ n', e'.name = some n' → n ≠ n' :=
      ⟨fun e e' h n hn n' hn' => (h n' hn' n hn).symm⟩
    exact hapart.forall (List.mem_of_find?_eq_some hfound) hmem (fun heq => hne (congrArg some heq))
      name hfoundName name hname rfl

theorem Relisted.enumerated_eq {dir dir' : ReadDir} (h : Relisted dir dir') :
    enumerated dir = enumerated dir' := by
  cases h with
  | failed e e' => rfl
  | @listed d d' hperm =>
    have hnodup : ((d.entries.filterMap readInterface).map Interface.name).Nodup :=
      (List.Perm.map _ (perm_sortByKey Interface.name _)).nodup_iff.mp (nodup_enumerated (.ok d))
    exact sortByKey_eq_of_perm (hperm.filterMap readInterface) hnodup

theorem Relisted.entryOf_eq {d d' : NetDir} (h : d.entries.Perm d'.entries) (name : String) :
    d.entryOf name = d'.entryOf name := by
  apply Option.ext
  intro entry
  rw [NetDir.entryOf_eq_some_iff, NetDir.entryOf_eq_some_iff, h.mem_iff]

/-! ## The sampler -/

namespace StatsCollector

/-- Two collectors that answer alike under every name. -/
structure Alike (s s' : StatsCollector) : Prop where
  lastAt : s.lastAt = s'.lastAt
  lastCounters : ∀ name, s.lastCounters.lookup name = s'.lastCounters.lookup name
  samples : ∀ name, s.samples.lookup name = s'.samples.lookup name

theorem Alike.refl (s : StatsCollector) : Alike s s := ⟨rfl, fun _ => rfl, fun _ => rfl⟩

/-- A refresh files the same samples whatever the order of the listing. -/
theorem Alike.refresh {s s' : StatsCollector} (h : Alike s s') (now : Nat) {dir dir' : ReadDir}
    (hdir : Relisted dir dir') : Alike (s.refresh now dir) (s'.refresh now dir') := by
  cases hdir with
  | failed e e' => exact ⟨rfl, fun name => rfl, h.samples⟩
  | @listed d d' hperm =>
    refine ⟨rfl, ?_, ?_⟩
    · intro name
      rw [lookup_lastCounters_refresh, lookup_lastCounters_refresh, Relisted.entryOf_eq hperm]
    · intro name
      have helapsed : s.elapsedAt now = s'.elapsedAt now := by
        rw [elapsedAt, elapsedAt, h.lastAt]
      have hentry := Relisted.entryOf_eq hperm name
      cases hfound : d.entryOf name with
      | none =>
        rw [lookup_samples_unlisted s now hfound,
          lookup_samples_unlisted s' now (hentry.symm.trans hfound), h.samples]
      | some entry =>
        rw [lookup_samples_refresh s now hfound,
          lookup_samples_refresh s' now (hentry.symm.trans hfound), h.lastCounters, helapsed]

end StatsCollector

/-! ## The aggregator -/

/-- The same operation, with its listings in another order. -/
inductive AggOp.Relisted : AggOp → AggOp → Prop
  | same (op : AggOp) : AggOp.Relisted op op
  | refreshCandidates {dir dir' : ReadDir} (h : Netmux.Relisted dir dir') :
    AggOp.Relisted (.refreshCandidates dir) (.refreshCandidates dir')
  | tick (now : Nat) {sampled sampled' listed listed' : ReadDir}
      (hsampled : Netmux.Relisted sampled sampled') (hlisted : Netmux.Relisted listed listed') :
    AggOp.Relisted (.tick now sampled listed) (.tick now sampled' listed')

namespace Aggregator

/-- The aggregator with another sampler. -/
def withStats (a : Aggregator) (stats : StatsCollector) : Aggregator := { a with stats := stats }

theorem candidateOf_congr {stats stats' : StatsCollector} (h : stats.Alike stats')
    (config : AggregatorConfig) : candidateOf config stats = candidateOf config stats' := by
  funext i
  rw [candidateOf, candidateOf, h.samples]

/-- A refresh builds the same candidates whatever the order of the listing. -/
theorem refreshCandidates_congr {stats : StatsCollector} {a : Aggregator}
    (h : a.stats.Alike stats) {dir dir' : ReadDir} (hdir : Netmux.Relisted dir dir') :
    (a.withStats stats).refreshCandidates dir' = (a.refreshCandidates dir).withStats stats := by
  rw [refreshCandidates, refreshCandidates, hdir.enumerated_eq, candidateOf_congr h a.config]
  rfl

/-- So does a tick, which makes nothing of the candidates before it. -/
theorem tick_congr {stats : StatsCollector} {a : Aggregator} (h : a.stats.Alike stats) (now : Nat)
    {sampled sampled' listed listed' : ReadDir} (hsampled : Netmux.Relisted sampled sampled')
    (hlisted : Netmux.Relisted listed listed') :
    (a.withStats stats).tick now sampled' listed' =
      (a.tick now sampled listed).withStats (stats.refresh now sampled') := by
  have hstats := h.refresh now hsampled
  rw [tick, tick, refreshCandidates, refreshCandidates, hlisted.enumerated_eq]
  dsimp only
  rw [candidateOf_congr hstats]
  rfl

/-- Routing does not look at the sampler. -/
theorem route_withStats (a : Aggregator) (stats : StatsCollector) (pkt : List UInt8) :
    (a.withStats stats).route pkt =
      (a.route pkt).map fun r => (r.1, r.2.withStats stats) := by
  rw [route, route]
  cases henabled : a.config.enabled with
  | false =>
    rw [withStats, henabled]
    rfl
  | true =>
    simp only [withStats, henabled, Bool.not_true, Bool.false_eq_true, if_false]
    cases parse pkt with
    | error p => rfl
    | ok parsed =>
      cases parsed with
      | none => rfl
      | some flow =>
        simp only [Checked.ok_bind, select]
        cases selectInterface a.config a.candidates flow.key a.rrCounter with
        | error p => rfl
        | ok r =>
          simp only [Checked.ok_bind]
          cases r.1 with
          | none => rfl
          | some pick => rfl

/-- An operation on a relisted directory does the same. -/
theorem step_relisted {stats : StatsCollector} {a a' : Aggregator} (h : a.stats.Alike stats)
    {op op' : AggOp} (hop : op.Relisted op') {d : Option ForwardDecision}
    (hstep : a.step op = .ok (d, a')) :
    ∃ stats', a'.stats.Alike stats' ∧
      (a.withStats stats).step op' = .ok (d, a'.withStats stats') := by
  cases hop with
  | refreshCandidates hdir =>
    obtain ⟨rfl, rfl⟩ := Prod.mk.inj (Except.ok.inj hstep)
    exact ⟨stats, h, by rw [step, refreshCandidates_congr h hdir]; rfl⟩
  | tick now hsampled hlisted =>
    obtain ⟨rfl, rfl⟩ := Prod.mk.inj (Except.ok.inj hstep)
    exact ⟨_, h.refresh now hsampled, by rw [step, tick_congr h now hsampled hlisted]; rfl⟩
  | same op =>
    cases op with
    | refreshCandidates dir =>
      obtain ⟨rfl, rfl⟩ := Prod.mk.inj (Except.ok.inj hstep)
      exact ⟨stats, h, by rw [step, refreshCandidates_congr h (.refl dir)]; rfl⟩
    | tick now sampled listed =>
      obtain ⟨rfl, rfl⟩ := Prod.mk.inj (Except.ok.inj hstep)
      exact ⟨_, h.refresh now (.refl sampled),
        by rw [step, tick_congr h now (.refl sampled) (.refl listed)]; rfl⟩
    | injectSimCandidates entries =>
      obtain ⟨rfl, rfl⟩ := Prod.mk.inj (Except.ok.inj hstep)
      exact ⟨stats, h, rfl⟩
    | route pkt =>
      have hframe := (routed_of_route hstep).frame
      refine ⟨stats, by rw [hframe.2.2.1]; exact h, ?_⟩
      rw [step] at hstep ⊢
      rw [route_withStats, hstep]
      rfl
    | setMode mode =>
      obtain ⟨rfl, rfl⟩ := Prod.mk.inj (Except.ok.inj hstep)
      exact ⟨stats, h, rfl⟩
    | configure config =>
      obtain ⟨rfl, rfl⟩ := Prod.mk.inj (Except.ok.inj hstep)
      exact ⟨stats, h, rfl⟩

end Aggregator

/-! ## The data plane -/

/-- The same step, with the listings of the policy thread in another order. -/
inductive DataPlaneOp.Relisted : DataPlaneOp → DataPlaneOp → Prop
  | same (op : DataPlaneOp) : DataPlaneOp.Relisted op op
  | policy {op op' : AggOp} (h : op.Relisted op') :
    DataPlaneOp.Relisted (.policy op) (.policy op')

namespace DataPlane

/-- The data plane with another sampler. -/
def withStats (d : DataPlane) (stats : StatsCollector) : DataPlane :=
  { d with aggregator := d.aggregator.withStats stats }

/-- Two data planes that differ at most in how their samplers are laid out. -/
inductive Alike (d : DataPlane) : DataPlane → Prop
  | intro {stats : StatsCollector} (h : d.aggregator.stats.Alike stats) :
    Alike d (d.withStats stats)

theorem Alike.refl (d : DataPlane) : Alike d d := .intro (.refl d.aggregator.stats)

variable {sockets : Sockets} {d d' : DataPlane} {out : Outcome}

/-- Reading a packet does not look at the sampler. -/
theorem readStep_withStats (sockets : Sockets) (d : DataPlane) (stats : StatsCollector)
    (pkt : Buffer) : readStep sockets (d.withStats stats) pkt =
      (readStep sockets d pkt).map fun r => (r.1, r.2.withStats stats) := by
  rw [readStep, readStep]
  split
  · rfl
  cases parse pkt.bytes with
  | error p => rfl
  | ok parsed =>
    cases parsed with
    | none => rfl
    | some flow =>
      simp only [withStats, Checked.ok_bind, Aggregator.route_withStats]
      cases d.aggregator.route pkt.bytes with
      | error p => rfl
      | ok r =>
        simp only [Except.map, Checked.ok_bind]
        split
        · rfl
        split
        · rfl
        split
        · rfl
        split
        · rfl
        · rfl

theorem registerStep_withStats (d : DataPlane) (stats : StatsCollector) (p : Outbound) :
    registerStep (d.withStats stats) p =
      ((d.registerStep p).1, (d.registerStep p).2.withStats stats) := by
  rw [registerStep, registerStep]
  dsimp only [withStats]
  split
  · rfl
  · rfl

theorem sendStep_withStats (d : DataPlane) (stats : StatsCollector) (p : Outbound)
    (accepted : Bool) : sendStep (d.withStats stats) p accepted =
      (sendStep d p accepted).map fun r => (r.1, r.2.withStats stats) := by
  rw [sendStep, sendStep]
  cases rewriteIpv4Source p.buf.bytes p.egressIp with
  | error e => rfl
  | ok r =>
    simp only [Checked.ok_bind]
    split
    · rfl
    split
    · rfl
    · rfl

/-- Nor does any other step of the draining thread or of a capture thread. -/
theorem step_withStats (stats : StatsCollector) {op : DataPlaneOp} (hop : ∀ o, op ≠ .policy o)
    (h : step sockets d op = .ok (out, d')) :
    step sockets (d.withStats stats) op = .ok (out, d'.withStats stats) := by
  obtain ⟨aggregator, nat, thread, txPackets, txBytes, natRxPackets⟩ := d
  have hstalled (hstep : (pure (.stalled, ⟨aggregator, nat, thread, txPackets, txBytes,
      natRxPackets⟩) : Checked (Outcome × DataPlane)) = .ok (out, d')) :
      (pure (.stalled, withStats ⟨aggregator, nat, thread, txPackets, txBytes, natRxPackets⟩
        stats) : Checked (Outcome × DataPlane)) = .ok (out, d'.withStats stats) := by
    obtain ⟨rfl, rfl⟩ := Prod.mk.inj (Except.ok.inj hstep)
    rfl
  cases op with
  | policy o => exact absurd rfl (hop o)
  | capture ifname frame order accepted =>
    rw [step_capture] at h ⊢
    obtain ⟨rfl, hframe⟩ := captureStep_frame
      (e := withStats ⟨aggregator, nat, thread, txPackets, txBytes, natRxPackets⟩ stats) h rfl
    exact hframe
  | read pkt =>
    cases thread with
    | waiting =>
      have hread : readStep sockets
          ⟨aggregator, nat, .waiting, txPackets, txBytes, natRxPackets⟩ pkt = .ok (out, d') := h
      have hframe := readStep_withStats sockets
        ⟨aggregator, nat, .waiting, txPackets, txBytes, natRxPackets⟩ stats pkt
      rw [hread] at hframe
      exact hframe
    | routed p => exact hstalled h
    | registered p s => exact hstalled h
  | register =>
    cases thread with
    | waiting => exact hstalled h
    | routed p =>
      obtain ⟨rfl, rfl⟩ := Prod.mk.inj (Except.ok.inj h)
      exact congrArg Except.ok (registerStep_withStats _ stats p)
    | registered p s => exact hstalled h
  | send accepted =>
    cases thread with
    | waiting => exact hstalled h
    | routed p => exact hstalled h
    | registered p s =>
      have hsend : sendStep
          ⟨aggregator, nat, .registered p s, txPackets, txBytes, natRxPackets⟩ p accepted =
            .ok (out, d') := h
      have hframe := sendStep_withStats
        ⟨aggregator, nat, .registered p s, txPackets, txBytes, natRxPackets⟩ stats p accepted
      rw [hsend] at hframe
      exact hframe

/-- So those steps keep it. -/
theorem stats_step {op : DataPlaneOp} (hop : ∀ o, op ≠ .policy o)
    (h : step sockets d op = .ok (out, d')) : d'.aggregator.stats = d.aggregator.stats := by
  have hsame : d.withStats d.aggregator.stats = d := rfl
  have hframe := step_withStats d.aggregator.stats hop h
  rw [hsame, h] at hframe
  rw [(Prod.mk.inj (Except.ok.inj hframe)).2]
  rfl

/-- One step answers alike, and leaves the two alike. -/
theorem step_relisted {e : DataPlane} (hd : Alike d e) {op op' : DataPlaneOp}
    (hop : op.Relisted op') (hstep : step sockets d op = .ok (out, d')) :
    ∃ e', step sockets e op' = .ok (out, e') ∧ Alike d' e' := by
  cases hd with
  | @intro stats hstats =>
    have hpolicy {op op' : AggOp} (hop : op.Relisted op')
        (hstep : step sockets d (.policy op) = .ok (out, d')) :
        ∃ e', step sockets (d.withStats stats) (.policy op') = .ok (out, e') ∧ Alike d' e' := by
      obtain ⟨decision, a, ha, rfl, rfl⟩ := step_policy.mp hstep
      obtain ⟨stats', hstats', ha'⟩ := Aggregator.step_relisted hstats hop ha
      exact ⟨_, step_policy.mpr ⟨decision, _, ha', rfl, rfl⟩, .intro hstats'⟩
    cases hop with
    | policy hop => exact hpolicy hop hstep
    | same op =>
      by_cases hpolicyOp : ∃ o, op = .policy o
      · obtain ⟨o, rfl⟩ := hpolicyOp
        exact hpolicy (.same o) hstep
      · have hop : ∀ o, op ≠ .policy o := fun o heq => hpolicyOp ⟨o, heq⟩
        refine ⟨d'.withStats stats, step_withStats stats hop hstep, .intro ?_⟩
        rw [stats_step hop hstep]
        exact hstats

/-- The order in which the directory is listed shows nowhere: with its listings in another order,
a run answers the same, step by step, and its last states differ at most in the layout of the
sampler. -/
theorem listing_order_immaterial {t e : DataPlane} {history : List DataPlaneEvent}
    {ops : List DataPlaneOp} (hd : Alike d e) (hrun : Run (step sockets) d history t)
    (hops : List.Forall₂ DataPlaneOp.Relisted (history.map Event.input) ops) :
    ∃ history' t', Run (step sockets) e history' t' ∧ history'.map Event.input = ops ∧
      history'.map Event.output = history.map Event.output ∧ Alike t t' := by
  refine Run.lockstep (R := Alike) (Q := DataPlaneOp.Relisted) ?_ hrun hops hd
  intro _ _ _ _ _ _ hd hop hstep
  exact step_relisted hd hop hstep

/-- The two uplinks, listed the other way round. -/
private def downlinksDir : ReadDir :=
  .ok ⟨[hostEntry "wlan0", hostEntry "eth0"], by decide, by decide⟩

private def listedOps (dir : ReadDir) : List DataPlaneOp :=
  [.policy (.tick 1000000000 dir dir), .read hostBuffer, .register, .send true]

/-- A packet that is sent behind a tick. -/
theorem listing_order_immaterial_swapped :
    ∃ history' t', Run (step uplinkSockets) (start (freshAggregator .default)) history' t' ∧
      history'.map Event.input = listedOps downlinksDir ∧ t'.txPackets = 1 := by
  have hexec : (Run.exec (step uplinkSockets) (start (freshAggregator .default))
      (listedOps uplinksDir)).map (fun r : List DataPlaneEvent × DataPlane => r.2.txPackets) =
        .ok 1 := by decide +kernel
  obtain ⟨history, t, hrun, hinputs, hpackets⟩ := Run.exists_of_exec hexec
  have hdir : Netmux.Relisted uplinksDir downlinksDir := .listed (List.Perm.swap _ _ _)
  have hops : List.Forall₂ DataPlaneOp.Relisted (history.map Event.input)
      (listedOps downlinksDir) := by
    rw [hinputs]
    exact .cons (.policy (.tick _ hdir hdir)) (.cons (.same _) (.cons (.same _)
      (.cons (.same _) .nil)))
  obtain ⟨history', t', hrun', hinputs', -, hlast⟩ :=
    listing_order_immaterial (.refl _) hrun hops
  refine ⟨history', t', hrun', hinputs', ?_⟩
  cases hlast with
  | intro h => exact hpackets

end DataPlane

end Netmux
