import Netmux.App.Serial

/-!
# The accounts of the data plane

Every packet that the draining thread takes from the TUN leaves it once and in order, dropped
or handed to a socket, whatever the other threads do meanwhile; and the three counters are
exact, up to the wrap of their type.
-/

namespace Netmux

/-- The packet that a read takes from the TUN. -/
def DataPlaneEvent.taken (e : DataPlaneEvent) : Option Buffer :=
  match e.input, e.before.thread with
  | .read pkt, .waiting => some pkt
  | _, _ => none

/-- What is handed to a socket: interface, packet, destination, and whether it was accepted. -/
def Outcome.handed : Outcome → Option (String × List UInt8 × Ipv4Addr × Bool)
  | .sent iface packet dst accepted => some (iface, packet, dst, accepted)
  | _ => none

/-- A finished packet was dropped, or handed over with the address of an interface for its
source. -/
def Settled (sockets : Sockets) (f : Buffer × Outcome) : Prop :=
  (∃ why, f.2 = .dropped why) ∨
    ∃ iface ip accepted, sockets.ifaceIps.lookup iface = some ip ∧
      f.2 = .sent iface (rewritten .source f.1.bytes ip) (addrAt f.1.bytes 16) accepted

/-- The accounts of a history that ends in a state. -/
structure Accounts (sockets : Sockets) (history : List DataPlaneEvent) (t : DataPlane) : Prop where
  /-- Each packet is done with once, in the order of the reads; the last may be in flight. -/
  packets : (history.filterMap DataPlaneEvent.finished).map Prod.fst ++
    (t.thread.carried.map Outbound.buf).toList = history.filterMap DataPlaneEvent.taken
  settled : ∀ f ∈ history.filterMap DataPlaneEvent.finished, Settled sockets f
  /-- Nothing else is handed to a socket. -/
  handed : history.filterMap (fun e => e.output.handed) =
    (history.filterMap DataPlaneEvent.finished).filterMap fun f => f.2.handed
  txPackets : t.txPackets = UInt64.ofNat (history.map fun e => e.output.txPackets).sum
  txBytes : t.txBytes = UInt64.ofNat (history.map fun e => e.output.txBytes).sum
  natRxPackets : t.natRxPackets = UInt64.ofNat (history.map fun e => e.output.rxPackets).sum

/-! ## The accounts of a step -/

/-- What a step makes of the packet in flight and of the counters. -/
structure StepAccounts (sockets : Sockets) (e : DataPlaneEvent) : Prop where
  packets : (e.before.thread.carried.map Outbound.buf).toList ++ e.taken.toList =
    (e.finished.map Prod.fst).toList ++ (e.after.thread.carried.map Outbound.buf).toList
  settled : DataPlane.ThreadOk sockets e.before → ∀ f, e.finished = some f → Settled sockets f
  handed : e.output.handed = e.finished.bind fun f => f.2.handed
  txPackets : e.after.txPackets = e.before.txPackets + UInt64.ofNat e.output.txPackets
  txBytes : e.after.txBytes = e.before.txBytes + UInt64.ofNat e.output.txBytes
  natRxPackets : e.after.natRxPackets = e.before.natRxPackets + UInt64.ofNat e.output.rxPackets

namespace DataPlane

variable {sockets : Sockets} {d d' : DataPlane} {out : Outcome}

/-- A packet that is read is dropped, or carried from then on. -/
theorem of_readStep {pkt : Buffer} (h : d.readStep sockets pkt = .ok (out, d')) :
    ∃ a, (∃ why, out = .dropped why ∧ d' = { d with aggregator := a }) ∨
      ∃ p, p.buf = pkt ∧ out = .routed p.iface ∧
        d' = { d with aggregator := a, thread := .routed p } := by
  have hdropped {why : Drop} {a : Aggregator}
      (h : (pure (.dropped why, { d with aggregator := a }) : Checked (Outcome × DataPlane)) =
        .ok (out, d')) :
      ∃ a, (∃ why, out = .dropped why ∧ d' = { d with aggregator := a }) ∨
        ∃ p, p.buf = pkt ∧ out = .routed p.iface ∧
          d' = { d with aggregator := a, thread := .routed p } := by
    obtain ⟨rfl, rfl⟩ := Prod.mk.inj (Except.ok.inj h)
    exact ⟨a, .inl ⟨why, rfl, rfl⟩⟩
  rw [readStep] at h
  split at h
  · exact hdropped h
  obtain ⟨parsed, -, h⟩ := Checked.bind_eq_ok.mp h
  cases parsed with
  | none => exact hdropped h
  | some flow =>
    obtain ⟨⟨decision, a⟩, -, h⟩ := Checked.bind_eq_ok.mp h
    dsimp only at h
    split at h
    · exact hdropped h
    split at h
    · exact hdropped h
    split at h
    · exact hdropped h
    split at h
    · exact hdropped h
    · obtain ⟨rfl, rfl⟩ := Prod.mk.inj (Except.ok.inj h)
      exact ⟨a, .inr ⟨_, rfl, rfl, rfl⟩⟩

/-- A step that counts nothing only has to account for the packet in flight. -/
theorem stepAccounts_uncounted {e : DataPlaneEvent}
    (hpackets : (e.before.thread.carried.map Outbound.buf).toList ++ e.taken.toList =
      (e.finished.map Prod.fst).toList ++ (e.after.thread.carried.map Outbound.buf).toList)
    (hdropped : ∀ f, e.finished = some f → ∃ why, f.2 = .dropped why)
    (hhanded : e.output.handed = none)
    (hout : e.output.txPackets = 0 ∧ e.output.txBytes = 0 ∧ e.output.rxPackets = 0)
    (hkept : e.after.txPackets = e.before.txPackets ∧ e.after.txBytes = e.before.txBytes ∧
      e.after.natRxPackets = e.before.natRxPackets) : StepAccounts sockets e := by
  refine ⟨hpackets, fun _ f hf => .inl (hdropped f hf), ?_, ?_, ?_, ?_⟩
  · rw [hhanded]
    cases hf : e.finished with
    | none => rfl
    | some f =>
      obtain ⟨why, hwhy⟩ := hdropped f hf
      simp only [Option.bind_some, hwhy, Outcome.handed]
  · simp [hout.1, hkept.1]
  · simp [hout.2.1, hkept.2.1]
  · simp [hout.2.2, hkept.2.2]

/-- A step of the draining thread that stands elsewhere has nothing to account for. -/
theorem stepAccounts_stalled {op : DataPlaneOp}
    (htaken : DataPlaneEvent.taken ⟨d, op, .stalled, d⟩ = none)
    (hfinished : DataPlaneEvent.finished ⟨d, op, .stalled, d⟩ = none)
    (h : (pure (.stalled, d) : Checked (Outcome × DataPlane)) = .ok (out, d')) :
    StepAccounts sockets ⟨d, op, out, d'⟩ := by
  obtain ⟨rfl, rfl⟩ := Prod.mk.inj (Except.ok.inj h)
  refine stepAccounts_uncounted ?_ ?_ rfl ⟨rfl, rfl, rfl⟩ ⟨rfl, rfl, rfl⟩
  · simp [htaken, hfinished]
  · intro f hf
    exact absurd (hfinished.symm.trans hf) (by simp)

theorem stepAccounts_read {pkt : Buffer} (hstep : step sockets d (.read pkt) = .ok (out, d')) :
    StepAccounts sockets ⟨d, .read pkt, out, d'⟩ := by
  cases ht : d.thread with
  | waiting =>
    rw [step_read ht] at hstep
    obtain ⟨a, ⟨why, rfl, rfl⟩ | ⟨p, rfl, rfl, rfl⟩⟩ := of_readStep hstep
    · have hfinished : DataPlaneEvent.finished
          ⟨d, .read pkt, .dropped why, { d with aggregator := a }⟩ =
            some (pkt, .dropped why) := by
        simp only [DataPlaneEvent.finished, ht]
      refine stepAccounts_uncounted ?_ ?_ rfl ⟨rfl, rfl, rfl⟩ ⟨rfl, rfl, rfl⟩
      · simp [DataPlaneEvent.taken, DataPlaneEvent.finished, EgressThread.carried, ht]
      · intro f hf
        obtain rfl := Option.some.inj (hfinished.symm.trans hf)
        exact ⟨why, rfl⟩
    · refine stepAccounts_uncounted ?_ ?_ rfl ⟨rfl, rfl, rfl⟩ ⟨rfl, rfl, rfl⟩
      · simp [DataPlaneEvent.taken, DataPlaneEvent.finished, EgressThread.carried, ht]
      · simp [DataPlaneEvent.finished, ht]
  | routed p =>
    simp only [step, ht] at hstep
    exact stepAccounts_stalled (by simp only [DataPlaneEvent.taken, ht])
      (by simp only [DataPlaneEvent.finished, ht]) hstep
  | registered p s =>
    simp only [step, ht] at hstep
    exact stepAccounts_stalled (by simp only [DataPlaneEvent.taken, ht])
      (by simp only [DataPlaneEvent.finished, ht]) hstep

theorem stepAccounts_register (hstep : step sockets d .register = .ok (out, d')) :
    StepAccounts sockets ⟨d, .register, out, d'⟩ := by
  cases ht : d.thread with
  | waiting =>
    simp only [step, ht] at hstep
    exact stepAccounts_stalled rfl (by simp only [DataPlaneEvent.finished, ht]) hstep
  | routed p =>
    simp only [step, ht, registerStep] at hstep
    cases hr : (d.nat.register p.flow p.iface p.egressIp).1 with
    | none =>
      simp only [hr] at hstep
      obtain ⟨rfl, rfl⟩ := Prod.mk.inj (Except.ok.inj hstep)
      refine stepAccounts_uncounted ?_ ?_ rfl ⟨rfl, rfl, rfl⟩ ⟨rfl, rfl, rfl⟩
      · simp [DataPlaneEvent.taken, DataPlaneEvent.finished, EgressThread.carried, ht]
      · simp [DataPlaneEvent.finished, ht]
    | some s =>
      simp only [hr] at hstep
      obtain ⟨rfl, rfl⟩ := Prod.mk.inj (Except.ok.inj hstep)
      refine stepAccounts_uncounted ?_ ?_ rfl ⟨rfl, rfl, rfl⟩ ⟨rfl, rfl, rfl⟩
      · simp [DataPlaneEvent.taken, DataPlaneEvent.finished, EgressThread.carried, ht]
      · simp [DataPlaneEvent.finished, ht]
  | registered p s =>
    simp only [step, ht] at hstep
    exact stepAccounts_stalled rfl (by simp only [DataPlaneEvent.finished, ht]) hstep

theorem stepAccounts_send {accepted : Bool}
    (hstep : step sockets d (.send accepted) = .ok (out, d')) :
    StepAccounts sockets ⟨d, .send accepted, out, d'⟩ := by
  cases ht : d.thread with
  | waiting =>
    simp only [step, ht] at hstep
    exact stepAccounts_stalled rfl (by simp only [DataPlaneEvent.finished, ht]) hstep
  | routed p =>
    simp only [step, ht] at hstep
    exact stepAccounts_stalled rfl (by simp only [DataPlaneEvent.finished, ht]) hstep
  | registered p s =>
    simp only [step, ht] at hstep
    obtain ⟨rfl, hout⟩ := of_sendStep hstep
    have hrx : out.rxPackets = 0 := by
      rcases hout with ⟨why, rfl⟩ | ⟨packet, _, rfl⟩
      · rfl
      · rfl
    refine ⟨?_, ?_, ?_, rfl, rfl, by simp [hrx]⟩
    · simp [DataPlaneEvent.taken, DataPlaneEvent.finished, EgressThread.carried, ht]
    · intro hok f hf
      simp only [DataPlaneEvent.finished, ht, Option.some.injEq] at hf
      subst hf
      rcases hout with ⟨why, rfl⟩ | ⟨packet, hw, rfl⟩
      · exact .inl ⟨why, rfl⟩
      · have hcarries : Carries sockets p := by
          simp only [ThreadOk, ht] at hok
          exact hok.1
        obtain rfl := (Prod.mk.inj (Except.ok.inj (hw.symm.trans hcarries.rewrite_eq))).2
        exact .inr ⟨p.iface, p.egressIp, accepted, hcarries.address, by rw [hcarries.dst_eq]⟩
    · simp only [DataPlaneEvent.finished, ht, Option.bind_some]

/-- Every step keeps its accounts. -/
theorem stepAccounts_of_step {op : DataPlaneOp} (hstep : step sockets d op = .ok (out, d')) :
    StepAccounts sockets ⟨d, op, out, d'⟩ := by
  cases op with
  | read pkt => exact stepAccounts_read hstep
  | register => exact stepAccounts_register hstep
  | send accepted => exact stepAccounts_send hstep
  | capture ifname frame order accepted =>
    have hout : out.handed = none ∧ out.txPackets = 0 ∧ out.txBytes = 0 := by
      cases stepped_of_step hstep with
      | _ => exact ⟨rfl, rfl, rfl⟩
    rw [step_capture] at hstep
    obtain ⟨rfl, -⟩ := captureStep_frame (e := d) hstep rfl
    refine ⟨?_, ?_, hout.1, by simp [hout.2.1], by simp [hout.2.2], rfl⟩
    · simp [DataPlaneEvent.taken, DataPlaneEvent.finished]
    · simp [DataPlaneEvent.finished]
  | policy op =>
    obtain ⟨decision, a, -, rfl, rfl⟩ := step_policy.mp hstep
    refine stepAccounts_uncounted ?_ ?_ rfl ⟨rfl, rfl, rfl⟩ ⟨rfl, rfl, rfl⟩
    · simp [DataPlaneEvent.taken, DataPlaneEvent.finished]
    · simp [DataPlaneEvent.finished]

/-! ## The accounts of a run -/

/-- The accounts of every run balance. -/
theorem accounts_of_run {a : Aggregator} {history : List DataPlaneEvent} {t : DataPlane}
    (hrun : Run (step sockets) (start a) history t) : Accounts sockets history t := by
  have hsteps : ∀ e ∈ history, StepAccounts sockets e :=
    fun e he => stepAccounts_of_step (hrun.step_of_mem he)
  constructor
  · have hpackets := hrun.handsOn
      (f := fun d => (d.thread.carried.map Outbound.buf).toList)
      (g := fun e => (DataPlaneEvent.taken e).toList)
      (k := fun e => ((DataPlaneEvent.finished e).map Prod.fst).toList)
      fun hstep => (stepAccounts_of_step hstep).packets
    rw [← List.filterMap_eq_flatMap_toList, ← List.filterMap_eq_flatMap_toList] at hpackets
    rw [List.map_filterMap]
    exact hpackets.symm
  · intro f hf
    obtain ⟨e, he, hfinished⟩ := List.mem_filterMap.mp hf
    exact (hsteps e he).settled (threadOk_before hrun trivial he) f hfinished
  · rw [List.filterMap_filterMap]
    exact List.filterMap_congr fun e he => (hsteps e he).handed
  · have hcount := hrun.counts (f := txPackets) (g := fun e => e.output.txPackets)
      fun hstep => (stepAccounts_of_step hstep).txPackets
    rw [hcount, start, UInt64.zero_add]
  · have hcount := hrun.counts (f := txBytes) (g := fun e => e.output.txBytes)
      fun hstep => (stepAccounts_of_step hstep).txBytes
    rw [hcount, start, UInt64.zero_add]
  · have hcount := hrun.counts (f := natRxPackets) (g := fun e => e.output.rxPackets)
      fun hstep => (stepAccounts_of_step hstep).natRxPackets
    rw [hcount, start, UInt64.zero_add]

/-- One packet sent, one dropped and one in flight. -/
private def bookedOps : List DataPlaneOp :=
  [.read hostBuffer, .register, .send true, .read ⟨[0x45], by decide⟩, .read hostBuffer]

/-- Such a run. -/
theorem accounts_of_run_booked :
    ∃ history t, Run (step uplinkSockets) (start (uplinksAggregator .default)) history t ∧
      history.map Event.input = bookedOps ∧ t.txPackets = 1 ∧ t.txBytes = 40 ∧
      Accounts uplinkSockets history t := by
  have hexec : (Run.exec (step uplinkSockets) (start (uplinksAggregator .default))
      bookedOps).map (fun r : List DataPlaneEvent × DataPlane =>
        (r.2.txPackets, r.2.txBytes)) = .ok (1, 40) := by decide +kernel
  obtain ⟨history, t, hrun, hinputs, hshown⟩ := Run.exists_of_exec hexec
  obtain ⟨hpackets, hbytes⟩ := Prod.mk.inj hshown
  exact ⟨history, t, hrun, hinputs, hpackets, hbytes, accounts_of_run hrun⟩

end DataPlane

end Netmux
