import Netmux.App.EgressSafety
import Netmux.Lib.Commute

/-!
# The data plane as a serial program

The draining thread gives up its locks twice per packet, and the other threads run in
between. A capture that falls between routing and registration might as well have come
before the packet, and an edit of the policy after it. So every interleaving does what some
serial program does, in which a packet passes the whole loop in one step.
-/

namespace Netmux

/-- One step of the serial program. -/
inductive SerialOp where
  | forward (pkt : Buffer) (accepted : Bool)
  | capture (ifname : String) (frame : Buffer) (order : WalkOrder Session) (accepted : Bool)
  | policy (op : AggOp)

namespace DataPlane

/-- The body of `egress_loop` without an interruption. -/
def forward (sockets : Sockets) (d : DataPlane) (pkt : Buffer) (accepted : Bool) :
    Checked (Outcome × DataPlane) :=
  if pkt.bytes.isEmpty then pure (.dropped .idle, d)
  else do
    match ← parse pkt.bytes with
    | none => pure (.dropped .unparsed, d)
    | some flow =>
      let (decision, aggregator) ← d.aggregator.route pkt.bytes
      let d := { d with aggregator := aggregator }
      match decision.bind ForwardDecision.interface with
      | none => pure (.dropped .unrouted, d)
      | some iface =>
        match sockets.ifaceIps.lookup iface with
        | none => pure (.dropped .noAddress, d)
        | some egressIp =>
          match sockets.egress.lookup iface with
          | none => pure (.dropped .noSocket, d)
          | some _ =>
            match Ipv4Addr.fromStr flow.dst with
            | none => pure (.dropped .notIpv4, d)
            | some dst =>
              let (session, nat) := d.nat.register flow iface egressIp
              let d := { d with nat := nat }
              match session with
              | none => pure (.dropped .unregistered, d)
              | some _ =>
                let (ok, out) ← rewriteIpv4Source pkt.bytes egressIp
                if !ok then pure (.dropped .notRewritten, d)
                else if accepted then
                  pure (.sent iface out dst true,
                    { d with
                      txPackets := d.txPackets + 1
                      txBytes := d.txBytes + UInt64.ofNat out.length })
                else pure (.sent iface out dst false, d)

/-- The step function of the serial program. -/
def serialStep (sockets : Sockets) (d : DataPlane) : SerialOp → Checked (Outcome × DataPlane)
  | .forward pkt accepted => d.forward sockets pkt accepted
  | .capture ifname frame order accepted => d.captureStep ifname frame order accepted
  | .policy op => do
    let (decision, aggregator) ← d.aggregator.step op
    pure (.adjusted decision, { d with aggregator := aggregator })

end DataPlane

/-- A recorded step of the serial program. -/
abbrev SerialEvent := Event DataPlane SerialOp Outcome

/-! ## What the threads see -/

/-- A frame of a capture thread, and what became of it. -/
structure CapturedFrame where
  ifname : String
  frame : Buffer
  order : WalkOrder Session
  accepted : Bool
  outcome : Outcome

/-- The move of a captured frame. -/
def CapturedFrame.move (c : CapturedFrame) : DataPlaneOp × Outcome :=
  (.capture c.ifname c.frame c.order c.accepted, c.outcome)

/-- A packet the draining thread is done with, and what became of it. -/
def DataPlaneEvent.finished (e : DataPlaneEvent) : Option (Buffer × Outcome) :=
  match e.input, e.before.thread, e.output with
  | .read pkt, .waiting, .dropped why => some (pkt, .dropped why)
  | .register, .routed p, .dropped why => some (p.buf, .dropped why)
  | .send _, .registered p _, out => some (p.buf, out)
  | _, _, _ => none

def DataPlaneEvent.captured (e : DataPlaneEvent) : Option CapturedFrame :=
  match e.input with
  | .capture ifname frame order accepted => some ⟨ifname, frame, order, accepted, e.output⟩
  | _ => none

/-- An operation of the other threads on the aggregator, and its answer. -/
def DataPlaneEvent.adjusted (e : DataPlaneEvent) : Option (AggOp × Outcome) :=
  match e.input with
  | .policy op => some (op, e.output)
  | _ => none

def SerialEvent.finished (e : SerialEvent) : Option (Buffer × Outcome) :=
  match e.input with
  | .forward pkt _ => some (pkt, e.output)
  | _ => none

def SerialEvent.captured (e : SerialEvent) : Option CapturedFrame :=
  match e.input with
  | .capture ifname frame order accepted => some ⟨ifname, frame, order, accepted, e.output⟩
  | _ => none

def SerialEvent.adjusted (e : SerialEvent) : Option (AggOp × Outcome) :=
  match e.input with
  | .policy op => some (op, e.output)
  | _ => none

/-- No thread can tell the two histories apart: it had the same answers in the same order. -/
structure SameForThreads (history : List DataPlaneEvent) (serial : List SerialEvent) : Prop where
  finished : history.filterMap DataPlaneEvent.finished = serial.filterMap SerialEvent.finished
  captured : history.filterMap DataPlaneEvent.captured = serial.filterMap SerialEvent.captured
  adjusted : history.filterMap DataPlaneEvent.adjusted = serial.filterMap SerialEvent.adjusted

/-! ## What a step counts -/

namespace Outcome

/-- The packets that a step adds to `tx_pkts`. -/
def txPackets : Outcome → Nat
  | .sent _ _ _ true => 1
  | _ => 0

/-- The bytes that it adds to `tx_bytes`. -/
def txBytes : Outcome → Nat
  | .sent _ packet _ true => packet.length
  | _ => 0

/-- The packets that it adds to `rx`. -/
def rxPackets : Outcome → Nat
  | .injected _ _ _ true => 1
  | _ => 0

end Outcome

namespace DataPlane

/-! ## What a step does not look at -/

/-- A frame is answered from the session table alone, and only counts. -/
theorem captureStep_frame {d d' e : DataPlane} {ifname : String} {frame : Buffer}
    {order : WalkOrder Session} {accepted : Bool} {out : Outcome}
    (h : d.captureStep ifname frame order accepted = .ok (out, d')) (hnat : e.nat = d.nat) :
    d' = { d with natRxPackets := d.natRxPackets + UInt64.ofNat out.rxPackets } ∧
      e.captureStep ifname frame order accepted =
        .ok (out, { e with natRxPackets := e.natRxPackets + UInt64.ofNat out.rxPackets }) := by
  have hdropped {why : Drop}
      (h : (pure (.dropped why, d) : Checked (Outcome × DataPlane)) = .ok (out, d')) :
      d' = { d with natRxPackets := d.natRxPackets + UInt64.ofNat out.rxPackets } ∧
        (pure (.dropped why, e) : Checked (Outcome × DataPlane)) =
          .ok (out, { e with natRxPackets := e.natRxPackets + UInt64.ofNat out.rxPackets }) := by
    obtain ⟨rfl, rfl⟩ := Prod.mk.inj (Except.ok.inj h)
    simp [Outcome.rxPackets]
  rw [captureStep] at h ⊢
  split at h
  · rename_i hlen
    rw [if_pos hlen]
    exact hdropped h
  rename_i hlen
  rw [if_neg hlen]
  obtain ⟨first, hfirst, h⟩ := Checked.bind_eq_ok.mp h
  rw [hfirst, Checked.ok_bind]
  split at h
  · rename_i hversion
    rw [if_pos hversion]
    exact hdropped h
  rename_i hversion
  rw [if_neg hversion]
  obtain ⟨parsed, hparse, h⟩ := Checked.bind_eq_ok.mp h
  rw [hparse, Checked.ok_bind]
  cases parsed with
  | none => exact hdropped h
  | some flow =>
    cases hsrc : Ipv4Addr.fromStr flow.src with
    | none =>
      simp only [hsrc] at h ⊢
      exact hdropped h
    | some srcIp =>
      cases hdst : Ipv4Addr.fromStr flow.dst with
      | none =>
        simp only [hsrc, hdst] at h ⊢
        exact hdropped h
      | some dstIp =>
        have hlookup : e.nat.lookupReturn order flow.proto srcIp flow.sport dstIp flow.dport =
            d.nat.lookupReturn order flow.proto srcIp flow.sport dstIp flow.dport := by rw [hnat]
        cases hs : d.nat.lookupReturn order flow.proto srcIp flow.sport dstIp flow.dport with
        | none =>
          simp only [hsrc, hdst, hlookup, hs] at h ⊢
          exact hdropped h
        | some s =>
          simp only [hsrc, hdst, hlookup, hs] at h ⊢
          obtain ⟨⟨ok, pkt⟩, hw, h⟩ := Checked.bind_eq_ok.mp h
          rw [hw, Checked.ok_bind]
          cases ok with
          | false => exact hdropped h
          | true =>
            cases accepted with
            | false =>
              obtain ⟨rfl, rfl⟩ := Prod.mk.inj (Except.ok.inj h)
              simp [Outcome.rxPackets]
            | true =>
              obtain ⟨rfl, rfl⟩ := Prod.mk.inj (Except.ok.inj h)
              exact ⟨rfl, rfl⟩

/-- Reading and routing a packet leaves the return path alone. -/
theorem readStep_returns (sockets : Sockets) (d : DataPlane) (pkt : Buffer) (n : UInt64) :
    readStep sockets { d with natRxPackets := n } pkt =
      (readStep sockets d pkt).map fun r => (r.1, { r.2 with natRxPackets := n }) := by
  rw [readStep, readStep]
  split
  · rfl
  cases parse pkt.bytes with
  | error p => rfl
  | ok parsed =>
    cases parsed with
    | none => rfl
    | some flow =>
      simp only [Checked.ok_bind]
      cases d.aggregator.route pkt.bytes with
      | error p => rfl
      | ok r =>
        simp only [Checked.ok_bind]
        split
        · rfl
        split
        · rfl
        split
        · rfl
        split
        · rfl
        · rfl

/-- Sending looks neither at the aggregator nor at the return path. -/
theorem sendStep_frame (d : DataPlane) (p : Outbound) (accepted : Bool) (a : Aggregator)
    (n : UInt64) : sendStep { d with aggregator := a, natRxPackets := n } p accepted =
      (sendStep d p accepted).map fun r =>
        (r.1, { r.2 with aggregator := a, natRxPackets := n }) := by
  rw [sendStep, sendStep]
  cases rewriteIpv4Source p.buf.bytes p.egressIp with
  | error e => rfl
  | ok r =>
    simp only [Checked.ok_bind]
    split
    · rfl
    split
    · rfl
    · rfl

/-- Nor does a registration look at the aggregator. -/
theorem registerStep_frame (d : DataPlane) (p : Outbound) (a : Aggregator) :
    registerStep { d with aggregator := a } p =
      ((registerStep d p).1, { (registerStep d p).2 with aggregator := a }) := by
  rw [registerStep, registerStep]
  dsimp only
  split
  · rfl
  · rfl

/-- The two steps of a packet that was routed. -/
def finish (d : DataPlane) (p : Outbound) (accepted : Bool) : Checked (Outcome × DataPlane) :=
  let (out, d) := d.registerStep p
  match d.thread with
  | .registered p _ => d.sendStep p accepted
  | _ => pure (out, d)

theorem forward_eq {sockets : Sockets} {d : DataPlane} (ht : d.thread = .waiting) (pkt : Buffer)
    (accepted : Bool) : d.forward sockets pkt accepted = (do
      let (out, d) ← d.readStep sockets pkt
      match d.thread with
      | .routed p => d.finish p accepted
      | _ => pure (out, d)) := by
  obtain ⟨aggregator, nat, thread, txPackets, txBytes, natRxPackets⟩ := d
  obtain rfl : thread = .waiting := ht
  rw [forward, readStep]
  split
  · rfl
  cases parse pkt.bytes with
  | error p => rfl
  | ok parsed =>
    cases parsed with
    | none => rfl
    | some flow =>
      simp only [Checked.ok_bind]
      cases aggregator.route pkt.bytes with
      | error p => rfl
      | ok r =>
        simp only [Checked.ok_bind]
        cases r.1.bind ForwardDecision.interface with
        | none => rfl
        | some iface =>
          dsimp only
          cases sockets.ifaceIps.lookup iface with
          | none => rfl
          | some egressIp =>
            dsimp only
            cases sockets.egress.lookup iface with
            | none => rfl
            | some sock =>
              dsimp only
              cases Ipv4Addr.fromStr flow.dst with
              | none => rfl
              | some dst =>
                simp only [Checked.pure_eq, Checked.ok_bind, finish, registerStep]
                cases (nat.register flow iface egressIp).1 with
                | none => rfl
                | some s => rfl

/-! ## Moving the other threads out of the way -/

section Exchanges

variable {sockets : Sockets} {d d' : DataPlane}

theorem step_capture (sockets : Sockets) (d : DataPlane) (ifname : String) (frame : Buffer)
    (order : WalkOrder Session) (accepted : Bool) :
    step sockets d (.capture ifname frame order accepted) =
      d.captureStep ifname frame order accepted := by
  simp only [step]

theorem serialStep_forward (sockets : Sockets) (d : DataPlane) (pkt : Buffer) (accepted : Bool) :
    serialStep sockets d (.forward pkt accepted) = d.forward sockets pkt accepted := rfl

theorem serialStep_capture (sockets : Sockets) (d : DataPlane) (ifname : String) (frame : Buffer)
    (order : WalkOrder Session) (accepted : Bool) :
    serialStep sockets d (.capture ifname frame order accepted) =
      d.captureStep ifname frame order accepted := rfl

theorem step_read (ht : d.thread = .waiting) (pkt : Buffer) :
    step sockets d (.read pkt) = d.readStep sockets pkt := by
  simp only [step, ht]

theorem step_policy {op : AggOp} {out : Outcome} :
    step sockets d (.policy op) = .ok (out, d') ↔ ∃ decision a,
      d.aggregator.step op = .ok (decision, a) ∧ out = .adjusted decision ∧
        d' = { d with aggregator := a } := by
  simp only [step]
  constructor
  · intro h
    obtain ⟨⟨decision, a⟩, ha, h⟩ := Checked.bind_eq_ok.mp h
    obtain ⟨rfl, rfl⟩ := Prod.mk.inj (Except.ok.inj h)
    exact ⟨decision, a, ha, rfl, rfl⟩
  · rintro ⟨decision, a, ha, rfl, rfl⟩
    rw [ha, Checked.ok_bind]
    rfl

/-- A packet is routed while the draining thread waits, and is carried from then on. -/
theorem routed_of_read {pkt : Buffer} {iface : String}
    (h : step sockets d (.read pkt) = .ok (.routed iface, d')) :
    d.thread = .waiting ∧ d'.nat = d.nat ∧ d'.natRxPackets = d.natRxPackets ∧
      ∃ p, p.buf = pkt ∧ d'.thread = .routed p := by
  cases stepped_of_step h with
  | routed ht hp hroute => exact ⟨ht, rfl, rfl, _, rfl, rfl⟩

/-- A frame can be handled before an edit of the policy. -/
theorem exchanges_policy_capture (sockets : Sockets) (op : AggOp) (out : Outcome)
    (c : CapturedFrame) : Exchanges (step sockets) (.policy op, out) c.move := by
  intro s t u hop hc
  obtain ⟨decision, a, ha, rfl, rfl⟩ := step_policy.mp hop
  simp only [CapturedFrame.move, step_capture] at hc ⊢
  obtain ⟨rfl, hc'⟩ := captureStep_frame (e := s) hc rfl
  exact ⟨_, hc', step_policy.mpr ⟨decision, a, ha, rfl, rfl⟩⟩

/-- It can be handled before a packet is read. -/
theorem exchanges_read_capture (sockets : Sockets) (pkt : Buffer) (iface : String)
    (c : CapturedFrame) : Exchanges (step sockets) (.read pkt, .routed iface) c.move := by
  intro s t u hread hc
  obtain ⟨ht, hnat, hreturns, _⟩ := routed_of_read hread
  simp only [CapturedFrame.move, step_capture] at hc ⊢
  obtain ⟨rfl, hc'⟩ := captureStep_frame (e := s) hc hnat.symm
  refine ⟨_, hc', ?_⟩
  rw [step_read ht] at hread
  rw [step_read (by exact ht), readStep_returns, hread, hreturns]
  rfl

/-- A packet that is sent is dropped, or handed over with its address for a source; either way
the draining thread waits for the next one. -/
theorem of_sendStep {p : Outbound} {accepted : Bool} {out : Outcome}
    (h : d.sendStep p accepted = .ok (out, d')) :
    d' = { d with
      thread := .waiting
      txPackets := d.txPackets + UInt64.ofNat out.txPackets
      txBytes := d.txBytes + UInt64.ofNat out.txBytes } ∧
    ((∃ why, out = .dropped why) ∨ ∃ packet,
      rewriteIpv4Source p.buf.bytes p.egressIp = .ok (true, packet) ∧
        out = .sent p.iface packet p.dst accepted) := by
  obtain ⟨⟨ok, packet⟩, hw, h⟩ := Checked.bind_eq_ok.mp h
  cases ok with
  | false =>
    obtain ⟨rfl, rfl⟩ := Prod.mk.inj (Except.ok.inj h)
    exact ⟨by simp [Outcome.txPackets, Outcome.txBytes], .inl ⟨_, rfl⟩⟩
  | true =>
    cases accepted with
    | false =>
      obtain ⟨rfl, rfl⟩ := Prod.mk.inj (Except.ok.inj h)
      exact ⟨by simp [Outcome.txPackets, Outcome.txBytes], .inr ⟨packet, hw, rfl⟩⟩
    | true =>
      obtain ⟨rfl, rfl⟩ := Prod.mk.inj (Except.ok.inj h)
      exact ⟨rfl, .inr ⟨packet, hw, rfl⟩⟩

/-- A packet can be sent before the aggregator or the return path moves. -/
theorem sendStep_before {p : Outbound} {accepted : Bool} {out : Outcome} {a : Aggregator}
    {n : UInt64}
    (h : sendStep { d with aggregator := a, natRxPackets := n } p accepted = .ok (out, d')) :
    ∃ e, d.sendStep p accepted = .ok (out, e) ∧
      d' = { e with aggregator := a, natRxPackets := n } := by
  rw [sendStep_frame] at h
  cases hsend : d.sendStep p accepted with
  | error e =>
    rw [hsend] at h
    exact absurd h (by simp [Except.map])
  | ok r =>
    rw [hsend] at h
    obtain ⟨rfl, rfl⟩ := Prod.mk.inj (Except.ok.inj h)
    exact ⟨_, rfl, rfl⟩

/-- So can a routed packet be finished before the aggregator moves. -/
theorem finish_before {p : Outbound} {accepted : Bool} {out : Outcome} {a : Aggregator}
    (h : finish { d with aggregator := a } p accepted = .ok (out, d')) :
    ∃ e, d.finish p accepted = .ok (out, e) ∧ e.aggregator = d.aggregator ∧
      d' = { e with aggregator := a } := by
  simp only [finish, registerStep_frame] at h ⊢
  have hagg : (d.registerStep p).2.aggregator = d.aggregator := by
    simp only [registerStep]
    split
    · rfl
    · rfl
  generalize d.registerStep p = r at h hagg ⊢
  obtain ⟨o, aggregator, nat, thread, txPackets, txBytes, natRxPackets⟩ := r
  cases thread with
  | waiting =>
    obtain ⟨rfl, rfl⟩ := Prod.mk.inj (Except.ok.inj h)
    exact ⟨_, rfl, hagg, rfl⟩
  | routed q =>
    obtain ⟨rfl, rfl⟩ := Prod.mk.inj (Except.ok.inj h)
    exact ⟨_, rfl, hagg, rfl⟩
  | registered q s =>
    obtain ⟨e, hsend, rfl⟩ := sendStep_before h
    obtain ⟨rfl, -⟩ := of_sendStep hsend
    exact ⟨_, hsend, hagg, rfl⟩

end Exchanges

/-! ## Every interleaving is serial -/

/-- A history is ahead of a serial one by a packet or none, and by some frames. -/
structure Ahead (packets : List (Buffer × Outcome)) (frames : List CapturedFrame)
    (history : List DataPlaneEvent) (serial : List SerialEvent) : Prop where
  finished : history.filterMap DataPlaneEvent.finished =
    packets ++ serial.filterMap SerialEvent.finished
  captured : history.filterMap DataPlaneEvent.captured =
    frames ++ serial.filterMap SerialEvent.captured
  adjusted : history.filterMap DataPlaneEvent.adjusted = serial.filterMap SerialEvent.adjusted

/-- What is left of a run, seen from the station of the draining thread: a serial program that
first handles the frames captured before a routed packet is registered, then finishes it. -/
inductive Serialized (sockets : Sockets) (history : List DataPlaneEvent) (d t : DataPlane) : Prop
  | waiting {serial : List SerialEvent} (ht : d.thread = .waiting)
      (hrun : Run (serialStep sockets) d serial t) (hahead : Ahead [] [] history serial)
  | routed {p : Outbound} {frames : List CapturedFrame} {d₁ d₂ : DataPlane} {accepted : Bool}
      {out : Outcome} {serial : List SerialEvent} (ht : d.thread = .routed p)
      (hframes : Moves (step sockets) d (frames.map CapturedFrame.move) d₁)
      (hfinish : d₁.finish p accepted = .ok (out, d₂))
      (hrun : Run (serialStep sockets) d₂ serial t)
      (hahead : Ahead [(p.buf, out)] frames history serial)
  | registered {p : Outbound} {s : Session} {d₁ : DataPlane} {accepted : Bool} {out : Outcome}
      {serial : List SerialEvent} (ht : d.thread = .registered p s)
      (hsend : d.sendStep p accepted = .ok (out, d₁))
      (hrun : Run (serialStep sockets) d₁ serial t)
      (hahead : Ahead [(p.buf, out)] [] history serial)

section Serialized

variable {sockets : Sockets} {d d' t : DataPlane} {out : Outcome} {history : List DataPlaneEvent}

/-- An edit of the policy waits until the packet in flight is finished. -/
theorem serialized_policy {op : AggOp} (hstep : step sockets d (.policy op) = .ok (out, d'))
    (ih : Serialized sockets history d' t) :
    Serialized sockets (⟨d, .policy op, out, d'⟩ :: history) d t := by
  obtain ⟨decision, a, ha, rfl, rfl⟩ := step_policy.mp hstep
  have hserial {e : DataPlane} {a : Aggregator} (ha : e.aggregator.step op = .ok (decision, a)) :
      serialStep sockets e (.policy op) =
        .ok (.adjusted decision, { e with aggregator := a }) := by
    simp only [serialStep, ha, Checked.ok_bind, Checked.pure_eq]
  have hahead' {packets : List (Buffer × Outcome)} {frames : List CapturedFrame}
      {serial : List SerialEvent} {e e' d' : DataPlane}
      (h : Ahead packets frames history serial) :
      Ahead packets frames (⟨d, .policy op, .adjusted decision, d'⟩ :: history)
        (⟨e, .policy op, .adjusted decision, e'⟩ :: serial) :=
    ⟨h.finished, h.captured, congrArg _ h.adjusted⟩
  cases ih with
  | waiting ht hrun hahead => exact .waiting ht (.cons (hserial ha) hrun) (hahead' hahead)
  | @routed p frames d₁ d₂ accepted o serial ht hframes hfinish hrun hahead =>
    have hwait : ∀ m ∈ frames.map CapturedFrame.move,
        Exchanges (step sockets) (.policy op, .adjusted decision) m := by
      rintro m hm
      obtain ⟨c, _, rfl⟩ := List.mem_map.mp hm
      exact exchanges_policy_capture sockets op _ c
    obtain ⟨e, hframes', hop⟩ := Moves.behind hwait hstep hframes
    obtain ⟨decision', a', ha', hd, rfl⟩ := step_policy.mp hop
    obtain rfl := Outcome.adjusted.inj hd
    obtain ⟨e', hfinish', hkept, rfl⟩ := finish_before hfinish
    exact .routed ht hframes' hfinish' (.cons (hserial (hkept ▸ ha')) hrun) (hahead' hahead)
  | registered ht hsend hrun hahead =>
    obtain ⟨e, hsend', rfl⟩ := sendStep_before (n := d.natRxPackets) hsend
    obtain ⟨rfl, -⟩ := of_sendStep hsend'
    exact .registered ht hsend' (.cons (hserial ha) hrun) (hahead' hahead)

/-- A frame is handled where it is, or before the packet in flight is read or sent. -/
theorem serialized_capture {c : CapturedFrame}
    (hstep : step sockets d c.move.1 = .ok (c.outcome, d'))
    (ih : Serialized sockets history d' t) :
    Serialized sockets (⟨d, c.move.1, c.outcome, d'⟩ :: history) d t := by
  have hcapture := hstep
  simp only [CapturedFrame.move, step_capture] at hcapture
  obtain ⟨rfl, -⟩ := captureStep_frame (e := d) hcapture rfl
  cases ih with
  | waiting ht hrun hahead =>
    rw [← serialStep_capture sockets] at hcapture
    refine .waiting ht (.cons hcapture hrun) ⟨hahead.finished, ?_, hahead.adjusted⟩
    exact congrArg _ hahead.captured
  | @routed p frames d₁ d₂ accepted o serial ht hframes hfinish hrun hahead =>
    have hframes' : Moves (step sockets) d ((c :: frames).map CapturedFrame.move) d₁ :=
      .cons hstep hframes
    refine .routed ht hframes' hfinish hrun ⟨hahead.finished, ?_, hahead.adjusted⟩
    exact congrArg _ hahead.captured
  | @registered p s d₁ accepted o serial ht hsend hrun hahead =>
    obtain ⟨e, hsend', rfl⟩ := sendStep_before (a := d.aggregator) hsend
    obtain ⟨rfl, -⟩ := of_sendStep hsend'
    obtain ⟨-, hcapture'⟩ := captureStep_frame (e := { d with
      thread := .waiting
      txPackets := d.txPackets + UInt64.ofNat o.txPackets
      txBytes := d.txBytes + UInt64.ofNat o.txBytes }) hcapture rfl
    rw [← serialStep_capture sockets] at hcapture'
    refine .registered ht hsend' (.cons hcapture' hrun) ⟨hahead.finished, ?_, hahead.adjusted⟩
    exact congrArg _ hahead.captured

/-- Frames do not move the draining thread. -/
theorem thread_of_frames {frames : List CapturedFrame}
    (h : Moves (step sockets) d (frames.map CapturedFrame.move) d') : d'.thread = d.thread := by
  induction frames generalizing d with
  | nil =>
    cases h
    rfl
  | cons c frames ih =>
    cases h with
    | cons hs hrest =>
      simp only [CapturedFrame.move, step_capture] at hs
      obtain ⟨rfl, -⟩ := captureStep_frame (e := d) hs rfl
      have hrest' := ih hrest
      exact hrest'

/-- The serial program takes frames as they are. -/
theorem serial_of_frames {frames : List CapturedFrame} {serial : List SerialEvent}
    (h : Moves (step sockets) d (frames.map CapturedFrame.move) d')
    (hrun : Run (serialStep sockets) d' serial t) :
    ∃ serial', Run (serialStep sockets) d serial' t ∧
      serial'.filterMap SerialEvent.finished = serial.filterMap SerialEvent.finished ∧
      serial'.filterMap SerialEvent.captured =
        frames ++ serial.filterMap SerialEvent.captured ∧
      serial'.filterMap SerialEvent.adjusted = serial.filterMap SerialEvent.adjusted := by
  induction frames generalizing d with
  | nil =>
    cases h
    exact ⟨serial, hrun, rfl, rfl, rfl⟩
  | cons c frames ih =>
    cases h with
    | cons hs hrest =>
      simp only [CapturedFrame.move, step_capture] at hs
      obtain ⟨serial', hrun', hfinished, hcaptured, hadjusted⟩ := ih hrest
      refine ⟨⟨d, .capture c.ifname c.frame c.order c.accepted, c.outcome, _⟩ :: serial',
        .cons hs hrun', hfinished, ?_, hadjusted⟩
      exact congrArg _ hcaptured

/-- A step that no thread sees changes nothing. -/
theorem serialized_silent {e : DataPlaneEvent} (hfinished : e.finished = none)
    (hcaptured : e.captured = none) (hadjusted : e.adjusted = none)
    (ih : Serialized sockets history d t) : Serialized sockets (e :: history) d t := by
  have hahead' {packets : List (Buffer × Outcome)} {frames : List CapturedFrame}
      {serial : List SerialEvent} (h : Ahead packets frames history serial) :
      Ahead packets frames (e :: history) serial := by
    refine ⟨?_, ?_, ?_⟩
    · rw [List.filterMap_cons_none hfinished, h.finished]
    · rw [List.filterMap_cons_none hcaptured, h.captured]
    · rw [List.filterMap_cons_none hadjusted, h.adjusted]
  cases ih with
  | waiting ht hrun hahead => exact .waiting ht hrun (hahead' hahead)
  | routed ht hframes hfinish hrun hahead =>
    exact .routed ht hframes hfinish hrun (hahead' hahead)
  | registered ht hsend hrun hahead => exact .registered ht hsend hrun (hahead' hahead)

/-- A packet is dropped at once, or goes behind the frames captured before its registration. -/
theorem serialized_read {pkt : Buffer} (hstep : step sockets d (.read pkt) = .ok (out, d'))
    (ih : Serialized sockets history d' t) :
    Serialized sockets (⟨d, .read pkt, out, d'⟩ :: history) d t := by
  cases stepped_of_step hstep with
  | stalled =>
    refine serialized_silent ?_ rfl rfl ih
    cases ht : d.thread with
    | _ => simp only [DataPlaneEvent.finished, ht]
  | @unread _ why a ht ha =>
    cases ih with
    | waiting ht' hrun hahead =>
      rw [step_read ht] at hstep
      have hforward : serialStep sockets d (.forward pkt false) =
          .ok (.dropped why, { d with aggregator := a }) := by
        rw [serialStep_forward, forward_eq ht, hstep, Checked.ok_bind]
        simp only [ht]
        rfl
      refine .waiting ht (.cons hforward hrun) ⟨?_, hahead.captured, hahead.adjusted⟩
      have hfinished : DataPlaneEvent.finished
          ⟨d, .read pkt, .dropped why, { d with aggregator := a }⟩ =
            some (pkt, .dropped why) := by
        simp only [DataPlaneEvent.finished, ht]
      rw [List.filterMap_cons_some hfinished, hahead.finished]
      rfl
    | routed ht' => exact absurd (ht.symm.trans ht') (by simp)
    | registered ht' => exact absurd (ht.symm.trans ht') (by simp)
  | @routed p a ht hp hroute =>
    cases ih with
    | waiting ht' => exact absurd ht' (by simp)
    | @routed q frames d₁ d₂ accepted o serial ht' hframes hfinish hrun hahead =>
      obtain rfl := EgressThread.routed.inj ht'
      have hwait : ∀ m ∈ frames.map CapturedFrame.move,
          Exchanges (step sockets) (.read p.buf, .routed p.iface) m := by
        rintro m hm
        obtain ⟨c, _, rfl⟩ := List.mem_map.mp hm
        exact exchanges_read_capture sockets p.buf p.iface c
      obtain ⟨e, hframes', hread⟩ := Moves.behind hwait hstep hframes
      have he : e.thread = .waiting := (routed_of_read hread).1
      have hforward : serialStep sockets e (.forward p.buf accepted) = .ok (o, d₂) := by
        rw [step_read he] at hread
        rw [serialStep_forward, forward_eq he, hread, Checked.ok_bind]
        simp only [thread_of_frames hframes]
        exact hfinish
      obtain ⟨serial', hrun', hfinished, hcaptured, hadjusted⟩ :=
        serial_of_frames hframes' (.cons hforward hrun)
      refine .waiting ht hrun' ⟨?_, ?_, ?_⟩
      · have hsilent : DataPlaneEvent.finished ⟨d, .read p.buf, .routed p.iface,
            { d with aggregator := a, thread := .routed p }⟩ = none := by
          simp only [DataPlaneEvent.finished, ht]
        rw [List.filterMap_cons_none hsilent, hahead.finished, hfinished]
        rfl
      · rw [hcaptured]
        exact hahead.captured
      · rw [hadjusted]
        exact hahead.adjusted
    | registered ht' => exact absurd ht' (by simp)

/-- The registration is the first of the two steps that finish a packet. -/
theorem serialized_register (hstep : step sockets d .register = .ok (out, d'))
    (ih : Serialized sockets history d' t) :
    Serialized sockets (⟨d, .register, out, d'⟩ :: history) d t := by
  cases ht : d.thread with
  | waiting =>
    simp only [step, ht, Checked.pure_eq, Except.ok.injEq, Prod.mk.injEq] at hstep
    obtain ⟨rfl, rfl⟩ := hstep
    exact serialized_silent (by simp only [DataPlaneEvent.finished, ht]) rfl rfl ih
  | registered p s =>
    simp only [step, ht, Checked.pure_eq, Except.ok.injEq, Prod.mk.injEq] at hstep
    obtain ⟨rfl, rfl⟩ := hstep
    exact serialized_silent (by simp only [DataPlaneEvent.finished, ht]) rfl rfl ih
  | routed p =>
    have hnone : Moves (step sockets) d (([] : List CapturedFrame).map CapturedFrame.move) d :=
      .nil d
    have hregister : d.registerStep p = (out, d') := by
      simp only [step, ht, Checked.pure_eq, Except.ok.injEq] at hstep
      exact hstep
    cases stepped_of_step hstep with
    | stalled => exact serialized_silent (by simp only [DataPlaneEvent.finished, ht]) rfl rfl ih
    | @unregistered q ht' hr =>
      cases ih with
      | waiting _ hrun hahead =>
        have hfinish : d.finish p false = .ok (.dropped .unregistered,
            { d with
              nat := (d.nat.register q.flow q.iface q.egressIp).2
              thread := .waiting }) := by
          simp only [finish, hregister]
          rfl
        refine .routed ht hnone hfinish hrun ⟨?_, hahead.captured, hahead.adjusted⟩
        have hfinished : DataPlaneEvent.finished ⟨d, .register, .dropped .unregistered,
            { d with
              nat := (d.nat.register q.flow q.iface q.egressIp).2
              thread := .waiting }⟩ = some (p.buf, .dropped .unregistered) := by
          simp only [DataPlaneEvent.finished, ht]
        rw [List.filterMap_cons_some hfinished, hahead.finished]
        rfl
      | routed ht'' => exact absurd ht'' (by simp)
      | registered ht'' => exact absurd ht'' (by simp)
    | @registered q s ht' hr =>
      obtain rfl := EgressThread.routed.inj (ht.symm.trans ht')
      cases ih with
      | waiting ht'' => exact absurd ht'' (by simp)
      | routed ht'' => exact absurd ht'' (by simp)
      | @registered q' s' d₁ accepted o serial ht'' hsend hrun hahead =>
        obtain ⟨rfl, rfl⟩ := EgressThread.registered.inj ht''
        have hfinish : d.finish p accepted = .ok (o, d₁) := by
          simp only [finish, hregister]
          exact hsend
        refine .routed ht hnone hfinish hrun ⟨?_, hahead.captured, hahead.adjusted⟩
        have hsilent : DataPlaneEvent.finished ⟨d, .register, .registered s,
            { d with
              nat := (d.nat.register p.flow p.iface p.egressIp).2
              thread := .registered p s }⟩ = none := by
          simp only [DataPlaneEvent.finished, ht]
        rw [List.filterMap_cons_none hsilent, hahead.finished]

/-- Sending is the second. -/
theorem serialized_send {accepted : Bool} (hstep : step sockets d (.send accepted) = .ok (out, d'))
    (ih : Serialized sockets history d' t) :
    Serialized sockets (⟨d, .send accepted, out, d'⟩ :: history) d t := by
  cases ht : d.thread with
  | waiting =>
    simp only [step, ht, Checked.pure_eq, Except.ok.injEq, Prod.mk.injEq] at hstep
    obtain ⟨rfl, rfl⟩ := hstep
    exact serialized_silent (by simp only [DataPlaneEvent.finished, ht]) rfl rfl ih
  | routed p =>
    simp only [step, ht, Checked.pure_eq, Except.ok.injEq, Prod.mk.injEq] at hstep
    obtain ⟨rfl, rfl⟩ := hstep
    exact serialized_silent (by simp only [DataPlaneEvent.finished, ht]) rfl rfl ih
  | registered p s =>
    simp only [step, ht] at hstep
    have hthread : d'.thread = .waiting := by rw [(of_sendStep hstep).1]
    cases ih with
    | waiting ht' hrun hahead =>
      refine .registered ht hstep hrun ⟨?_, hahead.captured, hahead.adjusted⟩
      have hfinished : DataPlaneEvent.finished ⟨d, .send accepted, out, d'⟩ =
          some (p.buf, out) := by
        simp only [DataPlaneEvent.finished, ht]
      rw [List.filterMap_cons_some hfinished, hahead.finished]
      rfl
    | routed ht' => exact absurd (hthread.symm.trans ht') (by simp)
    | registered ht' => exact absurd (hthread.symm.trans ht') (by simp)

theorem serialized_of_run (hrun : Run (step sockets) d history t) (ht : t.thread = .waiting) :
    Serialized sockets history d t := by
  induction hrun with
  | nil t => exact .waiting ht (.nil t) ⟨rfl, rfl, rfl⟩
  | @cons _ _ _ op out _ hstep _ ih =>
    cases op with
    | read pkt => exact serialized_read hstep (ih ht)
    | register => exact serialized_register hstep (ih ht)
    | send accepted => exact serialized_send hstep (ih ht)
    | capture ifname frame order accepted =>
      exact serialized_capture (c := ⟨ifname, frame, order, accepted, out⟩) hstep (ih ht)
    | policy op => exact serialized_policy hstep (ih ht)

end Serialized

/-- Every interleaving of the threads, from a state to a state in which the draining thread waits,
is one that no thread can tell from a serial program with the same first and last state. -/
theorem serializable {sockets : Sockets} {d t : DataPlane} {history : List DataPlaneEvent}
    (hrun : Run (step sockets) d history t) (hd : d.thread = .waiting)
    (ht : t.thread = .waiting) :
    ∃ serial, Run (serialStep sockets) d serial t ∧ SameForThreads history serial := by
  cases serialized_of_run hrun ht with
  | waiting _ hserial hahead =>
    exact ⟨_, hserial, hahead.finished, hahead.captured, hahead.adjusted⟩
  | routed hd' => exact absurd (hd.symm.trans hd') (by simp)
  | registered hd' => exact absurd (hd.symm.trans hd') (by simp)

/-- An edit and a frame between the steps of one packet. -/
private def interruptedOps : List DataPlaneOp :=
  [.read hostBuffer, .policy (.tick 5000000000 uplinksDir uplinksDir), .capture "eth0" hostBuffer
    .listed true, .register, .policy (.setMode .simulation), .send true]

/-- Such a packet is sent. -/
theorem serializable_interrupted :
    ∃ history t, Run (step uplinkSockets) (start (uplinksAggregator .default)) history t ∧
      history.map Event.input = interruptedOps ∧
      (history.filterMap DataPlaneEvent.finished).map Prod.fst = [hostBuffer] ∧
      ∃ serial, Run (serialStep uplinkSockets) (start (uplinksAggregator .default)) serial t ∧
        SameForThreads history serial := by
  have hexec : (Run.exec (step uplinkSockets) (start (uplinksAggregator .default))
      interruptedOps).map (fun r : List DataPlaneEvent × DataPlane =>
        (decide (r.2.thread = .waiting), (r.1.filterMap DataPlaneEvent.finished).map Prod.fst)) =
      .ok (true, [hostBuffer]) := by decide +kernel
  obtain ⟨history, t, hrun, hinputs, hshown⟩ := Run.exists_of_exec hexec
  obtain ⟨hthread, hfinished⟩ := Prod.mk.inj hshown
  exact ⟨history, t, hrun, hinputs, hfinished,
    serializable hrun rfl (of_decide_eq_true hthread)⟩

end DataPlane

end Netmux
