import Netmux.App.DataPlane

/-!
# The data plane never panics

Every guard of the parser and of the rewriters makes the checked operations behind it
succeed, whatever the bytes say. What is left is the pool of the scheduler: its size is
the sum of the weights of the candidates, which fits while they are fewer than 2^32.
-/

namespace Netmux

/-- An injection of at most 2^32 candidates, or another operation. -/
def AggOp.InjectsFew : AggOp → Prop
  | .injectSimCandidates entries => entries.length ≤ 2 ^ 32
  | _ => True

namespace Aggregator

/-- The weights of the injected candidates fit. -/
theorem totalWeight_injectSimCandidates (a : Aggregator)
    {entries : List (String × InterfaceKind × UInt32 × UInt32)} (h : entries.length ≤ 2 ^ 32) :
    totalWeight (usableOf (a.injectSimCandidates entries).candidates) < 2 ^ 64 := by
  have hle := totalWeight_le (usableOf (a.injectSimCandidates entries).candidates)
  have husable := List.length_filter_le CandidateIface.usable
    (a.injectSimCandidates entries).candidates
  have hlength : (a.injectSimCandidates entries).candidates.length = entries.length :=
    List.length_map _
  have hfew : (usableOf (a.injectSimCandidates entries).candidates).length ≤ 2 ^ 32 :=
    (husable.trans_eq hlength).trans h
  omega

/-- Every operation leaves candidates whose weights fit. -/
theorem totalWeight_step {a a' : Aggregator} {op : AggOp} {decision : Option ForwardDecision}
    (h : a.step op = .ok (decision, a')) (hop : op.InjectsFew)
    (ha : totalWeight (usableOf a.candidates) < 2 ^ 64) :
    totalWeight (usableOf a'.candidates) < 2 ^ 64 := by
  cases op with
  | refreshCandidates dir =>
    obtain ⟨rfl, rfl⟩ := Prod.mk.inj (Except.ok.inj h)
    exact totalWeight_refreshCandidates _ dir
  | tick now sampled listed =>
    obtain ⟨rfl, rfl⟩ := Prod.mk.inj (Except.ok.inj h)
    exact totalWeight_refreshCandidates _ listed
  | injectSimCandidates entries =>
    obtain ⟨rfl, rfl⟩ := Prod.mk.inj (Except.ok.inj h)
    exact totalWeight_injectSimCandidates _ hop
  | route pkt =>
    rw [(routed_of_route h).frame.2.1]
    exact ha
  | setMode mode =>
    obtain ⟨rfl, rfl⟩ := Prod.mk.inj (Except.ok.inj h)
    exact ha
  | configure config =>
    obtain ⟨rfl, rfl⟩ := Prod.mk.inj (Except.ok.inj h)
    exact ha

/-- No operation panics while the weights fit. -/
theorem step_ok (a : Aggregator) (op : AggOp) (h : totalWeight (usableOf a.candidates) < 2 ^ 64) :
    ∃ decision a', a.step op = .ok (decision, a') := by
  cases op with
  | route pkt => exact a.route_ok pkt h
  | _ => exact ⟨_, _, rfl⟩

end Aggregator

namespace DataPlane

/-- The weights of the candidates fit in every state of a run. -/
theorem totalWeight_of_run {sockets : Sockets} {d t : DataPlane} {history : List DataPlaneEvent}
    (hrun : Run (step sockets) d history t)
    (hops : ∀ e ∈ history, ∀ op, e.input = .policy op → op.InjectsFew)
    (hd : totalWeight (usableOf d.aggregator.candidates) < 2 ^ 64) :
    totalWeight (usableOf t.aggregator.candidates) < 2 ^ 64 := by
  refine hrun.invariant_of
    (I := fun d => totalWeight (usableOf d.aggregator.candidates) < 2 ^ 64)
    (C := fun e => ∀ op, e.input = .policy op → op.InjectsFew) ?_ hops hd
  intro d op out d' hop hd hstep
  cases stepped_of_step hstep with
  | unread ht ha =>
    rw [ha]
    exact hd
  | routed ht hp hroute =>
    rw [hroute.frame.2.1]
    exact hd
  | adjusted ha => exact Aggregator.totalWeight_step ha (hop _ rfl) hd
  | _ => exact hd

theorem readStep_ok (sockets : Sockets) (d : DataPlane) (pkt : Buffer)
    (h : totalWeight (usableOf d.aggregator.candidates) < 2 ^ 64) :
    ∃ out d', d.readStep sockets pkt = .ok (out, d') := by
  rw [readStep]
  split
  · exact ⟨_, _, rfl⟩
  obtain ⟨parsed, hparse⟩ := parse_ok pkt.bytes
  rw [hparse, Checked.ok_bind]
  cases parsed with
  | none => exact ⟨_, _, rfl⟩
  | some flow =>
    obtain ⟨decision, a, hroute⟩ := d.aggregator.route_ok pkt.bytes h
    simp only [hroute, Checked.ok_bind]
    -- what is left are the lookups of the drained packet, each of which drops or goes on
    repeat' split
    all_goals exact ⟨_, _, rfl⟩

theorem sendStep_ok (d : DataPlane) (p : Outbound) (accepted : Bool) :
    ∃ out d', d.sendStep p accepted = .ok (out, d') := by
  obtain ⟨done, out, hw⟩ := rewriteIpv4_ok .source p.egressIp p.buf.bound
  rw [← rewriteIpv4Source] at hw
  simp only [sendStep, hw, Checked.ok_bind]
  cases done with
  | false => exact ⟨_, _, rfl⟩
  | true =>
    cases accepted with
    | false => exact ⟨_, _, rfl⟩
    | true => exact ⟨_, _, rfl⟩

theorem captureStep_ok (d : DataPlane) (ifname : String) (frame : Buffer)
    (order : WalkOrder Session) (accepted : Bool) :
    ∃ out d', d.captureStep ifname frame order accepted = .ok (out, d') := by
  rw [captureStep]
  split
  · exact ⟨_, _, rfl⟩
  rw [index_byteAt (by omega), Checked.ok_bind]
  split
  · exact ⟨_, _, rfl⟩
  obtain ⟨parsed, hparse⟩ := parse_ok frame.bytes
  rw [hparse, Checked.ok_bind]
  cases parsed with
  | none => exact ⟨_, _, rfl⟩
  | some flow =>
    dsimp only
    split
    · split
      · exact ⟨_, _, rfl⟩
      · rename_i session _
        obtain ⟨done, out, hw⟩ := rewriteIpv4_ok .dest session.clientIp frame.bound
        rw [← rewriteIpv4Dest] at hw
        simp only [hw, Checked.ok_bind]
        cases done with
        | false => exact ⟨_, _, rfl⟩
        | true =>
          cases accepted with
          | false => exact ⟨_, _, rfl⟩
          | true => exact ⟨_, _, rfl⟩
    · exact ⟨_, _, rfl⟩

/-- A step of any thread returns while the weights fit. -/
theorem step_ok (sockets : Sockets) (d : DataPlane) (op : DataPlaneOp)
    (h : totalWeight (usableOf d.aggregator.candidates) < 2 ^ 64) :
    ∃ out d', step sockets d op = .ok (out, d') := by
  cases op with
  | read pkt =>
    cases ht : d.thread with
    | waiting =>
      simp only [step, ht]
      exact d.readStep_ok sockets pkt h
    | _ => exact ⟨_, _, by simp only [step, ht]; rfl⟩
  | register =>
    cases ht : d.thread with
    | routed p => exact ⟨_, _, by simp only [step, ht]; rfl⟩
    | _ => exact ⟨_, _, by simp only [step, ht]; rfl⟩
  | send accepted =>
    cases ht : d.thread with
    | registered p s =>
      simp only [step, ht]
      exact d.sendStep_ok p accepted
    | _ => exact ⟨_, _, by simp only [step, ht]; rfl⟩
  | capture ifname frame order accepted =>
    simp only [step]
    exact d.captureStep_ok ifname frame order accepted
  | policy op =>
    obtain ⟨decision, a, ha⟩ := d.aggregator.step_ok op h
    exact ⟨_, _, by simp only [step, ha, Checked.ok_bind]; rfl⟩

/-- No packet that fits the buffer makes the parser or a rewriter panic, and in every state that
the threads reach from a new aggregator the next step of any of them returns. -/
theorem never_panics {config : AggregatorConfig} {mode : Mode}
    {order : WalkOrder (Σ _ : String, InterfacePolicy)} {now : Nat} {a : Aggregator}
    (hnew : Aggregator.new config mode order now = .ok a) (sockets : Sockets)
    {history : List DataPlaneEvent} {d : DataPlane}
    (hrun : Run (step sockets) (start a) history d)
    (hops : ∀ e ∈ history, ∀ op, e.input = .policy op → op.InjectsFew)
    {pkt : List UInt8} (hmax : pkt.length ≤ 65536) (addr : Ipv4Addr) :
    (∃ found, parse pkt = .ok found) ∧
      (∃ done out, rewriteIpv4Source pkt addr = .ok (done, out)) ∧
      (∃ done out, rewriteIpv4Dest pkt addr = .ok (done, out)) ∧
      ∀ op, ∃ out d', step sockets d op = .ok (out, d') := by
  have hempty : totalWeight (usableOf (start a).aggregator.candidates) < 2 ^ 64 := by
    rw [start, Aggregator.candidates_new hnew]
    decide
  refine ⟨parse_ok pkt, rewriteIpv4_ok .source addr hmax, rewriteIpv4_ok .dest addr hmax, ?_⟩
  intro op
  exact d.step_ok sockets op (totalWeight_of_run hrun hops hempty)

/-- An IPv4 packet whose header length is announced as zero. -/
private def headless : List UInt8 := [0x40, 0, 0, 20, 0, 0, 0, 0, 64, 17] ++ List.replicate 10 0

private def cautiousOps : List DataPlaneOp :=
  [.policy (.refreshCandidates uplinksDir), .read hostBuffer, .register]

/-- A packet without a header, while the draining thread is about to send another. -/
theorem never_panics_headless :
    ∃ history d, Run (step uplinkSockets) (start (freshAggregator .default)) history d ∧
      history.map Event.input = cautiousOps ∧
      (∃ found, parse headless = .ok found) ∧
      (∃ done out, rewriteIpv4Source headless ⟨192, 168, 31, 49⟩ = .ok (done, out)) ∧
      (∃ done out, rewriteIpv4Dest headless ⟨192, 168, 31, 49⟩ = .ok (done, out)) ∧
      ∀ op, ∃ out d', step uplinkSockets d op = .ok (out, d') := by
  have hexec : (Run.exec (step uplinkSockets) (start (freshAggregator .default)) cautiousOps).map
      (fun _ : List DataPlaneEvent × DataPlane => ()) = .ok () := by decide +kernel
  obtain ⟨history, d, hrun, hinputs, _⟩ := Run.exists_of_exec hexec
  have hops : ∀ e ∈ history, ∀ op, e.input = .policy op → op.InjectsFew := by
    intro e he op hop
    have hmem := Run.input_mem hinputs he
    rw [hop] at hmem
    simp only [cautiousOps, List.mem_cons, List.not_mem_nil, or_false, reduceCtorEq,
      DataPlaneOp.policy.injEq] at hmem
    rw [hmem]
    exact trivial
  have hnew : Aggregator.new .default .tunnelling .listed 0 = .ok (freshAggregator .default) := rfl
  exact ⟨history, d, hrun, hinputs, never_panics hnew uplinkSockets hrun hops (by decide) _⟩

end DataPlane

end Netmux
