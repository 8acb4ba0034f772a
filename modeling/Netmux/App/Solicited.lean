import Netmux.App.EgressSafety

/-!
# No unsolicited packet reaches the TUN

Every stored session was returned by an earlier registration, and a captured frame is
only written when a stored session has the reverse of its tuple. The frame that is
written differs from the captured one in its destination and its checksums.
-/

namespace Netmux

namespace DataPlane

/-- A stored session was registered by an earlier step. -/
theorem registered_of_stored {sockets : Sockets} {a : Aggregator} {t : DataPlane}
    {history : List DataPlaneEvent} (h : Run (step sockets) (start a) history t) {key : OutKey}
    {s : Session} (hs : t.nat.Stored key s) :
    ∃ r ∈ history, r.input = .register ∧ r.output = .registered s := by
  have horigin := h.origin (P := fun d => d.nat.Stored key s)
    (Q := fun e => e.input = .register ∧ e.output = .registered s) ?_ hs
  · rcases horigin with hempty | hregistered
    · exact absurd hempty (NatTable.not_stored_new key s)
    · exact hregistered
  · intro d op out d' hstep hstored
    cases stepped_of_step hstep with
    | unregistered ht hr =>
      rcases NatTable.stored_or_created hstored with hbefore | ⟨-, -, hnone⟩
      · exact .inl hbefore
      · rw [hr] at hnone
        exact absurd hnone (by simp)
    | registered ht hr =>
      rcases NatTable.stored_or_created hstored with hbefore | ⟨-, -, hsome⟩
      · exact .inl hbefore
      · obtain rfl := Option.some.inj (hr.symm.trans hsome)
        exact .inr ⟨rfl, rfl⟩
    | _ => exact .inl hstored

/-- A frame that carries the reverse tuple of a session, and the packet it becomes. -/
structure SolicitedReply (s : Session) (frame out : List UInt8) : Prop where
  frameFlow : parse frame = .ok (some (flowV4 frame))
  proto : s.proto = (flowV4 frame).proto
  server : s.serverIp = addrAt frame 12 ∧ s.serverPort = (flowV4 frame).sport
  client : s.egressIp = addrAt frame 16 ∧ s.clientPort = (flowV4 frame).dport
  isIpv4 : IsIpv4 out
  outFlow : parse out = .ok (some { flowV4 frame with dst := s.clientIp.dotted })
  destination : addrAt out 16 = s.clientIp
  header : Verifies (out.take (headerLen out))

/-- A rewritten reply to a session found by its reverse tuple. -/
theorem solicitedReply_of_lookup {t : NatTable} {frame out : List UInt8} {flow : Flow}
    {srcIp dstIp : Ipv4Addr} {order : WalkOrder Session} {s : Session}
    (hbound : frame.length ≤ 65536) (hversion : byteAt frame 0 >>> 4 = 4)
    (hparse : parse frame = .ok (some flow)) (hsrc : Ipv4Addr.fromStr flow.src = some srcIp)
    (hdst : Ipv4Addr.fromStr flow.dst = some dstIp)
    (hs : t.lookupReturn order flow.proto srcIp flow.sport dstIp flow.dport = some s)
    (hw : rewriteIpv4Dest frame s.clientIp = .ok (true, out)) : SolicitedReply s frame out := by
  obtain ⟨hipv4, rfl⟩ := isIpv4_of_parse hversion hparse
  rw [flowV4, Ipv4Addr.fromStr_dotted] at hsrc hdst
  obtain rfl := Option.some.inj hsrc
  obtain rfl := Option.some.inj hdst
  have hrewrite : rewriteIpv4Dest frame s.clientIp = .ok (true, rewritten .dest frame s.clientIp) :=
    rewriteIpv4_eq hipv4.version hipv4.length hipv4.complete hbound
  obtain rfl := (Prod.mk.inj (Except.ok.inj (hw.symm.trans hrewrite))).2
  have hret := (NatTable.stored_of_lookupReturn hs).2
  simp only [Session.retKey, Prod.mk.injEq] at hret
  have hout : IsIpv4 (rewritten .dest frame s.clientIp) := isIpv4_rewritten hipv4
  refine ⟨hparse, hret.1, ⟨hret.2.1, hret.2.2.1⟩, ⟨hret.2.2.2.1, hret.2.2.2.2⟩, hout, ?_,
    addrAt_rewritten_self hipv4, ?_⟩
  · rw [parse_ipv4 hout, flowV4_rewritten_dest hipv4]
  · rw [headerLen_rewritten hipv4]
    exact verifies_header hipv4

/-- In every run from the start of the threads, whatever frames are captured, a frame is written
to the TUN only in reply to a session that an earlier step registered. -/
theorem injected_solicited {sockets : Sockets} {a : Aggregator} {t : DataPlane}
    {history : List DataPlaneEvent} (hrun : Run (step sockets) (start a) history t)
    {before after : List DataPlaneEvent} {e : DataPlaneEvent}
    (hsplit : history = before ++ e :: after) {ifname : String} {s : Session} {out : List UInt8}
    {accepted : Bool} (hout : e.output = .injected ifname s out accepted) :
    (∃ r ∈ before, r.input = .register ∧ r.output = .registered s) ∧
      ∃ frame order, e.input = .capture ifname frame order accepted ∧
        SolicitedReply s frame.bytes out := by
  subst hsplit
  obtain ⟨hbefore, hstep, _⟩ := hrun.split
  have hstepped := stepped_of_step hstep
  rw [hout] at hstepped
  generalize e.input = op at hstepped
  generalize e.after = t' at hstepped
  cases hstepped with
  | @injected _ frame order _ _ _ _ _ _ _ hversion hparse hsrc hdst hs hw =>
    obtain ⟨⟨key, hstored⟩, _⟩ := NatTable.stored_of_lookupReturn hs
    exact ⟨registered_of_stored hbefore hstored, frame, order, rfl,
      solicitedReply_of_lookup frame.bound hversion hparse hsrc hdst hs hw⟩

/-- The reply of 8.8.8.8:443 to port 5000 of an egress address. -/
def hostReply (ip : Ipv4Addr) : Buffer :=
  ⟨[0x45, 0, 0, 40, 0, 0, 0, 0, 64, 6, 0, 0, 8, 8, 8, 8] ++ ip.octets ++
    [1, 0xbb, 0x13, 0x88, 0, 0, 0, 0, 0, 0, 0, 0, 0x50, 0x10, 0, 0, 0, 0, 0, 0], by
    simp [Ipv4Addr.octets]⟩

private def exchangeOps : List DataPlaneOp :=
  [.read hostBuffer, .register, .send true,
    .capture "wlan0" (hostReply ⟨192, 168, 31, 49⟩) .listed true]

/-- One exchange of a host with two uplinks. -/
theorem injected_solicited_host :
    ∃ history t, Run (step uplinkSockets) (start (uplinksAggregator .default)) history t ∧
      ∃ e ∈ history, ∃ out,
        e.output = .injected "wlan0" (hostSession "wlan0" ⟨192, 168, 31, 49⟩) out true ∧
        SolicitedReply (hostSession "wlan0" ⟨192, 168, 31, 49⟩)
          (hostReply ⟨192, 168, 31, 49⟩).bytes out := by
  have hexec : (Run.exec (step uplinkSockets) (start (uplinksAggregator .default))
      exchangeOps).map (fun r => r.1.getLast?.map Event.output) = .ok (some (.injected "wlan0"
        (hostSession "wlan0" ⟨192, 168, 31, 49⟩) (rewritten .dest
          (hostReply ⟨192, 168, 31, 49⟩).bytes ⟨10, 99, 0, 1⟩) true)) := by decide +kernel
  obtain ⟨history, t, hrun, hinputs, hlast⟩ := Run.exists_of_exec hexec
  obtain ⟨e, he, hout⟩ := Option.map_eq_some_iff.mp hlast
  have hsplit : history = history.dropLast ++ e :: [] :=
    (List.dropLast_append_getLast? e he).symm
  obtain ⟨_, frame, order, hinput, hreply⟩ := injected_solicited hrun hsplit hout
  have hmem := Run.input_mem hinputs (List.mem_of_getLast? he)
  rw [hinput] at hmem
  simp only [exchangeOps, List.mem_cons, List.not_mem_nil, or_false, reduceCtorEq, false_or,
    DataPlaneOp.capture.injEq] at hmem
  rw [hmem.2.1] at hreply
  exact ⟨history, t, hrun, e, List.mem_of_getLast? he, _, hout, hreply⟩

end DataPlane

end Netmux
