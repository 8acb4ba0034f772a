import Netmux.App.Solicited

/-!
# Reply delivery

A session keeps the egress address of its first packet, while every packet is rewritten
with the address of the interface chosen for it. Replies to a sent packet reach the
client in every run in which no registration meets a session with another address.
-/

namespace Netmux

/-- The flow of the replies. -/
def Flow.reverse (flow : Flow) : Flow := ⟨flow.dst, flow.src, flow.proto, flow.dport, flow.sport⟩

namespace DataPlane

/-- Every packet read from the TUN that is IPv4 carries one client address. -/
def SingleClient (client : Ipv4Addr) (history : List DataPlaneEvent) : Prop :=
  ∀ e ∈ history, ∀ pkt, e.input = .read pkt → IsIpv4 pkt.bytes → addrAt pkt.bytes 12 = client

/-- Whatever frame with the reverse flow of `out` is captured next, on whatever interface, it is
matched by a session of the client and rewritten to its address. -/
def RepliesReach (sockets : Sockets) (client : Ipv4Addr) (d : DataPlane) (out : List UInt8) :
    Prop :=
  ∀ ifname frame order accepted, parse frame.bytes = .ok (some (flowV4 out).reverse) →
    ∃ s pkt d', step sockets d (.capture ifname frame order accepted) =
        .ok (.injected ifname s pkt accepted, d') ∧
      s.clientIp = client ∧ s.clientPort = (flowV4 out).sport ∧ addrAt pkt 16 = client

/-- After a history, the replies to every packet it handed to a socket reach the client. -/
def RepliesDelivered (sockets : Sockets) (client : Ipv4Addr) (history : List DataPlaneEvent)
    (d : DataPlane) : Prop :=
  ∀ e ∈ history, ∀ iface out dst accepted, e.output = .sent iface out dst accepted →
    RepliesReach sockets client d out

/-- The packet that the draining thread registers next. -/
def toRegister (d : DataPlane) : Option Outbound :=
  match d.thread with
  | .routed p => some p
  | _ => none

/-- A registration that leaves the packet and its session with one egress address: the table
holds no session of the flow, or one with the address of the interface chosen for the packet. -/
def KeepsReturnAddress (d : DataPlane) : DataPlaneOp → Prop
  | .register => ∀ p ∈ d.toRegister, ∀ key ∈ p.flow.outKey,
    ∀ s ∈ d.nat.byOutbound.lookup key, s.egressIp = p.egressIp
  | _ => True

instance (d : DataPlane) : (op : DataPlaneOp) → Decidable (KeepsReturnAddress d op)
  | .register => inferInstanceAs (Decidable (∀ p ∈ d.toRegister, ∀ key ∈ p.flow.outKey,
    ∀ s ∈ d.nat.byOutbound.lookup key, s.egressIp = p.egressIp))
  | .read _ => .isTrue trivial
  | .send _ => .isTrue trivial
  | .capture _ _ _ _ => .isTrue trivial
  | .policy _ => .isTrue trivial

/-- The packet at hand is the client's, and once registered its session has its address. -/
def ClientPacket (sockets : Sockets) (client : Ipv4Addr) (d : DataPlane) : Prop :=
  match d.thread with
  | .waiting => True
  | .routed p => Carries sockets p ∧ addrAt p.buf.bytes 12 = client
  | .registered p s => Carries sockets p ∧ addrAt p.buf.bytes 12 = client ∧
    s.egressIp = p.egressIp ∧ ∃ key, p.flow.outKey = some key ∧ d.nat.Stored key s

/-- The sessions are the client's, and so is the packet at hand. -/
structure ClientState (sockets : Sockets) (client : Ipv4Addr) (d : DataPlane) : Prop where
  wf : d.nat.Wf
  sessions : ∀ key s, d.nat.Stored key s → s.clientIp = client
  packet : ClientPacket sockets client d

private theorem egressIp_of_register {t : NatTable} {p : Outbound} {s : Session}
    (hr : (t.register p.flow p.iface p.egressIp).1 = some s)
    (hkeeps : ∀ key ∈ p.flow.outKey, ∀ s ∈ t.byOutbound.lookup key, s.egressIp = p.egressIp) :
    s.egressIp = p.egressIp := by
  rcases t.register_cases p.flow p.iface p.egressIp with ⟨_, h⟩ | ⟨key, s', hkey, hs, h⟩ |
    ⟨key, _, _, h⟩
  · rw [h] at hr
    exact absurd hr (by simp)
  · rw [h] at hr
    obtain rfl := Option.some.inj hr
    exact hkeeps key hkey s' hs
  · rw [h] at hr
    obtain rfl := Option.some.inj hr
    rfl

/-- A registration of the client's packet keeps all sessions the client's. -/
theorem ClientState.register {sockets : Sockets} {client : Ipv4Addr} {d : DataPlane}
    {p : Outbound} (h : ClientState sockets client d) (ht : d.thread = .routed p) {key : OutKey}
    {s : Session} (hs : (d.nat.register p.flow p.iface p.egressIp).2.Stored key s) :
    s.clientIp = client := by
  have hpacket := h.packet
  rw [ClientPacket, ht] at hpacket
  rcases NatTable.stored_or_created hs with hbefore | ⟨hkey, rfl, -⟩
  · exact h.sessions key s hbefore
  · rw [hpacket.1.outKey, Option.some.injEq] at hkey
    subst hkey
    exact hpacket.2

/-- Every step that keeps the return address keeps the client's state. -/
theorem ClientState.step {sockets : Sockets} {client : Ipv4Addr} {d d' : DataPlane}
    {op : DataPlaneOp} {out : Outcome} (h : ClientState sockets client d)
    (hread : ∀ pkt, op = .read pkt → IsIpv4 pkt.bytes → addrAt pkt.bytes 12 = client)
    (hkeeps : KeepsReturnAddress d op) (hstep : Stepped sockets d op out d') :
    ClientState sockets client d' := by
  have hpacket := h.packet
  cases hstep with
  | stalled => exact h
  | unread ht ha =>
    refine ⟨h.wf, h.sessions, ?_⟩
    simp only [ClientPacket, ht]
  | routed ht hp hroute => exact ⟨h.wf, h.sessions, hp, hread _ rfl hp.isIpv4.1⟩
  | unregistered ht hr => exact ⟨h.wf.register .., fun key s => h.register ht, trivial⟩
  | registered ht hr =>
    rw [ClientPacket, ht] at hpacket
    exact ⟨h.wf.register .., fun key s => h.register ht, hpacket.1, hpacket.2,
      egressIp_of_register hr (hkeeps _ (by rw [toRegister, ht]; rfl)),
      NatTable.stored_of_register hr⟩
  | unsent ht hw => exact ⟨h.wf, h.sessions, trivial⟩
  | sent ht hw => exact ⟨h.wf, h.sessions, trivial⟩
  | ignored => exact h
  | injected hversion hparse hsrc hdst hs hw => exact ⟨h.wf, h.sessions, hpacket⟩
  | adjusted ha => exact ⟨h.wf, h.sessions, hpacket⟩

theorem clientState_start (sockets : Sockets) (client : Ipv4Addr) (a : Aggregator) :
    ClientState sockets client (start a) :=
  ⟨NatTable.wf_new, fun key s hs => absurd hs (NatTable.not_stored_new key s),
    trivial⟩

/-- A capture of a frame with a known session writes it to the TUN. -/
theorem captureStep_eq {d : DataPlane} (ifname : String) {frame : Buffer}
    {order : WalkOrder Session} (accepted : Bool) {s : Session} (hipv4 : IsIpv4 frame.bytes)
    (hs : d.nat.lookupReturn order (flowV4 frame.bytes).proto (addrAt frame.bytes 12)
      (flowV4 frame.bytes).sport (addrAt frame.bytes 16) (flowV4 frame.bytes).dport = some s) :
    ∃ d', d.captureStep ifname frame order accepted =
      .ok (.injected ifname s (rewritten .dest frame.bytes s.clientIp) accepted, d') := by
  have hlen := hipv4.length
  have hw : rewriteIpv4Dest frame.bytes s.clientIp =
      .ok (true, rewritten .dest frame.bytes s.clientIp) :=
    rewriteIpv4_eq hipv4.version hipv4.length hipv4.complete frame.bound
  have hsrc : Ipv4Addr.fromStr (flowV4 frame.bytes).src = some (addrAt frame.bytes 12) :=
    Ipv4Addr.fromStr_dotted _
  have hdst : Ipv4Addr.fromStr (flowV4 frame.bytes).dst = some (addrAt frame.bytes 16) :=
    Ipv4Addr.fromStr_dotted _
  rw [captureStep, if_neg (by omega), index_byteAt (by omega), Checked.ok_bind,
    if_neg (by rw [not_not]; exact hipv4.version), parse_ipv4 hipv4, Checked.ok_bind]
  simp only [hsrc, hdst, hs, hw, Checked.ok_bind, Bool.not_true, Bool.false_eq_true, if_false]
  cases accepted with
  | false => exact ⟨_, rfl⟩
  | true => exact ⟨_, rfl⟩

/-- Replies reach the client while a session of the sent tuple is stored. -/
theorem repliesReach_of_stored {sockets : Sockets} {client : Ipv4Addr} {d : DataPlane}
    {out : List UInt8} (h : ClientState sockets client d) {key : OutKey} {s : Session}
    (hs : d.nat.Stored key s)
    (hret : s.retKey = ((flowV4 out).proto, addrAt out 16, (flowV4 out).dport, addrAt out 12,
      (flowV4 out).sport)) : RepliesReach sockets client d out := by
  intro ifname frame order accepted hparse
  have hreverse : Ipv4Addr.fromStr (flowV4 out).reverse.dst = some (addrAt out 12) :=
    Ipv4Addr.fromStr_dotted _
  obtain ⟨hipv4, hflow⟩ := isIpv4_of_dst hparse hreverse
  obtain ⟨r, hr⟩ := h.wf.lookupReturn_of_stored order hs
  obtain ⟨⟨key', hstored⟩, hrret⟩ := NatTable.stored_of_lookupReturn hr
  simp only [Session.retKey, Prod.mk.injEq] at hret
  -- the two texts of an address name one address
  have haddr {i j : Nat} (h : (addrAt out i).dotted = (addrAt frame.bytes j).dotted) :
      addrAt out i = addrAt frame.bytes j := by
    have hread := congrArg Ipv4Addr.fromStr h
    rw [Ipv4Addr.fromStr_dotted, Ipv4Addr.fromStr_dotted] at hread
    exact Option.some.inj hread
  have hsrc : addrAt out 16 = addrAt frame.bytes 12 := haddr (congrArg Flow.src hflow)
  have hdst : addrAt out 12 = addrAt frame.bytes 16 := haddr (congrArg Flow.dst hflow)
  have hproto : (flowV4 out).proto = (flowV4 frame.bytes).proto := by rw [← hflow, Flow.reverse]
  have hsport : (flowV4 out).dport = (flowV4 frame.bytes).sport := by rw [← hflow, Flow.reverse]
  have hdport : (flowV4 out).sport = (flowV4 frame.bytes).dport := by rw [← hflow, Flow.reverse]
  rw [hret.1, hret.2.1, hret.2.2.1, hret.2.2.2.1, hret.2.2.2.2, hproto, hsrc, hsport, hdst,
    hdport] at hr
  have hclient := h.sessions key' r hstored
  obtain ⟨d', hstep⟩ := captureStep_eq ifname accepted hipv4 hr
  refine ⟨r, _, d', hstep, hclient, ?_, ?_⟩
  · simp only [Session.retKey, Prod.mk.injEq] at hrret
    exact hrret.2.2.2.2.trans hret.2.2.2.2
  · rw [← hclient]
    exact addrAt_rewritten_self hipv4

/-- A sent packet leaves a stored session with the return tuple of its flow. -/
theorem ClientState.stored_of_sent {sockets : Sockets} {client : Ipv4Addr} {d d' : DataPlane}
    {op : DataPlaneOp} {iface : String} {out : List UInt8} {dst : Ipv4Addr} {accepted : Bool}
    (h : ClientState sockets client d)
    (hstep : Stepped sockets d op (.sent iface out dst accepted) d') :
    ∃ key s, d'.nat.Stored key s ∧ s.retKey = ((flowV4 out).proto, addrAt out 16,
      (flowV4 out).dport, addrAt out 12, (flowV4 out).sport) := by
  cases hstep with
  | @sent p s _ _ _ _ ht hw =>
    have hpacket := h.packet
    rw [ClientPacket, ht] at hpacket
    obtain ⟨hcarries, _, haddr, key, hkey, hstored⟩ := hpacket
    obtain ⟨hipv4, hflow⟩ := hcarries.isIpv4
    obtain rfl := (Prod.mk.inj (Except.ok.inj (hw.symm.trans hcarries.rewrite_eq))).2
    refine ⟨key, s, hstored, ?_⟩
    have houtKey := h.wf.key hstored
    rw [hcarries.outKey, Option.some.injEq] at hkey
    rw [← hkey] at houtKey
    simp only [Session.outKey, Prod.mk.injEq] at houtKey
    have hsource : addrAt (rewritten .source p.buf.bytes p.egressIp) 12 = p.egressIp :=
      addrAt_rewritten_self hipv4
    have hdest : addrAt (rewritten .source p.buf.bytes p.egressIp) 16 = addrAt p.buf.bytes 16 :=
      addrAt_rewritten_other hipv4 (by omega) (by omega) (.inr le_rfl)
    rw [flowV4_rewritten_source hipv4, hsource, hdest, Session.retKey, houtKey.1,
      houtKey.2.2.2.1, houtKey.2.2.2.2, haddr, houtKey.2.2.1, hflow]

theorem clientState_of_run {sockets : Sockets} {client : Ipv4Addr} {d t : DataPlane}
    {history : List DataPlaneEvent} (hrun : Run (DataPlane.step sockets) d history t)
    (hsingle : SingleClient client history)
    (hkeeps : ∀ e ∈ history, KeepsReturnAddress e.before e.input)
    (h : ClientState sockets client d) : ClientState sockets client t := by
  refine hrun.invariant_of (C := fun e => (∀ pkt, e.input = .read pkt → IsIpv4 pkt.bytes →
    addrAt pkt.bytes 12 = client) ∧ KeepsReturnAddress e.before e.input) ?_ ?_ h
  · intro d op out d' hC hd hstep
    exact hd.step hC.1 hC.2 (stepped_of_step hstep)
  · intro e he
    exact ⟨hsingle e he, hkeeps e he⟩

/-- In every run of a single client whose registrations keep the return address, with any
packets, frames, policy edits and host changes, the replies to every packet handed to a socket
reach the client. -/
theorem replies_delivered {sockets : Sockets} {a : Aggregator} {client : Ipv4Addr}
    {history : List DataPlaneEvent} {t : DataPlane}
    (hrun : Run (DataPlane.step sockets) (start a) history t)
    (hsingle : SingleClient client history)
    (hkeeps : ∀ e ∈ history, KeepsReturnAddress e.before e.input) :
    RepliesDelivered sockets client history t := by
  intro e he iface out dst accepted hsent
  obtain ⟨before, after, hsplit⟩ := List.append_of_mem he
  have hstate := clientState_of_run hrun hsingle hkeeps (clientState_start sockets client a)
  subst hsplit
  obtain ⟨hbefore, hstep, hafter⟩ := hrun.split
  have hmid := clientState_of_run hbefore (fun r hr => hsingle r (List.mem_append_left _ hr))
    (fun r hr => hkeeps r (List.mem_append_left _ hr)) (clientState_start sockets client a)
  have hstepped := stepped_of_step hstep
  rw [hsent] at hstepped
  obtain ⟨key, s, hstored, hret⟩ := hmid.stored_of_sent hstepped
  have hlater : t.nat.Stored key s := by
    apply hafter.invariant (I := fun d => d.nat.Stored key s) _ hstored
    intro d op out d' hs hstep
    exact (stepped_of_step hstep).stored hs
  exact repliesReach_of_stored hstate hlater hret

private theorem singleClient_of_inputs {client : Ipv4Addr} {history : List DataPlaneEvent}
    {inputs : List DataPlaneOp} (h : history.map Event.input = inputs)
    (hinputs : ∀ op ∈ inputs, ∀ pkt, op = .read pkt → addrAt pkt.bytes 12 = client) :
    SingleClient client history :=
  fun e he pkt hread _ => hinputs e.input (Run.input_mem h he) pkt hread

private def sendOps : List DataPlaneOp := [.read hostBuffer, .register, .send true]

/-- One packet sent by a host with two uplinks under hash balancing. -/
theorem replies_delivered_host :
    ∃ history t, Run (DataPlane.step uplinkSockets) (start (uplinksAggregator .default)) history t ∧
      history.map Event.input = sendOps ∧
      RepliesDelivered uplinkSockets ⟨10, 99, 0, 1⟩ history t := by
  have hexec : (Run.exec (DataPlane.step uplinkSockets) (start (uplinksAggregator .default))
      sendOps).map (fun r => decide (∀ e ∈ r.1, KeepsReturnAddress e.before e.input)) =
      .ok true := by decide +kernel
  obtain ⟨history, t, hrun, hinputs, hkeeps⟩ := Run.exists_of_exec hexec
  have hsingle : SingleClient ⟨10, 99, 0, 1⟩ history := by
    refine singleClient_of_inputs hinputs ?_
    rintro op hop pkt rfl
    simp only [sendOps, List.mem_cons, DataPlaneOp.read.injEq, reduceCtorEq, List.not_mem_nil,
      or_false] at hop
    rw [hop]
    rfl
  exact ⟨history, t, hrun, hinputs, replies_delivered hrun hsingle (of_decide_eq_true hkeeps)⟩

private def failover : AggregatorConfig := { AggregatorConfig.default with strategy := .failover }

private def wlanDir : ReadDir := .ok ⟨[hostEntry "wlan0"], by decide, by decide⟩

private def failoverOps : List DataPlaneOp :=
  sendOps ++ .policy (.tick 5000000000 wlanDir wlanDir) :: sendOps

private def failoverOutcomes : List Outcome :=
  [.routed "eth0", .registered (hostSession "eth0" ⟨10, 0, 0, 5⟩),
    .sent "eth0" (rewritten .source hostPacket ⟨10, 0, 0, 5⟩) ⟨8, 8, 8, 8⟩ true,
    .adjusted none,
    .routed "wlan0", .registered (hostSession "eth0" ⟨10, 0, 0, 5⟩),
    .sent "wlan0" (rewritten .source hostPacket ⟨192, 168, 31, 49⟩) ⟨8, 8, 8, 8⟩ true]

/-- After a failover the flow goes out with the address of `wlan0`, but its session keeps that of
`eth0`, and the replies are dropped. -/
theorem replies_lost_failover :
    ∃ history t, Run (DataPlane.step uplinkSockets) (start (uplinksAggregator failover)) history t ∧
      SingleClient ⟨10, 99, 0, 1⟩ history ∧ uplinkSockets.ifaceIps.values.Nodup ∧
      ¬ RepliesDelivered uplinkSockets ⟨10, 99, 0, 1⟩ history t := by
  have hexec : (Run.exec (DataPlane.step uplinkSockets) (start (uplinksAggregator failover))
      failoverOps).map (fun r => (r.1.map Event.output, (DataPlane.step uplinkSockets r.2
        (.capture "wlan0" (hostReply ⟨192, 168, 31, 49⟩) .listed true)).map Prod.fst)) =
      .ok (failoverOutcomes, .ok (.dropped .noSession)) := by decide +kernel
  obtain ⟨history, t, hrun, hinputs, hshown⟩ := Run.exists_of_exec hexec
  obtain ⟨houtputs, hcapture⟩ := Prod.mk.inj hshown
  refine ⟨history, t, hrun, singleClient_of_inputs hinputs ?_, by decide, ?_⟩
  · rintro op hop pkt rfl
    simp only [failoverOps, sendOps, List.cons_append, List.nil_append, List.mem_cons,
      DataPlaneOp.read.injEq, reduceCtorEq, List.not_mem_nil, or_false, false_or, or_self] at hop
    rw [hop]
    rfl
  · intro hdelivered
    have hmem : Outcome.sent "wlan0" (rewritten .source hostPacket ⟨192, 168, 31, 49⟩)
        ⟨8, 8, 8, 8⟩ true ∈ history.map Event.output := by
      rw [houtputs]
      simp [failoverOutcomes]
    obtain ⟨e, he, hsent⟩ := List.mem_map.mp hmem
    have hparse : parse (hostReply ⟨192, 168, 31, 49⟩).bytes =
        .ok (some (flowV4 (rewritten .source hostPacket ⟨192, 168, 31, 49⟩)).reverse) := by
      decide +kernel
    obtain ⟨s, pkt, d', hstep, _⟩ := hdelivered e he _ _ _ _ hsent "wlan0" _ .listed true hparse
    rw [hstep] at hcapture
    exact absurd hcapture (by simp [Except.map])

end DataPlane

end Netmux
