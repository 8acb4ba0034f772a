import Netmux.App.DataPlane

/-!
# Egress safety

The packet the draining thread carries was accepted with a destination that reads as an
IPv4 address, which no IPv6 text does. From routing to sending it keeps the address of
its interface, and its session is stored before the rewrite.
-/

namespace Netmux

namespace DataPlane

/-- What the draining thread knows at each of its stations. -/
def ThreadOk (sockets : Sockets) (d : DataPlane) : Prop :=
  match d.thread with
  | .waiting => True
  | .routed p => Carries sockets p
  | .registered p s => Carries sockets p ∧ ∃ key, p.flow.outKey = some key ∧ d.nat.Stored key s

/-- A carried packet is IPv4. -/
theorem Carries.isIpv4 {sockets : Sockets} {p : Outbound} (h : Carries sockets p) :
    IsIpv4 p.buf.bytes ∧ p.flow = flowV4 p.buf.bytes :=
  isIpv4_of_dst h.parsed h.dst

/-- The socket address of a carried packet is the one in its header. -/
theorem Carries.dst_eq {sockets : Sockets} {p : Outbound} (h : Carries sockets p) :
    p.dst = addrAt p.buf.bytes 16 := by
  have hdst := h.dst
  rw [h.isIpv4.2, flowV4, Ipv4Addr.fromStr_dotted] at hdst
  exact (Option.some.inj hdst).symm

/-- The 5-tuple under which a carried packet is registered. -/
theorem Carries.outKey {sockets : Sockets} {p : Outbound} (h : Carries sockets p) :
    p.flow.outKey = some (p.flow.proto, addrAt p.buf.bytes 12, p.flow.sport,
      addrAt p.buf.bytes 16, p.flow.dport) := by
  rw [h.isIpv4.2]
  simp only [Flow.outKey, parseIp, flowV4, Ipv4Addr.fromStr_dotted]

/-- A carried packet is rewritten without a panic. -/
theorem Carries.rewrite_eq {sockets : Sockets} {p : Outbound} (h : Carries sockets p) :
    rewriteIpv4Source p.buf.bytes p.egressIp =
      .ok (true, rewritten .source p.buf.bytes p.egressIp) :=
  rewriteIpv4_eq h.isIpv4.1.version h.isIpv4.1.length h.isIpv4.1.complete p.buf.bound

/-- A session stored before a step is stored after it. -/
theorem Stepped.stored {sockets : Sockets} {d d' : DataPlane} {op : DataPlaneOp} {out : Outcome}
    (h : Stepped sockets d op out d') {key : OutKey} {s : Session} (hs : d.nat.Stored key s) :
    d'.nat.Stored key s := by
  cases h with
  | unregistered ht hr => exact hs.register ..
  | registered ht hr => exact hs.register ..
  | _ => exact hs

/-- The stations of the draining thread are kept by every step. -/
theorem Stepped.threadOk {sockets : Sockets} {d d' : DataPlane} {op : DataPlaneOp} {out : Outcome}
    (h : Stepped sockets d op out d') (hd : ThreadOk sockets d) : ThreadOk sockets d' := by
  cases h with
  | stalled => exact hd
  | unread ht ha =>
    rw [ThreadOk, ht] at hd
    simp only [ThreadOk, ht]
  | routed ht hp hroute => exact hp
  | unregistered ht hr => exact trivial
  | registered ht hr =>
    rw [ThreadOk, ht] at hd
    exact ⟨hd, NatTable.stored_of_register hr⟩
  | unsent ht hw => exact trivial
  | sent ht hw => exact trivial
  | ignored => exact hd
  | injected hversion hparse hsrc hdst hs hw => exact hd
  | adjusted ha => exact hd

theorem threadOk_of_run {sockets : Sockets} {d t : DataPlane} {history : List DataPlaneEvent}
    (h : Run (step sockets) d history t) (hd : ThreadOk sockets d) : ThreadOk sockets t := by
  apply h.invariant _ hd
  intro d op out d' hs hstep
  exact (stepped_of_step hstep).threadOk hs

/-- They are known in front of every step of a run. -/
theorem threadOk_before {sockets : Sockets} {d t : DataPlane} {history : List DataPlaneEvent}
    (h : Run (step sockets) d history t) (hd : ThreadOk sockets d) {e : DataPlaneEvent}
    (he : e ∈ history) : ThreadOk sockets e.before := by
  apply h.invariant_before (C := fun _ => True) _ (fun _ _ => trivial) hd e he
  intro d op out d' _ hs hstep
  exact (stepped_of_step hstep).threadOk hs

/-- A carried packet was read. -/
theorem read_of_carried {sockets : Sockets} {d t : DataPlane} {history : List DataPlaneEvent}
    (h : Run (step sockets) d history t) (hd : d.thread = .waiting) {p : Outbound}
    (hp : t.thread.carried = some p) : ∃ e ∈ history, e.input = .read p.buf := by
  have horigin := h.origin (P := fun d => d.thread.carried = some p)
    (Q := fun e => e.input = .read p.buf) ?_ hp
  · rcases horigin with hwaiting | hread
    · rw [hd] at hwaiting
      exact absurd hwaiting (by simp [EgressThread.carried])
    · exact hread
  · intro s op out s' hstep hs'
    cases stepped_of_step hstep with
    | stalled => exact .inl hs'
    | unread ht ha => exact .inl hs'
    | routed ht hp' hroute =>
      obtain rfl := Option.some.inj hs'
      exact .inr rfl
    | unregistered ht hr => exact absurd hs' (by simp [EgressThread.carried])
    | registered ht hr =>
      obtain rfl := Option.some.inj hs'
      exact .inl (by rw [ht, EgressThread.carried])
    | unsent ht hw => exact absurd hs' (by simp [EgressThread.carried])
    | sent ht hw => exact absurd hs' (by simp [EgressThread.carried])
    | ignored => exact .inl hs'
    | injected hversion hparse hsrc hdst hs hw => exact .inl hs'
    | adjusted ha => exact .inl hs'

/-- What is handed to a socket, for the packet read and the address of the interface. -/
structure SafelySent (sockets : Sockets) (nat : NatTable) (pkt : List UInt8) (egressIp : Ipv4Addr)
    (iface : String) (out : List UInt8) (dst : Ipv4Addr) : Prop where
  readFlow : parse pkt = .ok (some (flowV4 pkt))
  isIpv4 : IsIpv4 out
  sentFlow : parse out = .ok (some { flowV4 pkt with src := egressIp.dotted })
  address : sockets.ifaceIps.lookup iface = some egressIp
  source : addrAt out 12 = egressIp
  socket : (sockets.egress.lookup iface).isSome = true
  destination : dst = addrAt pkt 16
  header : Verifies (out.take (headerLen out))
  session : ∃ key s, (flowV4 pkt).outKey = some key ∧ nat.Stored key s

/-- Egress safety of a history. -/
structure EgressSafe (sockets : Sockets) (history : List DataPlaneEvent) : Prop where
  /-- Every packet handed to a socket is made from the IPv4 packet that the thread carries then,
  which it read before. -/
  sent : ∀ before e after, history = before ++ e :: after →
    ∀ iface out dst accepted, e.output = .sent iface out dst accepted →
    ∃ p s, e.before.thread = .registered p s ∧ p.iface = iface ∧
      (∃ r ∈ before, r.input = .read p.buf) ∧
      SafelySent sockets e.before.nat p.buf.bytes p.egressIp iface out dst
  /-- Only an IPv4 packet is registered. -/
  registered : ∀ e ∈ history, ∀ s, e.output = .registered s →
    ∃ p, e.before.thread = .routed p ∧ IsIpv4 p.buf.bytes
  /-- Nothing but a registration changes the session table. -/
  untouched : ∀ e ∈ history, (∀ s, e.output ≠ .registered s) → e.after.nat = e.before.nat

private theorem safelySent_of_registered {sockets : Sockets} {d : DataPlane} {p : Outbound}
    {s : Session} (hok : ThreadOk sockets d) (ht : d.thread = .registered p s) :
    SafelySent sockets d.nat p.buf.bytes p.egressIp p.iface
      (rewritten .source p.buf.bytes p.egressIp) p.dst := by
  rw [ThreadOk, ht] at hok
  obtain ⟨hcarries, key, hkey, hstored⟩ := hok
  obtain ⟨hipv4, hflow⟩ := hcarries.isIpv4
  have hout : IsIpv4 (rewritten .source p.buf.bytes p.egressIp) := isIpv4_rewritten hipv4
  refine ⟨parse_ipv4 hipv4, hout, ?_, hcarries.address, addrAt_rewritten_self hipv4, ?_,
    hcarries.dst_eq, ?_, key, s, ?_, hstored⟩
  · rw [parse_ipv4 hout, flowV4_rewritten_source hipv4]
  · rw [hcarries.socket, Option.isSome_some]
  · rw [headerLen_rewritten hipv4]
    exact verifies_header hipv4
  · rw [← hflow]
    exact hkey

private theorem register_of_none {t : NatTable} {flow : Flow} {iface : String} {ip : Ipv4Addr}
    (h : (t.register flow iface ip).1 = none) : (t.register flow iface ip).2 = t := by
  rcases t.register_cases flow iface ip with ⟨_, hr⟩ | ⟨_, _, _, _, hr⟩ | ⟨_, _, _, hr⟩
  · rw [hr]
  · rw [hr]
  · rw [hr] at h
    exact absurd h (by simp)

/-- Every run of the data plane in which the draining thread starts with no packet is safe,
whatever the policy, the session table, the sockets and the addresses are. -/
theorem egress_safe {sockets : Sockets} {d t : DataPlane} {history : List DataPlaneEvent}
    (hrun : Run (step sockets) d history t) (hstart : d.thread = .waiting) :
    EgressSafe sockets history := by
  have hok : ThreadOk sockets d := by simp only [ThreadOk, hstart]
  refine ⟨?_, ?_, ?_⟩
  · intro before e after hsplit iface out dst accepted hsent
    subst hsplit
    obtain ⟨hbefore, hstep, _⟩ := hrun.split
    have hok' := threadOk_of_run hbefore hok
    have hstepped := stepped_of_step hstep
    rw [hsent] at hstepped
    generalize e.after = t' at hstepped
    generalize e.input = op at hstepped
    cases hstepped with
    | @sent p s _ _ _ _ ht hw =>
      have hcarries : Carries sockets p := by
        rw [ThreadOk, ht] at hok'
        exact hok'.1
      obtain rfl := (Prod.mk.inj (Except.ok.inj (hw.symm.trans hcarries.rewrite_eq))).2
      refine ⟨p, s, ht, rfl, ?_, safelySent_of_registered hok' ht⟩
      exact read_of_carried hbefore hstart (by rw [ht, EgressThread.carried])
  · intro e he s hs
    have hok' := threadOk_before hrun hok he
    have hstepped := stepped_of_step (hrun.step_of_mem he)
    rw [hs] at hstepped
    generalize e.after = t' at hstepped
    generalize e.input = op at hstepped
    cases hstepped with
    | @registered p _ ht hr =>
      rw [ThreadOk, ht] at hok'
      exact ⟨p, ht, hok'.isIpv4.1⟩
  · intro e he hne
    have hstepped := stepped_of_step (hrun.step_of_mem he)
    generalize e.output = out at hne hstepped
    generalize e.input = op at hstepped
    generalize e.after = t' at hstepped ⊢
    cases hstepped with
    | unregistered ht hr => exact register_of_none hr
    | registered ht hr => exact absurd rfl (hne _)
    | _ => rfl

private def hostOutcomes : List Outcome :=
  [.routed "wlan0", .registered (hostSession "wlan0" ⟨192, 168, 31, 49⟩),
    .sent "wlan0" (rewritten .source hostPacket ⟨192, 168, 31, 49⟩) ⟨8, 8, 8, 8⟩ true]

/-- One packet sent by a host with two uplinks. -/
theorem egress_safe_host :
    ∃ history t, Run (step uplinkSockets) (start (uplinksAggregator .default)) history t ∧
      history.map Event.output = hostOutcomes ∧ EgressSafe uplinkSockets history := by
  have hexec : (Run.exec (step uplinkSockets) (start (uplinksAggregator .default))
      [.read hostBuffer, .register, .send true]).map (fun r => r.1.map Event.output) =
      .ok hostOutcomes := by decide +kernel
  obtain ⟨history, t, hrun, _, houtputs⟩ := Run.exists_of_exec hexec
  exact ⟨history, t, hrun, houtputs, egress_safe hrun rfl⟩

end DataPlane

end Netmux
