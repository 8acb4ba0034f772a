import Netmux.Packet.FlowKey
import Netmux.Sched.Aggregator

/-!
# Connections and entries of the flow table

The flow table holds one entry per key, so that two connections share an entry when their
keys agree. The key leaves the protocol out: a TCP and a UDP connection between the same
ports of the same hosts share one, and no other two do.
-/

namespace Netmux

/-- The key of a flow tells the connections of two packets apart. -/
structure KeyIdentifies (p q : List UInt8) (f g : Flow) : Prop where
  /-- The keys agree exactly when the 5-tuples do. -/
  key_eq_iff : f.key = g.key ↔ fiveTuple p = fiveTuple q
  /-- Routing a packet leaves the entries of other connections alone. -/
  separate : fiveTuple p ≠ fiveTuple q → ∀ (a a' : Aggregator) (d : Option ForwardDecision),
    a.route q = .ok (d, a') → a'.flowTable.lookup f.key = a.flowTable.lookup f.key

/-- Routing a packet touches no entry but the one of its own key. -/
theorem Aggregator.lookup_of_route {a a' : Aggregator} {pkt : List UInt8} {flow : Flow}
    {d : Option ForwardDecision} {flowKey : String} (hparse : parse pkt = .ok (some flow))
    (hroute : a.route pkt = .ok (d, a')) (hne : flowKey ≠ flow.key) :
    a'.flowTable.lookup flowKey = a.flowTable.lookup flowKey := by
  cases routed_of_route hroute with
  | disabled h => rfl
  | unparsed h => rfl
  | unusable h => rfl
  | decided henabled hparse' hpick =>
    obtain rfl := Option.some.inj (Except.ok.inj (hparse.symm.trans hparse'))
    rw [decided, Table.lookup_insert_eq, if_neg hne]

/-- The keys of two IPv4 packets tell their connections apart unless these differ in nothing but
the protocol. -/
theorem keyIdentifies_iff {p q : List UInt8} {f g : Flow} (hp : byteAt p 0 >>> 4 = 4)
    (hq : byteAt q 0 >>> 4 = 4) (hf : parse p = .ok (some f)) (hg : parse q = .ok (some g)) :
    KeyIdentifies p q f g ↔
      (fiveTuple p).proto = (fiveTuple q).proto ∨ ¬ (fiveTuple p).SameEnds (fiveTuple q) := by
  obtain rfl := (isIpv4_of_parse hp hf).2
  obtain rfl := (isIpv4_of_parse hq hg).2
  constructor
  · intro h
    by_cases hends : (fiveTuple p).SameEnds (fiveTuple q)
    · have htuple := h.key_eq_iff.mp (key_flowV4_eq_iff.mpr hends)
      exact .inl (congrArg FiveTuple.proto htuple)
    · exact .inr hends
  · intro h
    have hiff : (flowV4 p).key = (flowV4 q).key ↔ fiveTuple p = fiveTuple q := by
      rw [key_flowV4_eq_iff]
      rcases h with hproto | hends
      · exact FiveTuple.sameEnds_iff hproto
      · apply iff_of_false hends
        intro htuple
        exact hends ((FiveTuple.sameEnds_iff (congrArg FiveTuple.proto htuple)).mpr htuple)
    refine ⟨hiff, ?_⟩
    intro hne a a' d hroute
    exact Aggregator.lookup_of_route hg hroute (fun hkey => hne (hiff.mp hkey))

/-- A UDP packet between the same ports as the TCP packet. -/
def hostDatagram : List UInt8 :=
  [0x45, 0, 0, 28, 0, 0, 0, 0, 64, 17, 0, 0, 10, 99, 0, 1, 8, 8, 8, 8, 0x13, 0x88, 1, 0xbb, 0, 8,
    0, 0]

/-- The datagram against the TCP packet. -/
theorem keyIdentifies_iff_host :
    KeyIdentifies hostPacket hostDatagram (flowV4 hostPacket) (flowV4 hostDatagram) ↔
      (fiveTuple hostPacket).proto = (fiveTuple hostDatagram).proto ∨
        ¬ (fiveTuple hostPacket).SameEnds (fiveTuple hostDatagram) :=
  keyIdentifies_iff (by decide) (by decide) (parse_ipv4 (by decide)) (parse_ipv4 (by decide))

/-- A TCP and a UDP connection to the same port of a server share their key. -/
theorem key_omits_protocol :
    ∃ f g, parse hostPacket = .ok (some f) ∧ parse hostDatagram = .ok (some g) ∧
      f.key = g.key ∧ fiveTuple hostPacket ≠ fiveTuple hostDatagram ∧
      ¬ KeyIdentifies hostPacket hostDatagram f g := by
  have hkey : (flowV4 hostPacket).key = (flowV4 hostDatagram).key :=
    key_flowV4_eq_iff.mpr (by decide)
  have hne : fiveTuple hostPacket ≠ fiveTuple hostDatagram := by decide
  refine ⟨_, _, parse_ipv4 (by decide), parse_ipv4 (by decide), hkey, hne, ?_⟩
  intro h
  exact hne (h.key_eq_iff.mp hkey)

end Netmux
