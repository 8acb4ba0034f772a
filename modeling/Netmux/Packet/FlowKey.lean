import Netmux.Lib.Text
import Netmux.Packet.Parse

/-!
# Flow keys

The key of a flow is its source, its source port, an arrow, its destination and its
destination port. No source contains the arrow's dash and no port a colon, so the key
determines all four; the protocol is not part of it.
-/

namespace Netmux

/-- The key determines what it is made from, as long as no source contains a dash. -/
theorem Flow.key_inj {f g : Flow} (hf : '-' ∉ f.src.toList) (hg : '-' ∉ g.src.toList)
    (h : f.key = g.key) :
    f.src = g.src ∧ f.sport = g.sport ∧ f.dst = g.dst ∧ f.dport = g.dport := by
  have hport {x y : UInt16} (h : (Nat.repr x.toNat).toList = (Nat.repr y.toNat).toList) : x = y :=
    UInt16.toNat_inj.mp (Nat.repr_inj.mp (String.toList_inj.mp h))
  have hdash (x : UInt16) : '-' ∉ (Nat.repr x.toNat).toList := not_mem_repr (by decide)
  have hcolon (x : UInt16) : ':' ∉ (Nat.repr x.toNat).toList := not_mem_repr (by decide)
  have hlist (x : Flow) : x.key.toList = (x.src.toList ++ ':' :: (Nat.repr x.sport.toNat).toList) ++
      '-' :: ('>' :: x.dst.toList ++ ':' :: (Nat.repr x.dport.toNat).toList) := by
    have harrow : "->".toList = ['-', '>'] := by decide
    have hsep : ":".toList = [':'] := by decide
    simp only [Flow.key, String.toList_append, harrow, hsep, List.append_assoc, List.cons_append,
      List.nil_append]
  have hends {x : Flow} (hx : '-' ∉ x.src.toList) :
      '-' ∉ x.src.toList ++ ':' :: (Nat.repr x.sport.toNat).toList := by
    rw [List.mem_append, List.mem_cons]
    exact not_or.mpr ⟨hx, not_or.mpr ⟨by decide, hdash _⟩⟩
  have hkeys := congrArg String.toList h
  rw [hlist f, hlist g] at hkeys
  obtain ⟨hsource, hdest⟩ := append_cons_inj_of_first (hends hf) (hends hg) hkeys
  obtain ⟨hsrc, hsport⟩ := append_cons_inj_of_last (hcolon _) (hcolon _) hsource
  obtain ⟨hdst, hdport⟩ := append_cons_inj_of_last (hcolon _) (hcolon _) hdest
  exact ⟨String.toList_inj.mp hsrc, hport hsport, String.toList_inj.mp (List.cons.inj hdst).2,
    hport hdport⟩

/-- What identifies a connection. -/
structure FiveTuple where
  src : Ipv4Addr
  dst : Ipv4Addr
  proto : UInt8
  sport : UInt16
  dport : UInt16
  deriving DecidableEq

/-- The 5-tuple of an IPv4 packet; its ports are zero without a transport or without room. -/
def fiveTuple (pkt : List UInt8) : FiveTuple where
  src := addrAt pkt 12
  dst := addrAt pkt 16
  proto := byteAt pkt 9
  sport := (portsAt pkt (byteAt pkt 9) (headerLen pkt)).1
  dport := (portsAt pkt (byteAt pkt 9) (headerLen pkt)).2

/-- Connections between the same ports of the same hosts. -/
def FiveTuple.SameEnds (s t : FiveTuple) : Prop :=
  s.src = t.src ∧ s.sport = t.sport ∧ s.dst = t.dst ∧ s.dport = t.dport

instance (s t : FiveTuple) : Decidable (s.SameEnds t) :=
  inferInstanceAs (Decidable (_ ∧ _ ∧ _ ∧ _))

/-- The keys of two IPv4 packets agree exactly when their ends do. -/
theorem key_flowV4_eq_iff {p q : List UInt8} :
    (flowV4 p).key = (flowV4 q).key ↔ (fiveTuple p).SameEnds (fiveTuple q) := by
  have hdash (pkt : List UInt8) : '-' ∉ (flowV4 pkt).src.toList := Ipv4Addr.dash_not_mem_dotted _
  constructor
  · intro h
    obtain ⟨hsrc, hsport, hdst, hdport⟩ := Flow.key_inj (hdash p) (hdash q) h
    exact ⟨Ipv4Addr.dotted_inj.mp hsrc, hsport, Ipv4Addr.dotted_inj.mp hdst, hdport⟩
  · rintro ⟨hsrc, hsport, hdst, hdport⟩
    simp only [fiveTuple] at hsrc hsport hdst hdport
    simp only [Flow.key, flowV4, hsrc, hsport, hdst, hdport]

/-- Connections with the same ends and the same protocol are one. -/
theorem FiveTuple.sameEnds_iff {s t : FiveTuple} (h : s.proto = t.proto) :
    s.SameEnds t ↔ s = t := by
  constructor
  · rintro ⟨hsrc, hsport, hdst, hdport⟩
    cases s
    cases t
    simp only [FiveTuple.mk.injEq]
    exact ⟨hsrc, hdst, h, hsport, hdport⟩
  · rintro rfl
    exact ⟨rfl, rfl, rfl, rfl⟩

end Netmux
