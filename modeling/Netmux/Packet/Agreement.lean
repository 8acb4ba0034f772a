import Netmux.Packet.RewriteCorrect

/-!
# Parser and rewriters

The parser and the rewriters validate the header on their own. They agree on version,
length and truncation; only the parser refuses a header length below 20 bytes, so a packet
that announces one is rewritten although it was never a flow.
-/

namespace Netmux

open Checked

/-- Parser and rewriters agree on a packet: what the parser takes for IPv4 is rewritten in the one
address of its flow, and what it refuses or takes for IPv6 stays as it is. -/
structure ParserAgrees (pkt : List UInt8) (addr : Ipv4Addr) : Prop where
  accepted : ∀ flow, byteAt pkt 0 >>> 4 = 4 → parse pkt = .ok (some flow) →
    (∃ out, rewriteIpv4Source pkt addr = .ok (true, out) ∧
      parse out = .ok (some { flow with src := addr.dotted })) ∧
    ∃ out, rewriteIpv4Dest pkt addr = .ok (true, out) ∧
      parse out = .ok (some { flow with dst := addr.dotted })
  refused : parse pkt = .ok none ∨ byteAt pkt 0 >>> 4 = 6 →
    rewriteIpv4Source pkt addr = .ok (false, pkt) ∧ rewriteIpv4Dest pkt addr = .ok (false, pkt)

/-- A packet of version 4 whose announced header is shorter than any IPv4 header. -/
def ShortHeader (pkt : List UInt8) : Prop :=
  byteAt pkt 0 >>> 4 = 4 ∧ 20 ≤ pkt.length ∧ headerLen pkt < 20

instance (pkt : List UInt8) : Decidable (ShortHeader pkt) :=
  inferInstanceAs (Decidable (_ ∧ _))

private theorem parserAgrees_ipv4 {pkt : List UInt8} (addr : Ipv4Addr) (hv : IsIpv4 pkt)
    (hmax : pkt.length ≤ 65536) : ParserAgrees pkt addr := by
  have hrewrite (field : AddrField) :
      rewriteIpv4 field pkt addr = .ok (true, rewritten field pkt addr) :=
    rewriteIpv4_eq hv.version hv.length hv.complete hmax
  have hparse (field : AddrField) : parse (rewritten field pkt addr) =
      .ok (some (flowV4 (rewritten field pkt addr))) :=
    parse_ipv4 (isIpv4_rewritten hv)
  constructor
  · intro flow _ hflow
    obtain ⟨-, rfl⟩ := isIpv4_of_parse hv.version hflow
    refine ⟨⟨_, hrewrite .source, ?_⟩, _, hrewrite .dest, ?_⟩
    · rw [hparse, flowV4_rewritten_source hv]
    · rw [hparse, flowV4_rewritten_dest hv]
  · rintro (hnone | h6)
    · rw [parse_ipv4 hv] at hnone
      cases hnone
    · rw [hv.version] at h6
      cases h6

private theorem parserAgrees_refused {pkt : List UInt8} (addr : Ipv4Addr)
    (hnot : ¬ (byteAt pkt 0 >>> 4 = 4 ∧ ∃ flow, parse pkt = .ok (some flow)))
    (h : pkt.length < 20 ∨ byteAt pkt 0 >>> 4 ≠ 4 ∨ pkt.length < headerLen pkt) :
    ParserAgrees pkt addr where
  accepted flow hver hflow := absurd ⟨hver, flow, hflow⟩ hnot
  refused _ := ⟨rewriteIpv4_refused addr h, rewriteIpv4_refused addr h⟩

/-- Parser and rewriters agree exactly on the packets that do not announce a short header. -/
theorem parserAgrees_iff {pkt : List UInt8} (addr : Ipv4Addr) (hmax : pkt.length ≤ 65536) :
    ParserAgrees pkt addr ↔ ¬ ShortHeader pkt := by
  by_cases hver : byteAt pkt 0 >>> 4 = 4
  · by_cases hv : IsIpv4 pkt
    · have hihl := hv.ihl
      apply iff_of_true (parserAgrees_ipv4 addr hv hmax)
      rintro ⟨-, -, hshort⟩
      omega
    · have hnone : parse pkt = .ok none := by rw [parse_of_version4 hver, if_neg hv]
      by_cases hshort : ShortHeader pkt
      · refine iff_of_false ?_ (not_not.mpr hshort)
        intro hagrees
        obtain ⟨-, hlen, hihl⟩ := hshort
        have hrefused := (hagrees.refused (.inl hnone)).1
        rw [rewriteIpv4Source, rewriteIpv4_eq hver hlen (by omega) hmax] at hrefused
        cases hrefused
      · refine iff_of_true (parserAgrees_refused addr ?_ ?_) hshort
        · rintro ⟨-, flow, hflow⟩
          rw [hnone] at hflow
          cases hflow
        · by_contra hcomplete
          rw [not_or, not_or] at hcomplete
          refine hv ⟨hver, by omega, ?_, by omega⟩
          by_contra hihl
          exact hshort ⟨hver, by omega, by omega⟩
  · exact iff_of_true (parserAgrees_refused addr (fun h => hver h.1) (.inr (.inl hver)))
      fun h => hver h.1

/-- A bare header of 20 bytes whose first byte announces `ihl` words. -/
def headerProbe (ihl : UInt8) : List UInt8 :=
  [0x40 ||| ihl, 0, 0, 20, 0, 1, 0x40, 0, 64, 1, 0, 0, 10, 99, 0, 1, 8, 8, 4, 4]

theorem parserAgrees_iff_probe :
    ParserAgrees (headerProbe 5) ⟨192, 168, 31, 49⟩ ↔ ¬ ShortHeader (headerProbe 5) :=
  parserAgrees_iff ⟨192, 168, 31, 49⟩ (by decide)

/-- A header length of 16 bytes is refused by the parser and rewritten all the same. -/
theorem parser_refuses_rewritten : ¬ ParserAgrees (headerProbe 4) ⟨192, 168, 31, 49⟩ := by
  intro hagrees
  have hparse : parse (headerProbe 4) = .ok none := by decide +kernel
  have hrun : (rewriteIpv4Source (headerProbe 4) ⟨192, 168, 31, 49⟩).map Prod.fst = .ok true := by
    decide +kernel
  rw [(hagrees.refused (.inl hparse)).1] at hrun
  cases hrun

end Netmux
