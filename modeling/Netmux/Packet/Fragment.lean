import Netmux.Packet.Transport

/-!
# Fragments

A datagram is split into fragments that repeat its addresses, protocol and identification
and carry consecutive pieces of its payload. The rewriters look at neither the fragment
offset nor the MF bit: they take bytes 16 and 17 of every piece for a checksum.
-/

namespace Netmux

/-- A fragment of a datagram that carries its payload from `offset` on. -/
structure IsFragment (datagram : List UInt8) (offset : Nat) (last : Bool) (frag : List UInt8) :
    Prop where
  ipv4 : IsIpv4 frag
  whole : totalLength frag = frag.length
  source : addrAt frag 12 = addrAt datagram 12
  dest : addrAt frag 16 = addrAt datagram 16
  proto : byteAt frag 9 = byteAt datagram 9
  ident : wordAt frag 4 = wordAt datagram 4
  position : 8 * fragmentOffset frag = offset
  more : moreFragments frag = !last
  payload : segment frag = ((segment datagram).drop offset).take (segmentLen frag)

instance (datagram : List UInt8) (offset : Nat) (last : Bool) (frag : List UInt8) :
    Decidable (IsFragment datagram offset last frag) :=
  decidable_of_iff (IsIpv4 frag ∧ totalLength frag = frag.length ∧
      addrAt frag 12 = addrAt datagram 12 ∧ addrAt frag 16 = addrAt datagram 16 ∧
      byteAt frag 9 = byteAt datagram 9 ∧ wordAt frag 4 = wordAt datagram 4 ∧
      8 * fragmentOffset frag = offset ∧ moreFragments frag = !last ∧
      segment frag = ((segment datagram).drop offset).take (segmentLen frag))
    ⟨fun ⟨h₁, h₂, h₃, h₄, h₅, h₆, h₇, h₈, h₉⟩ => ⟨h₁, h₂, h₃, h₄, h₅, h₆, h₇, h₈, h₉⟩,
      fun ⟨h₁, h₂, h₃, h₄, h₅, h₆, h₇, h₈, h₉⟩ => ⟨h₁, h₂, h₃, h₄, h₅, h₆, h₇, h₈, h₉⟩⟩

/-- The fragments that carry the payload of a datagram from `offset` to its end: every one but
the last has a positive multiple of eight bytes. -/
inductive Fragments (datagram : List UInt8) : Nat → List (List UInt8) → Prop
  | last {offset : Nat} {frag : List UInt8} (h : IsFragment datagram offset true frag)
      (hend : offset + segmentLen frag = segmentLen datagram) : Fragments datagram offset [frag]
  | more {offset : Nat} {frag : List UInt8} {rest : List (List UInt8)}
      (h : IsFragment datagram offset false frag) (hpos : 0 < segmentLen frag)
      (hunit : segmentLen frag % 8 = 0)
      (hrest : Fragments datagram (offset + segmentLen frag) rest) :
      Fragments datagram offset (frag :: rest)

/-- Every listed fragment is one of the datagram. -/
theorem Fragments.isFragment {datagram : List UInt8} {offset : Nat} {frags : List (List UInt8)}
    (h : Fragments datagram offset frags) {frag : List UInt8} (hf : frag ∈ frags) :
    ∃ offset last, IsFragment datagram offset last frag := by
  induction h with
  | last h hend =>
    rw [List.mem_singleton] at hf
    subst hf
    exact ⟨_, _, h⟩
  | more h hpos hunit hrest ih =>
    rcases List.mem_cons.mp hf with rfl | hf
    · exact ⟨_, _, h⟩
    · exact ih hf

/-- A fragment fits the receive buffers. -/
theorem IsFragment.length_le {datagram : List UInt8} {offset : Nat} {last : Bool}
    {frag : List UInt8} (h : IsFragment datagram offset last frag) : frag.length ≤ 65536 := by
  have hw := (wordAt frag 2).toNat_lt
  have hwhole := h.whole
  unfold totalLength at hwhole
  omega

/-- A rewrite that changes the address field and the header checksum and nothing else. -/
structure HeaderOnly (field : AddrField) (pkt out : List UInt8) : Prop where
  length : out.length = pkt.length
  frame : ∀ i, (i < field.offset ∨ field.offset + 4 ≤ i) → (i < 10 ∨ 12 ≤ i) → out[i]? = pkt[i]?

/-- Both rewriters leave the payload of a packet alone, whatever the new address. -/
def PayloadSurvives (pkt : List UInt8) : Prop :=
  ∀ addr, (∃ out, rewriteIpv4Source pkt addr = .ok (true, out) ∧ HeaderOnly .source pkt out) ∧
    ∃ out, rewriteIpv4Dest pkt addr = .ok (true, out) ∧ HeaderOnly .dest pkt out

section Payload

variable {pkt : List UInt8}

private theorem headerOnly_of_short (field : AddrField) (addr : Ipv4Addr) (hv : IsIpv4 pkt)
    (hshort : segmentLen pkt < 18) : HeaderOnly field pkt (rewritten field pkt addr) :=
  ⟨length_rewritten field addr hv.length, fun _ haddr hsum =>
    getElem?_rewritten hv.length haddr hsum fun hs => absurd hs (not_hasChecksumSlot hshort)⟩

/-- Two neighbouring addresses ask for two different words in the slot. -/
private theorem wordSum_pseudo_next (pkt : List UInt8) (proto : UInt8) :
    wordSum (AddrField.source.pseudo pkt ⟨0, 0, 0, 1⟩ proto) =
      wordSum (AddrField.source.pseudo pkt ⟨0, 0, 0, 0⟩ proto) + 1 := by
  simp only [AddrField.pseudo, pseudoHeader, Ipv4Addr.octets, List.cons_append, List.nil_append,
    toBe, wordSum_pair, beWord, UInt8.reduceToNat]
  omega

private theorem segmentLen_lt_of_survives (hv : IsIpv4 pkt)
    (hproto : isTransport (byteAt pkt 9) = true) (hmax : pkt.length ≤ 65536)
    (h : PayloadSurvives pkt) : segmentLen pkt < 18 := by
  by_contra hlong
  have hihl := hv.ihl
  have hslot : HasChecksumSlot pkt := by
    refine ⟨hproto, ?_⟩
    unfold segmentLen at hlong
    omega
  -- the slot holds the word of the packet for every address
  have hword (addr : Ipv4Addr) :
      beWord (byteAt pkt (headerLen pkt + 16)) (byteAt pkt (headerLen pkt + 16 + 1)) =
        65535 - onesSum (wordSum (AddrField.source.pseudo pkt addr (byteAt pkt 9)) +
          wordSum (zeroChecksum (segment pkt))) := by
    obtain ⟨⟨out, hout, hheader⟩, _⟩ := h addr
    have hrw : rewriteIpv4Source pkt addr = .ok (true, rewritten .source pkt addr) :=
      rewriteIpv4_eq hv.version hv.length hv.complete hmax
    obtain rfl := (Prod.mk.inj (Except.ok.inj (hout.symm.trans hrw))).2
    have hbyte (i : Nat) (hi : 20 ≤ i) : byteAt (rewritten .source pkt addr) i = byteAt pkt i :=
      byteAt_congr (hheader.frame i (.inr (by simp only [AddrField.offset]; omega)) (by omega))
    rw [← slot_rewritten .source addr hv hslot, hbyte _ (by omega), hbyte _ (by omega)]
  have hne : byteAt pkt 9 ≠ 0 := by
    intro hz
    rw [hz] at hproto
    exact absurd hproto (by decide)
  have hpos := wordSum_pseudo_pos .source pkt ⟨0, 0, 0, 0⟩ hne
  have hzero := hword ⟨0, 0, 0, 0⟩
  have hone := hword ⟨0, 0, 0, 1⟩
  rw [wordSum_pseudo_next] at hone
  have hle := onesSum_le (wordSum (AddrField.source.pseudo pkt ⟨0, 0, 0, 0⟩ (byteAt pkt 9)) +
    wordSum (zeroChecksum (segment pkt)))
  have hle' := onesSum_le (wordSum (AddrField.source.pseudo pkt ⟨0, 0, 0, 0⟩ (byteAt pkt 9)) + 1 +
    wordSum (zeroChecksum (segment pkt)))
  have hones : onesSum (wordSum (AddrField.source.pseudo pkt ⟨0, 0, 0, 0⟩ (byteAt pkt 9)) +
      wordSum (zeroChecksum (segment pkt))) = onesSum (wordSum (AddrField.source.pseudo pkt
        ⟨0, 0, 0, 0⟩ (byteAt pkt 9)) + 1 + wordSum (zeroChecksum (segment pkt))) := by
    omega
  rw [onesSum_eq_iff (by omega) (by omega)] at hones
  omega

/-- The payload of a TCP or UDP packet survives exactly when it is too short for the slot. -/
theorem payloadSurvives_iff (hv : IsIpv4 pkt) (hproto : isTransport (byteAt pkt 9) = true)
    (hmax : pkt.length ≤ 65536) : PayloadSurvives pkt ↔ segmentLen pkt < 18 := by
  constructor
  · exact segmentLen_lt_of_survives hv hproto hmax
  · intro hshort addr
    have hrw (field : AddrField) :
        rewriteIpv4 field pkt addr = .ok (true, rewritten field pkt addr) :=
      rewriteIpv4_eq hv.version hv.length hv.complete hmax
    exact ⟨⟨_, hrw .source, headerOnly_of_short .source addr hv hshort⟩,
      ⟨_, hrw .dest, headerOnly_of_short .dest addr hv hshort⟩⟩

end Payload

end Netmux
