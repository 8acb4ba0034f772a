import Netmux.App.EgressSafety
import Netmux.Lib.ByteOrder

/-!
# The destination of a raw send

The kernel routes a packet by the socket address, not by its header. The two agree while the
address keeps the order of its octets on the way into the word of the socket address.
-/

namespace Netmux

/-- `sockaddr_in`; the rest of it is zero. -/
structure SockaddrIn where
  sinFamily : UInt16
  sinPort : UInt16
  sAddr : UInt32
  deriving DecidableEq, Repr

/-- The four bytes of the address in memory order. -/
def SockaddrIn.addrBytes (order : ByteOrder) (sa : SockaddrIn) : List UInt8 :=
  order.toNeBytes 4 sa.sAddr.toNat

/-- What a `sendto` call is given. -/
structure SendTo where
  fd : Nat
  pkt : List UInt8
  addr : SockaddrIn
  deriving DecidableEq, Repr

/-- `AF_INET`. -/
def afInet : UInt16 := 2

/-- Send one IPv4 packet toward `dst`: the call, and the result when the kernel answers `n`. -/
def RawEgress.send (order : ByteOrder) (sock : RawEgress) (pkt : List UInt8) (dst : Ipv4Addr)
    (n : Int) : SendTo × Option Nat :=
  let sa : SockaddrIn :=
    { sinFamily := afInet
      sinPort := 0
      sAddr := UInt32.ofNat (order.toBe 4 (order.fromNeBytes dst.octets)) }
  (⟨sock.fd, pkt, sa⟩, if n < 0 then none else some n.toNat)

theorem octets_addrAt {pkt : List UInt8} {i : Nat} (h : i + 4 ≤ pkt.length) :
    (addrAt pkt i).octets = (pkt.drop i).take 4 := by
  ext k : 1
  by_cases hk : k < 4
  · rw [List.getElem?_take_of_lt hk, List.getElem?_drop,
      getElem?_eq_byteAt (show i + k < pkt.length by omega)]
    obtain rfl | rfl | rfl | rfl : k = 0 ∨ k = 1 ∨ k = 2 ∨ k = 3 := by omega
    · rfl
    · rfl
    · rfl
    · rfl
  · rw [List.getElem?_eq_none (by rw [Ipv4Addr.length_octets]; omega),
      List.getElem?_eq_none (by rw [List.length_take]; omega)]

namespace RawEgress

/-- The address bytes are the octets, or on a little-endian host the octets backwards. -/
theorem addrBytes_send (order : ByteOrder) (sock : RawEgress) (pkt : List UInt8) (dst : Ipv4Addr)
    (n : Int) : (sock.send order pkt dst n).1.addr.addrBytes order =
      order.toNeBytes 4 (order.toBe 4 (order.fromNeBytes dst.octets)) := by
  have hlt : order.toBe 4 (order.fromNeBytes dst.octets) < 2 ^ 32 :=
    order.toBe_lt (order.fromNeBytes_lt dst.octets)
  simp only [send, SockaddrIn.addrBytes]
  rw [UInt32.toNat_ofNat_of_lt' hlt]

theorem addrBytes_send_iff {order : ByteOrder} {sock : RawEgress} {pkt : List UInt8}
    {dst : Ipv4Addr} {n : Int} :
    (sock.send order pkt dst n).1.addr.addrBytes order = dst.octets ↔
      order = .big ∨ dst.a = dst.d ∧ dst.b = dst.c := by
  rw [addrBytes_send, ← dst.length_octets, ByteOrder.toNeBytes_toBe_eq_iff]
  apply or_congr_right
  simp only [Ipv4Addr.octets, List.reverse_cons, List.reverse_nil, List.nil_append,
    List.cons_append, List.cons.injEq, and_true]
  constructor
  · rintro ⟨ha, hb, -, -⟩
    exact ⟨ha.symm, hb.symm⟩
  · rintro ⟨ha, hb⟩
    exact ⟨ha.symm, hb.symm, hb, ha⟩

end RawEgress

namespace DataPlane

/-- A sent packet still carries the address it was read with, and goes to a socket of its
interface with that address. -/
theorem sent_addressed {sockets : Sockets} {d t : DataPlane} {history : List DataPlaneEvent}
    (hrun : Run (step sockets) d history t) (hstart : d.thread = .waiting) {e : DataPlaneEvent}
    (he : e ∈ history) {iface : String} {out : List UInt8} {dst : Ipv4Addr} {accepted : Bool}
    (hsent : e.output = .sent iface out dst accepted) :
    IsIpv4 out ∧ dst = addrAt out 16 ∧ ∃ sock, sockets.egress.lookup iface = some sock := by
  have hok := threadOk_before hrun (by simp only [ThreadOk, hstart]) he
  have hstepped := stepped_of_step (hrun.step_of_mem he)
  rw [hsent] at hstepped
  generalize e.after = t' at hstepped
  generalize e.input = op at hstepped
  cases hstepped with
  | @sent p s _ _ _ _ ht hw =>
    have hcarries : Carries sockets p := by
      rw [ThreadOk, ht] at hok
      exact hok.1
    have hipv4 := hcarries.isIpv4.1
    obtain rfl := (Prod.mk.inj (Except.ok.inj (hw.symm.trans hcarries.rewrite_eq))).2
    have hkept : addrAt (rewritten .source p.buf.bytes p.egressIp) 16 = addrAt p.buf.bytes 16 :=
      addrAt_rewritten_other hipv4 (by omega) (by omega) (.inr le_rfl)
    exact ⟨isIpv4_rewritten hipv4, hcarries.dst_eq.trans hkept.symm, p.sock, hcarries.socket⟩

/-- Whatever is sent in a run, the socket address holds the packet's destination in its memory
order exactly on a big-endian host and for the addresses that read the same backwards. -/
theorem sent_destination_iff {sockets : Sockets} {d t : DataPlane}
    {history : List DataPlaneEvent} (hrun : Run (step sockets) d history t)
    (hstart : d.thread = .waiting) (order : ByteOrder) :
    ∀ e ∈ history, ∀ iface out dst accepted, e.output = .sent iface out dst accepted →
      ∃ sock, sockets.egress.lookup iface = some sock ∧ ∀ n,
        ((sock.send order out dst n).1.addr.addrBytes order = (out.drop 16).take 4 ↔
          order = .big ∨ byteAt out 16 = byteAt out 19 ∧ byteAt out 17 = byteAt out 18) := by
  intro e he iface out dst accepted hsent
  obtain ⟨hipv4, rfl, sock, hsock⟩ := sent_addressed hrun hstart he hsent
  refine ⟨sock, hsock, ?_⟩
  intro n
  rw [← octets_addrAt (show 16 + 4 ≤ out.length from hipv4.length)]
  exact RawEgress.addrBytes_send_iff

private def dnsBuffer : Buffer := ⟨splice hostPacket 16 [8, 8, 4, 4], by decide⟩

private def dnsSent : Outcome :=
  .sent "wlan0" (rewritten .source dnsBuffer.bytes ⟨192, 168, 31, 49⟩) ⟨8, 8, 4, 4⟩ true

private theorem exec_dns :
    (Run.exec (step uplinkSockets) (start (uplinksAggregator .default))
      [.read dnsBuffer, .register, .send true]).map (fun r => r.1.getLast?.map Event.output) =
      .ok (some dnsSent) := by decide +kernel

/-- A packet to 8.8.4.4 on a little-endian host. -/
theorem sent_destination_iff_dns :
    ∃ history t, Run (step uplinkSockets) (start (uplinksAggregator .default)) history t ∧
      (∃ e ∈ history, e.output = dnsSent) ∧
      ∀ e ∈ history, ∀ iface out dst accepted, e.output = .sent iface out dst accepted →
        ∃ sock, uplinkSockets.egress.lookup iface = some sock ∧ ∀ n,
          ((sock.send .little out dst n).1.addr.addrBytes .little = (out.drop 16).take 4 ↔
            ByteOrder.little = .big ∨ byteAt out 16 = byteAt out 19 ∧
              byteAt out 17 = byteAt out 18) := by
  obtain ⟨history, t, hrun, _, hlast⟩ := Run.exists_of_exec exec_dns
  obtain ⟨e, he, hout⟩ := Option.map_eq_some_iff.mp hlast
  exact ⟨history, t, hrun, ⟨e, List.mem_of_getLast? he, hout⟩,
    sent_destination_iff hrun rfl .little⟩

/-- It goes to 4.4.8.8. -/
theorem sent_elsewhere :
    ∃ history t, Run (step uplinkSockets) (start (uplinksAggregator .default)) history t ∧
      ∃ e ∈ history, ∃ out dst, e.output = .sent "wlan0" out dst true ∧
        (out.drop 16).take 4 = [8, 8, 4, 4] ∧
        ∀ sock ∈ uplinkSockets.egress.lookup "wlan0", ∀ n,
          (sock.send .little out dst n).1.addr.addrBytes .little = [4, 4, 8, 8] := by
  obtain ⟨history, t, hrun, _, hlast⟩ := Run.exists_of_exec exec_dns
  obtain ⟨e, he, hout⟩ := Option.map_eq_some_iff.mp hlast
  refine ⟨history, t, hrun, e, List.mem_of_getLast? he, _, _, hout, by decide +kernel, ?_⟩
  intro sock _ n
  rw [RawEgress.addrBytes_send]
  decide

end DataPlane

end Netmux
