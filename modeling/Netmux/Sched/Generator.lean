import Netmux.Packet.Parse

/-!
# The traffic simulator

The simulation mode routes the packets of a small generator: one congruential state per slot,
visited in turn, and a TCP header filled from the state just advanced. Every packet it emits
is accepted by the parser.
-/

namespace Netmux

/-- A small synthetic flow generator; its rate only enters the number of packets of a tick. -/
structure PcapGenerator where
  tick : UInt64
  seeds : Vector UInt32 8
  deriving DecidableEq

namespace PcapGenerator

/-- `PcapGenerator::default()`. -/
def default : PcapGenerator := ⟨0, #v[7, 13, 29, 41, 53, 67, 79, 97]⟩

/-- The 24 bytes that a packet takes from the generator state. -/
def header (rnd : UInt32) : List UInt8 :=
  ([0x45, 0, 0, 0, 0, 0, 0, 0, 0, 6, 0, 0] : List UInt8) ++
    [(rnd >>> 16).toUInt8, (rnd >>> 8).toUInt8, 1, (rnd >>> 24).toUInt8] ++
    [8, 8, 4 + (rnd % 4).toUInt8, 8] ++ toBe ((rnd % 60000).toUInt16 + 1024) ++ toBe 443

@[simp] theorem length_header (rnd : UInt32) : (header rnd).length = 24 := rfl

/-- Build a realistic-looking IP/TCP packet of the given length, at least 40. -/
def nextPacket (g : PcapGenerator) (len : Nat) : List UInt8 × PcapGenerator :=
  let tick := g.tick + 1
  let slot : Fin 8 := Fin.ofNat 8 tick.toNat
  let rnd := g.seeds[slot] * 1664525 + 1013904223
  let total := max 40 len
  (header rnd ++ List.replicate (total - 24) 0, { tick := tick, seeds := g.seeds.set slot rnd })

theorem length_nextPacket (g : PcapGenerator) (len : Nat) :
    (g.nextPacket len).1.length = max 40 len := by
  rw [nextPacket, List.length_append, List.length_replicate, length_header]
  omega

theorem first_nextPacket (g : PcapGenerator) (len : Nat) :
    byteAt (g.nextPacket len).1 0 = 0x45 := rfl

theorem headerLen_nextPacket (g : PcapGenerator) (len : Nat) :
    headerLen (g.nextPacket len).1 = 20 := by
  rw [headerLen, first_nextPacket]
  rfl

/-- Every generated packet is a well-formed IPv4 packet. -/
theorem isIpv4_nextPacket (g : PcapGenerator) (len : Nat) : IsIpv4 (g.nextPacket len).1 := by
  have hlen := g.length_nextPacket len
  have hihl := g.headerLen_nextPacket len
  refine ⟨?_, ?_, ?_, ?_⟩
  · rw [first_nextPacket]
    rfl
  · omega
  · omega
  · omega

end PcapGenerator

end Netmux
