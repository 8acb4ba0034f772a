import Netmux.App.Atomicity
import Netmux.App.Sockets
import Netmux.App.Tuning
import Netmux.Sched.LiveUplink

/-!
# Opening the application

`NetMuxApp::new` creates the device when the arguments ask for it and starts the data plane behind
it; without the flag or without the device the application plays the simulation. What the system
answers is a parameter. Behind a tunnel that opened, a packet leaves through the socket of an
uplink and never through the device it was read from, however the threads interleave.
-/

namespace Netmux

/-- What the system contributes while the application opens. -/
structure System where
  byteOrder : ByteOrder
  createTun : (fds : Finset Nat) → CreateCalls fds
  setUpTun : (fds : Finset Nat) → SetUpCalls fds
  kernel : Kernel
  ifAddrs : Except Nat (List IfAddr)
  order : WalkOrder (Σ _ : String, InterfacePolicy)
  clock : Nat
  listed : ReadDir
  errorText : Nat → String

/-- An application that is open; in tunnelling mode, its device and its data plane. -/
structure Booted where
  app : NetMuxApp
  banner : Option String
  tunnel : Option (Tun × Started)
  fds : Finset Nat

/-- The name that is asked for. -/
def tunName : String := "netmux0"

/-- What the kernel promises: it assigns a name without a pattern as it is asked for, and no name
of a file contains a NUL byte. -/
structure System.Sane (sys : System) : Prop where
  assigned : ∀ fds field, (sys.createTun fds).tunSetIff = .ok field →
    field.val = utf8 tunName ++ List.replicate (16 - (utf8 tunName).length) 0
  names : ∀ i ∈ enumerated sys.listed, 0 ∉ utf8 i.name

/-- Whether the device can be had. -/
def System.Grants (sys : System) (fds : Finset Nat) : Prop :=
  (∃ file, (sys.createTun fds).openTun = .ok file) ∧
    ∃ field, (sys.createTun fds).tunSetIff = .ok field

variable {sys : System} {args : List String} {fds : Finset Nat}

/-! ## The device -/

theorem tunName_plain : 0 ∉ utf8 tunName ∧ (utf8 tunName).length ≤ 15 := by decide +kernel

/-- The device has the name that was asked for, and a descriptor of its own. -/
theorem System.Sane.create (hsane : sys.Sane) (hgrants : sys.Grants fds) :
    ∃ file : {fd : Nat // fd ∉ fds},
      (Tun.create sys.byteOrder (sys.createTun fds) tunName).outcome =
        .ok (.ok ⟨file.val, tunName⟩) ∧
      (Tun.create sys.byteOrder (sys.createTun fds) tunName).fds = insert file.val fds := by
  obtain ⟨⟨file, hopen⟩, field, hset⟩ := hgrants
  have houtcome : (Tun.create sys.byteOrder (sys.createTun fds) tunName).outcome =
      .ok (.ok ⟨file.val, tunName⟩) :=
    Tun.name_create _ tunName_plain.1 tunName_plain.2 hopen hset (hsane.assigned fds field hset)
  have haccounted := (accounted_create sys.byteOrder (sys.createTun fds) tunName).1
  exact ⟨file, houtcome, (haccounted.opened _ houtcome).2⟩

/-- The first refresh and the configuration it reads. -/
def System.firstRefresh (sys : System) : Refresh := ⟨sys.listed, .default⟩

/-- A packet leaves through the socket of an uplink, from the address that the host has there, and
not into the device. -/
structure LeavesBy (sys : System) (fds : Finset Nat) (tun : Tun) (s : Started) (iface : String)
    (out : List UInt8) : Prop where
  uplink : ∃ i, LiveUplink sys.firstRefresh iface i
  outside : iface ≠ tun.name
  source : (ipv4Of (sys.ifAddrs.toOption.getD [])).lookup iface = some (addrAt out 12)
  socket : ∃ sock, s.sockets.egress.lookup iface = some sock ∧ sock.ifname = iface ∧
    sock.fd ≠ tun.file ∧ sock.fd ∉ fds

/-- A tunnel that opened, with all its runs. -/
structure Tunnelled (sys : System) (fds : Finset Nat) (b : Booted) (tun : Tun) (s : Started) :
    Prop where
  name : tun.name = tunName
  file : tun.file ∉ fds
  /-- It started on what the calls for its sockets returned. -/
  answers : ∃ openEgress openCapture,
    s = startDataPlane sys.ifAddrs openEgress openCapture b.app.aggregator.candidates
  owned : (⟨s, b.fds⟩ : Opening).Owned (insert tun.file fds)
  wired : s.Wired (ipv4Of (sys.ifAddrs.toOption.getD []))
  /-- Replies are not captured on the device either. -/
  watched : ∀ cap ∈ s.captures, (∃ i, LiveUplink sys.firstRefresh cap.ifname i) ∧
    cap.ifname ≠ tun.name
  leaves : ∀ clock history t,
    Run (Threads.step s.sockets) (Threads.start s b.app.aggregator clock) history t →
    ∀ e ∈ history, ∀ iface out dst accepted, e.output = .did (.sent iface out dst accepted) →
      LeavesBy sys fds tun s iface out

/-- An application that is open. -/
structure Booted.Ready (sys : System) (args : List String) (fds : Finset Nat) (b : Booted) :
    Prop where
  mode : b.app.aggregator.mode = .tunnelling ↔ "--tun" ∈ args ∧ sys.Grants fds
  tunnel : b.tunnel.isSome = true ↔ "--tun" ∈ args ∧ sys.Grants fds
  banner : b.banner.isSome = true ↔ ¬ ("--tun" ∈ args ∧ sys.Grants fds)
  /-- The simulation leaves nothing open. -/
  closed : b.tunnel = none → b.fds = fds
  tunnelled : ∀ tun s, b.tunnel = some (tun, s) → Tunnelled sys fds b tun s
  dependable : ∀ history t, Run NetMuxApp.step b.app history t → t.Dependable

end Netmux
