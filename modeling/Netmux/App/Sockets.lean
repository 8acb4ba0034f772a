import Netmux.App.Descriptors
import Netmux.Lib.Ownership
import Mathlib.Data.Finset.Lattice.Fold
import Mathlib.Order.Lattice.Nat

/-!
# The sockets of the start-up

`start_data_plane` opens an egress and a capture socket for one interface after another. Here the
open descriptors are threaded through its loop, so that what is open at the end can be compared
with what the maps and the threads own.
-/

namespace Netmux

/-- What the kernel answers to either `open`, given the descriptors that are open. -/
structure Kernel where
  egress : (fds : Finset Nat) → String → EgressCalls fds
  capture : (fds : Finset Nat) → String → CaptureCalls fds

/-- The start-up between two interfaces. -/
structure Opening where
  built : Started
  fds : Finset Nat

/-- One iteration of the loop of `start_data_plane`, with the descriptors; an egress socket that is
replaced in its map is dropped, which closes it. -/
def openInterfaceOn (kernel : Kernel) (ipv4 : Table String Ipv4Addr) (acc : Opening)
    (c : CandidateIface) : Opening :=
  if !c.policy.enabled || !c.healthy then acc
  else
    match ipv4.lookup c.name with
    | none => acc
    | some ip =>
      let egress := RawEgress.openOn (kernel.egress acc.fds c.name) c.name
      match egress.outcome with
      | .ok (.ok sock) =>
        let old := (acc.built.sockets.egress.lookup c.name).map RawEgress.fd
        let fds := releasing egress.fds old
        let sockets : Sockets :=
          { egress := acc.built.sockets.egress.insert c.name sock
            ifaceIps := acc.built.sockets.ifaceIps.insert c.name ip }
        let capture := RawCapture.openOn (kernel.capture fds c.name) c.name
        match capture.outcome with
        | .ok (.ok cap) =>
          { built := { sockets := sockets, captures := acc.built.captures ++ [cap] }
            fds := capture.fds }
        | _ => { built := { acc.built with sockets := sockets }, fds := capture.fds }
      | _ => { acc with fds := egress.fds }

/-- `start_data_plane`, from the descriptors that are open before it. -/
def startDataPlaneOn (kernel : Kernel) (ifAddrs : Except Nat (List IfAddr))
    (candidates : List CandidateIface) (fds : Finset Nat) : Opening :=
  let ips := ifAddrs.toOption.getD []
  candidates.foldl (openInterfaceOn kernel (ipv4Of ips)) ⟨⟨⟨∅, ∅⟩, []⟩, fds⟩

/-- Whoever owns a socket: an entry of the egress map or a capture thread. -/
inductive SocketOwner where
  | egress (ifname : String)
  | capture (thread : Nat)
  deriving DecidableEq

/-- The descriptor of an owner. -/
def Started.fdOf (s : Started) : SocketOwner → Option Nat
  | .egress ifname => (s.sockets.egress.lookup ifname).map RawEgress.fd
  | .capture thread => s.captures[thread]?.map RawCapture.fd

/-! ## Ownership -/

theorem fdOf_empty : Started.fdOf ⟨⟨∅, ∅⟩, []⟩ = fun _ => none := by
  funext owner
  cases owner with
  | egress ifname => rfl
  | capture thread => rfl

/-- An egress socket goes into the maps. -/
def Started.keep (s : Started) (ifname : String) (sock : RawEgress) (ip : Ipv4Addr) : Started :=
  { s with sockets :=
    { egress := s.sockets.egress.insert ifname sock
      ifaceIps := s.sockets.ifaceIps.insert ifname ip } }

theorem fdOf_keep (s : Started) (ifname : String) (sock : RawEgress) (ip : Ipv4Addr) :
    (s.keep ifname sock ip).fdOf = Function.update s.fdOf (.egress ifname) (some sock.fd) := by
  funext owner
  cases owner with
  | capture thread =>
    rw [Function.update_of_ne (by simp)]
    rfl
  | egress other =>
    rw [Started.fdOf, Started.keep, Table.lookup_insert_eq]
    split
    · rename_i h
      rw [h, Function.update_self]
      rfl
    · rename_i h
      rw [Function.update_of_ne (by simpa using h)]
      rfl

/-- A capture thread is spawned. -/
def Started.watch (s : Started) (cap : RawCapture) : Started :=
  { s with captures := s.captures ++ [cap] }

theorem fdOf_watch (s : Started) (cap : RawCapture) :
    (s.watch cap).fdOf = Function.update s.fdOf (.capture s.captures.length) (some cap.fd) := by
  funext owner
  cases owner with
  | egress ifname =>
    rw [Function.update_of_ne (by simp)]
    rfl
  | capture thread =>
    rw [Started.fdOf, Started.watch]
    rcases Nat.lt_trichotomy thread s.captures.length with h | rfl | h
    · rw [Function.update_of_ne (by simpa using h.ne), List.getElem?_append_left h]
      rfl
    · rw [Function.update_self, List.getElem?_concat_length]
      rfl
    · rw [Function.update_of_ne (by simpa using h.ne'), Started.fdOf,
        List.getElem?_eq_none (by simp; omega), List.getElem?_eq_none h.le]

/-! ## The calls -/

/-- How a call for a name without a NUL byte ends: with the descriptors as they were, or with one
more, which its value owns. -/
inductive Ended.Clean {α : Type} (fdOf : α → Nat) (nameOf : α → String) (ifname : String)
    (fds : Finset Nat) (e : Ended α) : Prop
  | failed (error : NetmuxError) (houtcome : e.outcome = .ok (.error error)) (hfds : e.fds = fds)
  | opened (value : α) (houtcome : e.outcome = .ok (.ok value)) (hname : nameOf value = ifname)
      (hfresh : fdOf value ∉ fds) (hfds : e.fds = insert (fdOf value) fds)

theorem clean_openEgress {fds : Finset Nat} (calls : EgressCalls fds) {ifname : String}
    (hnul : 0 ∉ utf8 ifname) :
    (RawEgress.openOn calls ifname).Clean RawEgress.fd RawEgress.ifname ifname fds := by
  have haccounted := (accounted_openEgress_iff calls ifname).mpr (.inl hnul)
  have hends : (∃ error, (RawEgress.openOn calls ifname).outcome = .ok (.error error)) ∨
      ∃ fd, (RawEgress.openOn calls ifname).outcome = .ok (.ok ⟨fd, ifname⟩) := by
    rw [RawEgress.openOn]
    cases calls.socket with
    | error e => exact .inl ⟨_, rfl⟩
    | ok fd =>
      cases calls.hdrIncl with
      | error e => exact .inl ⟨_, rfl⟩
      | ok done =>
        rw [cString_eq_some hnul]
        cases calls.bindToDevice with
        | error e => exact .inl ⟨_, rfl⟩
        | ok bound => exact .inr ⟨fd, rfl⟩
  rcases hends with ⟨error, houtcome⟩ | ⟨fd, houtcome⟩
  · exact .failed error houtcome (haccounted.failed error houtcome)
  · obtain ⟨hfresh, hfds⟩ := haccounted.opened _ houtcome
    exact .opened _ houtcome rfl hfresh hfds

theorem clean_openCapture {fds : Finset Nat} (calls : CaptureCalls fds) {ifname : String}
    (hnul : 0 ∉ utf8 ifname) :
    (RawCapture.openOn calls ifname).Clean RawCapture.fd RawCapture.ifname ifname fds := by
  have haccounted := (accounted_openCapture_iff calls ifname).mpr (.inl hnul)
  have hends : (∃ error, (RawCapture.openOn calls ifname).outcome = .ok (.error error)) ∨
      ∃ fd, (RawCapture.openOn calls ifname).outcome = .ok (.ok ⟨fd, ifname⟩) := by
    rw [RawCapture.openOn]
    cases calls.socket with
    | error e => exact .inl ⟨_, rfl⟩
    | ok fd =>
      rw [cString_eq_some hnul]
      cases calls.ifNameToIndex with
      | error e => exact .inl ⟨_, rfl⟩
      | ok index =>
        cases calls.bind with
        | error e => exact .inl ⟨_, rfl⟩
        | ok bound => exact .inr ⟨fd, rfl⟩
  rcases hends with ⟨error, houtcome⟩ | ⟨fd, houtcome⟩
  · exact .failed error houtcome (haccounted.failed error houtcome)
  · obtain ⟨hfresh, hfds⟩ := haccounted.opened _ houtcome
    exact .opened _ houtcome rfl hfresh hfds

/-! ## The loop -/

/-- Everything an iteration can do: skip the interface, or keep a socket for it, with or without a
capture thread. -/
inductive Iterated (ipv4 : Table String Ipv4Addr) (acc : Opening) (c : CandidateIface) :
    Opening → Prop
  | skipped : Iterated ipv4 acc c acc
  | egress {ip : Ipv4Addr} {sock : RawEgress} (husable : c.usable = true)
      (hip : ipv4.lookup c.name = some ip) (hname : sock.ifname = c.name)
      (hfresh : sock.fd ∉ acc.fds) :
    Iterated ipv4 acc c
      { built := acc.built.keep c.name sock ip
        fds := releasing (insert sock.fd acc.fds) (acc.built.fdOf (.egress c.name)) }
  | capture {ip : Ipv4Addr} {sock : RawEgress} {cap : RawCapture} (husable : c.usable = true)
      (hip : ipv4.lookup c.name = some ip) (hname : sock.ifname = c.name)
      (hfresh : sock.fd ∉ acc.fds) (hcap : cap.ifname = c.name)
      (hfreshCap : cap.fd ∉
        releasing (insert sock.fd acc.fds) (acc.built.fdOf (.egress c.name))) :
    Iterated ipv4 acc c
      { built := (acc.built.keep c.name sock ip).watch cap
        fds := insert cap.fd
          (releasing (insert sock.fd acc.fds) (acc.built.fdOf (.egress c.name))) }

variable {kernel : Kernel} {ipv4 : Table String Ipv4Addr} {base : Finset Nat}

theorem iterated_openInterfaceOn (kernel : Kernel) (ipv4 : Table String Ipv4Addr) (acc : Opening)
    {c : CandidateIface} (hnul : 0 ∉ utf8 c.name) :
    Iterated ipv4 acc c (openInterfaceOn kernel ipv4 acc c) := by
  rw [openInterfaceOn]
  split
  · exact .skipped
  rename_i hoff
  have husable : c.usable = true := by
    rw [CandidateIface.usable]
    simpa using hoff
  cases hip : ipv4.lookup c.name with
  | none => exact .skipped
  | some ip =>
    dsimp only
    have hegress := clean_openEgress (kernel.egress acc.fds c.name) hnul
    generalize RawEgress.openOn (kernel.egress acc.fds c.name) c.name = egress at hegress
    obtain ⟨outcome, requests, fds⟩ := egress
    cases hegress with
    | failed error houtcome hfds =>
      obtain rfl : outcome = .ok (.error error) := houtcome
      obtain rfl : fds = acc.fds := hfds
      exact .skipped
    | opened sock houtcome hname hfresh hfds =>
      obtain rfl : outcome = .ok (.ok sock) := houtcome
      obtain rfl : fds = insert sock.fd acc.fds := hfds
      dsimp only
      generalize hreleased : releasing (insert sock.fd acc.fds)
        ((acc.built.sockets.egress.lookup c.name).map RawEgress.fd) = fds
      have hcapture := clean_openCapture (kernel.capture fds c.name) hnul
      generalize RawCapture.openOn (kernel.capture fds c.name) c.name = capture at hcapture
      obtain ⟨outcome, requests, fds'⟩ := capture
      subst hreleased
      cases hcapture with
      | failed error houtcome hfds =>
        obtain rfl : outcome = .ok (.error error) := houtcome
        obtain rfl := hfds
        exact .egress husable hip hname hfresh
      | opened cap houtcome hcap hfreshCap hfds =>
        obtain rfl : outcome = .ok (.ok cap) := houtcome
        obtain rfl := hfds
        exact .capture husable hip hname hfresh hcap hfreshCap

/-- Every descriptor beyond those of the base belongs to one socket that is kept. -/
def Opening.Owned (base : Finset Nat) (o : Opening) : Prop :=
  Netmux.Owned base o.built.fdOf o.fds

theorem Iterated.owned {acc acc' : Opening} {c : CandidateIface} (h : Iterated ipv4 acc c acc')
    (howned : acc.Owned base) : acc'.Owned base := by
  cases h with
  | skipped => exact howned
  | egress husable hip hname hfresh =>
    rw [Opening.Owned, fdOf_keep]
    exact howned.give _ hfresh
  | @capture ip sock cap husable hip hname hfresh hcap hfreshCap =>
    rw [Opening.Owned, fdOf_watch, fdOf_keep]
    have hgiven := (howned.give (.egress c.name) hfresh).give
      (.capture acc.built.captures.length) hfreshCap
    have hnone : Function.update acc.built.fdOf (.egress c.name) (some sock.fd)
        (.capture acc.built.captures.length) = none := by
      rw [Function.update_of_ne (by simp), Started.fdOf, List.getElem?_eq_none le_rfl]
      rfl
    rw [hnone] at hgiven
    exact hgiven

/-- The maps and the capture threads fit together. -/
structure Started.Wired (ipv4 : Table String Ipv4Addr) (s : Started) : Prop where
  /-- The socket of an interface is bound to it. -/
  bound : ∀ name sock, s.sockets.egress.lookup name = some sock → sock.ifname = name
  /-- An interface has an address to send from exactly when it has a socket. -/
  paired : ∀ name, (s.sockets.ifaceIps.lookup name).isSome = (s.sockets.egress.lookup name).isSome
  address : ∀ name ip, s.sockets.ifaceIps.lookup name = some ip → ipv4.lookup name = some ip
  /-- Replies are captured only on interfaces with a socket. -/
  watched : ∀ cap ∈ s.captures, (s.sockets.egress.lookup cap.ifname).isSome = true

theorem wired_empty (ipv4 : Table String Ipv4Addr) : Started.Wired ipv4 ⟨⟨∅, ∅⟩, []⟩ :=
  ⟨by simp, by simp, by simp, by simp⟩

theorem Started.Wired.keep {s : Started} (h : s.Wired ipv4) {ifname : String} {sock : RawEgress}
    {ip : Ipv4Addr} (hip : ipv4.lookup ifname = some ip) (hname : sock.ifname = ifname) :
    (s.keep ifname sock ip).Wired ipv4 := by
  refine ⟨?_, ?_, ?_, ?_⟩
  · intro name kept hkept
    rw [Started.keep, Table.lookup_insert_eq] at hkept
    split at hkept
    · rename_i heq
      rw [heq, ← Option.some.inj hkept, hname]
    · exact h.bound name kept hkept
  · intro name
    rw [Started.keep, Table.lookup_insert_eq, Table.lookup_insert_eq]
    split
    · rfl
    · exact h.paired name
  · intro name addr haddr
    rw [Started.keep, Table.lookup_insert_eq] at haddr
    split at haddr
    · rename_i heq
      rw [heq, ← haddr, hip]
    · exact h.address name addr haddr
  · intro cap hcap
    rw [Started.keep, Table.lookup_insert_eq]
    split
    · rfl
    · exact h.watched cap hcap

theorem Iterated.wired {acc acc' : Opening} {c : CandidateIface} (h : Iterated ipv4 acc c acc')
    (hwired : acc.built.Wired ipv4) : acc'.built.Wired ipv4 := by
  cases h with
  | skipped => exact hwired
  | egress husable hip hname hfresh => exact hwired.keep hip hname
  | @capture ip sock cap husable hip hname hfresh hcap hfreshCap =>
    obtain ⟨hbound, hpaired, haddress, hwatched⟩ := hwired.keep hip hname
    refine ⟨hbound, hpaired, haddress, ?_⟩
    intro other hother
    rcases List.mem_append.mp hother with hother | hother
    · exact hwatched other hother
    · rw [List.mem_singleton.mp hother, hcap]
      change ((acc.built.keep c.name sock ip).sockets.egress.lookup c.name).isSome = true
      rw [Started.keep, Table.lookup_insert_eq, if_pos rfl]
      rfl

/-- What every iteration keeps, the loop keeps. -/
theorem foldl_openInterfaceOn {I : Opening → Prop} {candidates : List CandidateIface}
    (hstep : ∀ {acc acc' : Opening}, ∀ c ∈ candidates, Iterated ipv4 acc c acc' → I acc → I acc')
    (hnul : ∀ c ∈ candidates, 0 ∉ utf8 c.name) {acc : Opening} (h : I acc) :
    I (candidates.foldl (openInterfaceOn kernel ipv4) acc) := by
  induction candidates generalizing acc with
  | nil => exact h
  | cons c rest ih =>
    rw [List.forall_mem_cons] at hnul
    have hfirst := hstep c List.mem_cons_self (iterated_openInterfaceOn kernel ipv4 acc hnul.1) h
    exact ih (fun d hd => hstep d (List.mem_cons_of_mem c hd)) hnul.2 hfirst

/-! ## The start-up without descriptors -/

theorem owned_startDataPlaneOn (kernel : Kernel) (ifAddrs : Except Nat (List IfAddr))
    {candidates : List CandidateIface} (hnul : ∀ c ∈ candidates, 0 ∉ utf8 c.name)
    (fds : Finset Nat) : (startDataPlaneOn kernel ifAddrs candidates fds).Owned fds := by
  refine foldl_openInterfaceOn (fun _ _ h => h.owned) hnul ?_
  rw [Opening.Owned, fdOf_empty]
  exact Owned.unowned fds

theorem wired_startDataPlaneOn (kernel : Kernel) (ifAddrs : Except Nat (List IfAddr))
    {candidates : List CandidateIface} (hnul : ∀ c ∈ candidates, 0 ∉ utf8 c.name)
    (fds : Finset Nat) : (startDataPlaneOn kernel ifAddrs candidates fds).built.Wired
      (ipv4Of (ifAddrs.toOption.getD [])) :=
  foldl_openInterfaceOn (I := fun o => o.built.Wired _) (fun _ _ h => h.wired) hnul
    (wired_empty _)

/-- Whatever the kernel answers, behind the start-up each descriptor was open before or belongs to
exactly one egress socket or capture thread, and the maps and the threads fit together. -/
theorem sockets_of_startUp (kernel : Kernel) (ifAddrs : Except Nat (List IfAddr))
    {candidates : List CandidateIface} (hnul : ∀ c ∈ candidates, 0 ∉ utf8 c.name)
    (fds : Finset Nat) :
    (startDataPlaneOn kernel ifAddrs candidates fds).Owned fds ∧
      (startDataPlaneOn kernel ifAddrs candidates fds).built.Wired
        (ipv4Of (ifAddrs.toOption.getD [])) :=
  ⟨owned_startDataPlaneOn kernel ifAddrs hnul fds, wired_startDataPlaneOn kernel ifAddrs hnul fds⟩

/-- A descriptor above those that are open. -/
def freshFd (fds : Finset Nat) : {fd : Nat // fd ∉ fds} :=
  ⟨fds.sup id + 1, fun h => Nat.not_succ_le_self _ (Finset.le_sup (f := id) h)⟩

/-- A kernel that opens every socket. -/
def agreeing : Kernel :=
  { egress := fun fds _ => ⟨.ok (freshFd fds), .ok (), .ok (), .ok ()⟩
    capture := fun fds _ => ⟨.ok (freshFd fds), .ok ⟨2, by decide⟩, .ok (), .ok ()⟩ }

/-- The addresses of the two uplinks. -/
def uplinkAddrs : Except Nat (List IfAddr) :=
  .ok [⟨"eth0", .v4 ⟨10, 0, 0, 5⟩⟩, ⟨"wlan0", .v4 ⟨192, 168, 31, 49⟩⟩]

/-- Two uplinks behind three standard streams and the TUN. -/
theorem sockets_of_startUp_uplinks :
    ∃ o, o = startDataPlaneOn agreeing uplinkAddrs (uplinksAggregator .default).candidates
        {0, 1, 2, 3} ∧
      o.fds = {0, 1, 2, 3, 4, 5, 6, 7} ∧ o.Owned {0, 1, 2, 3} ∧
      o.built.Wired (ipv4Of (uplinkAddrs.toOption.getD [])) := by
  have hnul : ∀ c ∈ (uplinksAggregator .default).candidates, 0 ∉ utf8 c.name := by decide +kernel
  obtain ⟨howned, hwired⟩ := sockets_of_startUp agreeing uplinkAddrs hnul {0, 1, 2, 3}
  exact ⟨_, rfl, by decide +kernel, howned, hwired⟩

end Netmux
