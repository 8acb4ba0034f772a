import Netmux.Error
import Netmux.Host.Sysfs
import Netmux.Lib.Sort
import Mathlib.Data.String.Basic

/-!
# Network interface discovery

An enumeration reads every entry of `/sys/class/net`, classifies it by its name and sorts
the result by name.
-/

namespace Netmux

/-- Coarse classification of interfaces. -/
inductive InterfaceKind where
  | ethernet
  | wifi
  | cellular
  | loopback
  | virtual
  | other
  deriving DecidableEq, Repr

/-- A logical network interface discovered on the host. -/
structure Interface where
  name : String
  displayName : String
  mac : Option String
  isUp : Bool
  carrier : Bool
  kind : InterfaceKind
  rxBytes : UInt64
  txBytes : UInt64
  deriving DecidableEq, Repr

/-- `str::starts_with`. -/
def startsWith (name start : String) : Bool := start.toList.isPrefixOf name.toList

/-- Classification by ordered tests on the start of the name. -/
def classify (name : String) (_operstate : String) : InterfaceKind :=
  if startsWith name "lo" then .loopback
  else if startsWith name "wl" || startsWith name "wlan" || startsWith name "wifi" then .wifi
  else if startsWith name "wwan" || startsWith name "rmnet" || startsWith name "usb" ||
    startsWith name "eth-usb" then .cellular
  else if startsWith name "en" || startsWith name "eth" || startsWith name "em" then .ethernet
  else if startsWith name "virbr" || startsWith name "br" || startsWith name "docker" ||
    startsWith name "tun" || startsWith name "tap" || startsWith name "veth" ||
    startsWith name "bond" || startsWith name "netmux" || startsWith name "vpn" ||
    startsWith name "utun" || startsWith name "tailscale" then .virtual
  -- every operational state takes this branch
  else if startsWith name "lo" then .loopback
  else .other

/-- The hexadecimal `flags` file; unreadable flags count as zero. -/
def readFlags (file : Option String) : UInt64 :=
  (file.bind fun s => fromStrRadix 16 (trimHexPrefix (trim s))).getD 0

/-- The link address, unless it is empty or all zero. -/
def readMac (file : Option String) : Option String :=
  (file.map fun s => String.ofList (trim s)).filter fun s => s != "" && s != "00:00:00:00:00:00"

/-- One iteration of the loop of `enumerate`. -/
def readInterface (entry : SysEntry) : Option Interface :=
  entry.name.map fun name =>
    let operstate := (entry.operstate.map fun s => String.ofList (trim s)).getD "unknown"
    { name := name
      displayName := name
      mac := readMac entry.address
      isUp := readFlags entry.flags &&& 1 != 0
      carrier := readBool entry.carrier
      kind := classify name operstate
      rxBytes := readU64 entry.rxBytes
      txBytes := readU64 entry.txBytes }

/-- Enumerate all interfaces by scanning `/sys/class/net`. -/
def enumerate (dir : ReadDir) : Except NetmuxError (List Interface) :=
  match dir with
  | .error e => .error (.io "reading /sys/class/net" e)
  | .ok d => .ok (sortByKey Interface.name (d.entries.filterMap readInterface))

/-- `enumerate().unwrap_or_default()`. -/
def enumerated (dir : ReadDir) : List Interface := ((enumerate dir).toOption).getD []

private theorem map_name_readInterface (entries : List SysEntry) :
    (entries.filterMap readInterface).map Interface.name = entries.filterMap SysEntry.name := by
  rw [List.map_filterMap]
  congr 1
  funext entry
  cases hname : entry.name with
  | none => simp [readInterface, hname]
  | some name => simp [readInterface, hname]

/-- An enumeration is sorted by name. -/
theorem pairwise_enumerated (dir : ReadDir) :
    (enumerated dir).Pairwise fun i j => i.name ≤ j.name := by
  cases dir with
  | error e => exact List.Pairwise.nil
  | ok d => exact pairwise_sortByKey Interface.name _

/-- The names of an enumeration are distinct. -/
theorem nodup_enumerated (dir : ReadDir) : ((enumerated dir).map Interface.name).Nodup := by
  cases dir with
  | error e => exact List.nodup_nil
  | ok d =>
    have hperm := (perm_sortByKey Interface.name (d.entries.filterMap readInterface)).map
      Interface.name
    rw [map_name_readInterface] at hperm
    exact hperm.nodup_iff.mpr d.nodup

/-- An enumeration has fewer than 2^31 interfaces. -/
theorem length_enumerated (dir : ReadDir) : (enumerated dir).length < 2 ^ 31 := by
  cases dir with
  | error e => exact Nat.two_pow_pos 31
  | ok d =>
    have hle := List.length_filterMap_le readInterface d.entries
    have hsort := length_sortByKey Interface.name (d.entries.filterMap readInterface)
    have hfew := d.few
    simp only [enumerated, enumerate, Except.toOption, Option.getD_some]
    omega

/-- The name starts that are classified as virtual devices. -/
def virtualStarts : List String :=
  ["virbr", "br", "docker", "tun", "tap", "veth", "bond", "netmux", "vpn", "utun", "tailscale"]

/-- The name starts tested before those. -/
def physicalStarts : List String :=
  ["lo", "wl", "wlan", "wifi", "wwan", "rmnet", "usb", "eth-usb", "en", "eth", "em"]

private theorem not_startsWith_of_virtual {name start early : String}
    (hstart : start ∈ virtualStarts) (hearly : early ∈ physicalStarts)
    (h : startsWith name start = true) : startsWith name early = false := by
  cases he : startsWith name early with
  | false => rfl
  | true =>
    have hs := List.isPrefixOf_iff_prefix.mp h
    have hs' := List.isPrefixOf_iff_prefix.mp he
    have hapart : ∀ s ∈ virtualStarts, ∀ e ∈ physicalStarts,
        ¬ s.toList <+: e.toList ∧ ¬ e.toList <+: s.toList := by decide
    obtain ⟨hleft, hright⟩ := hapart start hstart early hearly
    rcases List.prefix_or_prefix_of_prefix hs hs' with hp | hp
    · exact absurd hp hleft
    · exact absurd hp hright

/-- No earlier test shadows a virtual device name. -/
theorem classify_virtual {name start : String} (hstart : start ∈ virtualStarts)
    (h : startsWith name start = true) (operstate : String) :
    classify name operstate = .virtual := by
  have hearly := fun early (he : early ∈ physicalStarts) => not_startsWith_of_virtual hstart he h
  simp only [physicalStarts, List.forall_mem_cons] at hearly
  obtain ⟨hlo, hwl, hwlan, hwifi, hwwan, hrmnet, husb, hethusb, hen, heth, hem, -⟩ := hearly
  have hvirtual : (startsWith name "virbr" || startsWith name "br" || startsWith name "docker" ||
      startsWith name "tun" || startsWith name "tap" || startsWith name "veth" ||
      startsWith name "bond" || startsWith name "netmux" || startsWith name "vpn" ||
      startsWith name "utun" || startsWith name "tailscale") = true := by
    simp only [Bool.or_eq_true]
    simp only [virtualStarts, List.mem_cons, List.not_mem_nil, or_false] at hstart
    rcases hstart with rfl | rfl | rfl | rfl | rfl | rfl | rfl | rfl | rfl | rfl | rfl <;>
      simp only [h, true_or, or_true]
  simp only [classify, hlo, hwl, hwlan, hwifi, hwwan, hrmnet, husb, hethusb, hen, heth, hem,
    hvirtual, Bool.or_self, Bool.false_eq_true, if_false, if_true]

end Netmux
