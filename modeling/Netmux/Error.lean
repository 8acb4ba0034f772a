/-!
# Errors of the netmux core
-/

namespace Netmux

/-- Aggregate error type for the netmux core library; an OS error is its number. -/
inductive NetmuxError where
  | unsupported (what : String)
  | permission (msg : String)
  | io (context : String) (source : Nat)
  | config (msg : String)
  | notFound (what : String)
  | internal (msg : String)
  | persist (msg : String)
  deriving DecidableEq, Repr

end Netmux
