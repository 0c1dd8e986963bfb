import HornMachine.Fault
import HornMachine.Toml.Document

/-!
This module contains the settings of a machine and how they are read from a document.
-/

namespace HornMachine

structure Config where
  /-- How deep a search for features may go before it is given up. -/
  maxFindallDepth : Nat := 8
deriving DecidableEq, Repr

namespace Config

/--
The settings in a document. Settings that it does not mention keep their defaults, and what is no
setting is ignored.
-/
def ofText (text : String) : Except Fault Config :=
  match Toml.document? text with
  | none => .error .badConfig
  | some entries =>
    match entries.get? "max_findall_depth" with
    | none => .ok {}
    | some (.integer (.ofNat n)) => .ok { maxFindallDepth := n }
    | some _ => .error .badConfig

end Config

end HornMachine
