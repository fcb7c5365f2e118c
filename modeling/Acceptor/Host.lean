import Acceptor.Fault
import Acceptor.Files.Disk

namespace Acceptor

class Memory where
  maxCells : Nat
  maxStates : Nat
  maxCells_lt : maxCells < 0x8000000000000000
  maxStates_lt : maxStates < 0x8000000000000000
  example_fits : 3 ≤ maxStates

structure Break where
  /-- How many characters have reached the file by then. -/
  arrived : Nat
  error : WriteError

class Host extends Memory where
  program : String
  /-- The home folder of a user. One's own user has no name here. -/
  home? : String → Option String
  noNul : ∀ user home, home? user = some home → '\x00' ∉ home.toList
  /-- What breaks off the writing of a text to an open file, if anything does. -/
  break? : Disk → Path → String → Option Break

/-- One's own home is the current folder, there are no other users, and every text is written. -/
@[reducible]
def Host.usual : Host where
  maxCells := 0x100000000
  maxStates := 0x1000000000000000
  maxCells_lt := by decide
  maxStates_lt := by decide
  example_fits := by decide
  program := "dfamatch"
  home? user := if user = "" then some "." else none
  noNul user home isHome := by
    split at isHome
    · obtain rfl := Option.some.inj isHome
      decide
    · cases isHome
  break? _ _ _ := none

end Acceptor
