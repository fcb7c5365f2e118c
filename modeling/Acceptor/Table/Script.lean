import Acceptor.Table.Basic
import Acceptor.Text.Lines
import Acceptor.Text.Words

namespace Acceptor

structure Written where
  text : String
  fault : Option Fault := none

def writable : List (Except Fault String) → List String × Option Fault
  | [] => ([], none)
  | .ok line :: rest =>
      let more := writable rest
      (line :: more.1, more.2)
  | .error f :: _ => ([], some f)

namespace Table

def stateLine (s : State) : String := if s.accepting then "state --accepting" else "state"

def edgeLine : Nat × Edge → Except Fault String
  | (source, ⟨.charClass k, dest⟩) => .ok s!"edge {source} {dest} {Text.quoteWord k.text}"
  | (source, ⟨.test .., dest⟩) => .error (.unsavable source dest)

def stateLines (t : Table) : List String :=
  "new" :: t.states.toList.map stateLine ++
    if t.states.isEmpty then [] else [s!"start {t.start}"]

def script (t : Table) : Written :=
  let edgeLines := writable (t.edges.map edgeLine)
  ⟨Text.unlines (t.stateLines ++ edgeLines.1), edgeLines.2⟩

end Table

end Acceptor
