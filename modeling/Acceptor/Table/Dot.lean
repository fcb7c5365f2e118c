import Acceptor.Table.Script

namespace Acceptor.Table

def dotLabel (cs : List Char) : List Char :=
  cs.flatMap fun c => if c = '\\' || c = '"' then ['\\', c] else [c]

def dotState : State × Nat → Option String
  | (s, i) => if s.accepting then some s!"\t{i} [shape = doublecircle];" else none

def dotEdge : Nat × Edge → String
  | (source, e) =>
      let label := String.ofList (dotLabel e.predicate.text.toList)
      s!"\t{source} -> {e.dest} [label = \"{label}\"];"

def dot (t : Table) : String :=
  Text.unlines <|
    ["digraph automaton \x7b", "\trankdir=LR;", "\tnode [shape = circle];",
      "\t\"\" [shape = none];"] ++
    t.states.toList.zipIdx.filterMap dotState ++
    (if t.states.isEmpty then [] else [s!"\t\"\" -> {t.start};"]) ++
    t.edges.map dotEdge ++
    ["\x7d"]

end Acceptor.Table
