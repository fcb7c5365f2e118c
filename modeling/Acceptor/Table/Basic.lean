import Acceptor.Fault

namespace Acceptor

/-- What an edge asks of a symbol: a character class, or any other test, which has a text only. -/
inductive Predicate
  | charClass (k : CharClass)
  | test (text : String) (holds : Symbol → Bool)

namespace Predicate

def holds : Predicate → Symbol → Bool
  | charClass k => k.accepts
  | test _ f => f

def text : Predicate → String
  | charClass k => k.text
  | test s _ => s

def digits (text : String) : Predicate :=
  test text fun c => c ≠ "" && c.toList.all Char.isDigit

def capitals (text : String) : Predicate :=
  test text fun c => c.toList.any Char.isUpper && !c.toList.any Char.isLower

end Predicate

/-- The place that a number stands for in a row: a negative one counts from the end. -/
def fromEnd (length : Nat) (n : Int) : Int := if n < 0 then n + length else n

def itemAt {α : Type} (row : Array α) (n : Int) : Except Fault α :=
  let place := fromEnd row.size n
  if place < 0 then .error (.outOfRange n)
  else match row[place.toNat]? with
    | some item => .ok item
    | none => .error (.outOfRange n)

structure Edge where
  predicate : Predicate
  dest : Nat

structure State where
  accepting : Bool := false
  edges : List Edge := []

def State.next? (s : State) (c : Symbol) : Option Nat :=
  (s.edges.find? fun e => e.predicate.holds c).map Edge.dest

/-- A deterministic automaton, and the stack that its visits get. States are numbered from 0 in the
order they were added. -/
structure Table where
  states : Array State := #[]
  start : Nat := 0
  capacity : Int := 100
  strict : Bool := false

namespace Table

def size (t : Table) : Nat := t.states.size

def has (t : Table) (s : Int) : Bool := 0 ≤ s && s < t.size

def reset (t : Table) : Table := { t with states := #[], start := 0 }

def addState (t : Table) : Table := { t with states := t.states.push {} }

def addStates (t : Table) (n : Nat) (accepting start : Bool) : Table :=
  { t with
    states := t.states ++ Array.replicate n { accepting }
    start := if start then t.size else t.start }

def markFinal (t : Table) (s : Int) (final : Bool) : Except Fault Table :=
  if t.has s then
    .ok { t with states := t.states.modify s.toNat fun st => { st with accepting := final } }
  else .error .notAState

def setStart (t : Table) (s : Int) : Except Fault Table :=
  if t.has s then .ok { t with start := s.toNat } else .error .notAState

def addEdge (t : Table) (source : Int) (p : Predicate) (dest : Int) : Except Fault Table :=
  if t.has source && t.has dest then
    .ok { t with
      states := t.states.modify source.toNat fun st =>
        { st with edges := st.edges ++ [⟨p, dest.toNat⟩] } }
  else .error .notAState

def initial (t : Table) : Except Fault Nat :=
  if t.states.isEmpty then .error .noStates else .ok t.start

def stateAt (t : Table) (s : Int) : Except Fault State := itemAt t.states s

def advance (t : Table) (s : Int) (c : Symbol) : Except Fault (Option Nat) :=
  return (← t.stateAt s).next? c

def isFinal (t : Table) (s : Int) : Except Fault Bool :=
  return (← t.stateAt s).accepting

def edges (t : Table) : List (Nat × Edge) :=
  t.states.toList.zipIdx.flatMap fun (st, i) => st.edges.map (i, ·)

def loadExample (t : Table) : Table :=
  { t with
    states := #[
      { accepting := true },
      { accepting := true, edges := [⟨.charClass (.literal "c"), 0⟩] },
      { edges := [⟨.charClass (.union [.literal "a", .literal "b"]), 1⟩] }]
    start := 2 }

end Table

end Acceptor
