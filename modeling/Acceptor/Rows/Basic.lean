import Acceptor.Table.Dot
import Acceptor.Visit

/-!
The automaton as it is stored: a row of transitions and a row of flags, with states as any integers. A
table is such a pair of rows in which every state has a flag and no number is negative.
-/

namespace Acceptor

structure Rows where
  transition : Array (List (Predicate × Int)) := #[]
  accepting : Array Bool := #[]
  start : Int := 0
  capacity : Int := 100
  strict : Bool := false

namespace Rows

def setItem {α : Type} (row : Array α) (n : Int) (a : α) : Except Fault (Array α) :=
  (itemAt row n).map fun _ => row.setIfInBounds (fromEnd row.size n).toNat a

def size (r : Rows) : Nat := r.transition.size

def has (r : Rows) (s : Int) : Bool := 0 ≤ s && s < r.size

def reset (r : Rows) : Rows := { r with transition := #[], accepting := #[], start := 0 }

def addState (r : Rows) : Rows :=
  { r with transition := r.transition.push [], accepting := r.accepting.push false }

def markFinal (r : Rows) (s : Int) (final : Bool) : Except Fault Rows :=
  if r.has s then return { r with accepting := ← setItem r.accepting s final }
  else .error .notAState

def setStart (r : Rows) (s : Int) : Except Fault Rows :=
  if r.has s then .ok { r with start := s } else .error .notAState

def addEdge (r : Rows) (source : Int) (p : Predicate) (dest : Int) : Except Fault Rows :=
  if r.has source && r.has dest then
    return { r with
      transition := ← setItem r.transition source ((← itemAt r.transition source) ++ [(p, dest)]) }
  else .error .notAState

def addStates (r : Rows) (accepting start : Bool) : Nat → Except Fault Rows
  | 0 => .ok r
  | n + 1 => do
      let state := r.size
      let r ← r.addState.markFinal state accepting
      let r ← if start then r.setStart state else pure r
      r.addStates accepting false n

def initial (r : Rows) : Except Fault Int :=
  if r.transition.isEmpty then .error .noStates else .ok r.start

def advance (r : Rows) (s : Int) (c : Symbol) : Except Fault (Option Int) :=
  return ((← itemAt r.transition s).find? fun e => e.1.holds c).map Prod.snd

def isFinal (r : Rows) (s : Int) : Except Fault Bool := itemAt r.accepting s

def loadExample (r : Rows) : Except Fault Rows := do
  let r := r.reset.addState.addState.addState
  let r ← r.markFinal 0 true
  let r ← r.markFinal 1 true
  let r ← r.addEdge 2 (.charClass (.union [.literal "a", .literal "b"])) 1
  let r ← r.addEdge 1 (.charClass (.literal "c")) 0
  r.setStart 2

def edges (r : Rows) : List (Nat × Predicate × Int) :=
  r.transition.toList.zipIdx.flatMap fun (out, i) => out.map (i, ·)

def written (lines : List (Except Fault String)) : Written :=
  let lines := writable lines
  ⟨Text.unlines lines.1, lines.2⟩

def stateLine (final : Bool) : String := if final then "state --accepting" else "state"

def edgeLine : Nat × Predicate × Int → Except Fault String
  | (source, .charClass k, dest) => .ok s!"edge {source} {dest} {Text.quoteWord k.text}"
  | (source, .test .., dest) => .error (.unsavable source dest)

def script (r : Rows) : Written :=
  written <| [.ok "new"] ++
    ((List.range r.size).map fun (s : Nat) => (r.isFinal s).map stateLine) ++
    (if r.transition.isEmpty then [] else [.ok s!"start {r.start}"]) ++
    r.edges.map edgeLine

def dotState (s : Nat) (final : Bool) : Option String :=
  if final then some s!"\t{s} [shape = doublecircle];" else none

def dotEdge : Nat × Predicate × Int → String
  | (source, p, dest) =>
      let label := String.ofList (Table.dotLabel p.text.toList)
      s!"\t{source} -> {dest} [label = \"{label}\"];"

def dot (r : Rows) : Except Fault String := do
  let marked ← (List.range r.size).mapM fun (s : Nat) => (r.isFinal s).map (dotState s)
  return Text.unlines <|
    ["digraph automaton \x7b", "\trankdir=LR;", "\tnode [shape = circle];",
      "\t\"\" [shape = none];"] ++
    marked.filterMap id ++
    (if r.transition.isEmpty then [] else [s!"\t\"\" -> {r.start};"]) ++
    r.edges.map dotEdge ++
    ["\x7d"]

structure Visit where
  stack : BoundedStack
  state : Int
  halted : Bool := false
  consumed : Nat := 0

namespace Visit

def begin [Memory] (r : Rows) : Except Fault Visit := do
  let stack ← BoundedStack.ofCapacity r.capacity r.strict
  let stack ← (stack.push Acceptor.Visit.startMarker).value
  return { stack, state := ← r.initial }

def move (r : Rows) (v : Visit) (c : Symbol) : Logged (Visit × Except Fault Bool) :=
  match r.advance v.state c with
  | .error e => ⟨(v, .error e), []⟩
  | .ok none =>
      ⟨({ v with halted := true }, .ok false),
        [⟨.automaton, .debug, s!"halt in {v.state} on {Text.quoted c}"⟩]⟩
  | .ok (some dest) =>
      ⟨({ v with state := dest }, .ok true),
        [⟨.automaton, .debug, s!"{v.state} -> {dest} on {Text.quoted c}"⟩]⟩

def step (r : Rows) (v : Visit) (c : Symbol) : Logged (Visit × Except Fault Bool) :=
  if v.halted then ⟨(v, .ok false), []⟩
  else if c = Acceptor.Visit.endOfInput then ⟨({ v with halted := true }, .ok false), []⟩
  else
    let v := { v with consumed := v.consumed + 1 }
    match r.isFinal v.state with
    | .error e => ⟨(v, .error e), []⟩
    | .ok accepting =>
        let v := if accepting then { v with stack := v.stack.clear } else v
        match v.stack.push v.state with
        | ⟨.error e, log⟩ => ⟨(v, .error e), log⟩
        | ⟨.ok stack, log⟩ =>
            let moved := { v with stack }.move r c
            ⟨moved.value, log ++ moved.log⟩

def feed (r : Rows) (v : Visit) : List Symbol → Logged (Except Fault Visit)
  | [] => ⟨.ok v, []⟩
  | c :: cs =>
      match v.step r c with
      | ⟨(_, .error e), log⟩ => ⟨.error e, log⟩
      | ⟨(v, .ok false), log⟩ => ⟨.ok v, log⟩
      | ⟨(v, .ok true), log⟩ =>
          let rest := feed r v cs
          ⟨rest.value, log ++ rest.log⟩

def success (r : Rows) (v : Visit) : Except Fault Bool := r.isFinal v.state

def path (v : Visit) : List Int := v.stack.toList

end Visit

variable [Memory]

def run (r : Rows) (feed : List Symbol) : Logged (Except Fault Visit) :=
  match Visit.begin r with
  | .error e => ⟨.error e, []⟩
  | .ok v => v.feed r feed

def accepts (r : Rows) (feed : List Symbol) : Logged (Except Fault Bool) :=
  match r.run feed with
  | ⟨.error e, log⟩ => ⟨.error e, log⟩
  | ⟨.ok v, log⟩ => ⟨v.success r, log⟩

end Rows

end Acceptor
