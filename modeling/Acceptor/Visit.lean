import Acceptor.BoundedStack
import Acceptor.Table.Basic
import Acceptor.Text.Quoted

/-!
A visit is one traversal of a table. It records the states that it reads symbols in on a stack of
its own, which every accepting state clears before it is recorded: the stack holds the path since
the last accepting state.
-/

namespace Acceptor

structure Visit where
  stack : BoundedStack
  state : Nat
  halted : Bool := false
  consumed : Nat := 0

namespace Visit

def startMarker : Int := -1

def endOfInput : Symbol := "\x00"

def begin [Memory] (t : Table) : Except Fault Visit := do
  let stack ← BoundedStack.ofCapacity t.capacity t.strict
  let stack ← (stack.push startMarker).value
  return { stack, state := ← t.initial }

def move (v : Visit) (here : State) (c : Symbol) : Logged (Visit × Bool) :=
  match here.next? c with
  | none =>
      ⟨({ v with halted := true }, false),
        [⟨.automaton, .debug, s!"halt in {v.state} on {Text.quoted c}"⟩]⟩
  | some dest =>
      ⟨({ v with state := dest }, true),
        [⟨.automaton, .debug, s!"{v.state} -> {dest} on {Text.quoted c}"⟩]⟩

/-- Takes one symbol. The answer is whether the visit goes on; after a fault it stands where it
did, and has counted the symbol. -/
def step (t : Table) (v : Visit) (c : Symbol) : Logged (Visit × Except Fault Bool) :=
  if v.halted then ⟨(v, .ok false), []⟩
  else if c = endOfInput then ⟨({ v with halted := true }, .ok false), []⟩
  else
    let v := { v with consumed := v.consumed + 1 }
    match t.stateAt v.state with
    | .error e => ⟨(v, .error e), []⟩
    | .ok here =>
        let v := if here.accepting then { v with stack := v.stack.clear } else v
        match v.stack.push v.state with
        | ⟨.error e, log⟩ => ⟨(v, .error e), log⟩
        | ⟨.ok stack, log⟩ =>
            let moved := { v with stack }.move here c
            ⟨(moved.value.1, .ok moved.value.2), log ++ moved.log⟩

def feed (t : Table) (v : Visit) : List Symbol → Logged (Except Fault Visit)
  | [] => ⟨.ok v, []⟩
  | c :: cs =>
      match v.step t c with
      | ⟨(_, .error e), log⟩ => ⟨.error e, log⟩
      | ⟨(v, .ok false), log⟩ => ⟨.ok v, log⟩
      | ⟨(v, .ok true), log⟩ =>
          let rest := feed t v cs
          ⟨rest.value, log ++ rest.log⟩

def success (t : Table) (v : Visit) : Except Fault Bool := t.isFinal v.state

def path (v : Visit) : List Int := v.stack.toList

end Visit

def symbolsOf (s : String) : List Symbol := s.toList.map String.singleton

namespace Table

variable [Memory]

def run (t : Table) (feed : List Symbol) : Logged (Except Fault Visit) :=
  match Visit.begin t with
  | .error e => ⟨.error e, []⟩
  | .ok v => v.feed t feed

def accepts (t : Table) (feed : List Symbol) : Logged (Except Fault Bool) :=
  match t.run feed with
  | ⟨.error e, log⟩ => ⟨.error e, log⟩
  | ⟨.ok v, log⟩ => ⟨v.success t, log⟩

end Table

end Acceptor
