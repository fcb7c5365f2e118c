import Acceptor.Table.Dot
import Acceptor.Visit

namespace Acceptor

structure Bench where
  table : Table
  visits : Array Visit := #[]

namespace Bench

inductive Call
  | addState
  | markFinal (s : Int) (final : Bool)
  | setStart (s : Int)
  | addEdge (source : Int) (p : Predicate) (dest : Int)
  | setCapacity (capacity : Int)
  | setStrict (strict : Bool)
  | reset
  | loadExample
  | size
  | has (s : Int)
  | initial
  | advance (s : Int) (c : Symbol)
  | isFinal (s : Int)
  | accepts (feed : List Symbol)
  | run (feed : List Symbol)
  | begin
  | step (visit : Int) (c : Symbol)
  | success (visit : Int)
  | inspect (visit : Int)
  | script
  | dot
  | dump

inductive Answer (T V : Type)
  | none
  | number (n : Int)
  | flag (b : Bool)
  | text (s : String)
  | written (w : Written)
  | table (t : T)
  | visit (v : V)
  | finished (v : V) (success : Bool)

abbrev Outcome := Logged (Bench × Except Fault (Answer Table Visit))

def answer (b : Bench) (a : Answer Table Visit) : Outcome := ⟨(b, .ok a), []⟩

def fail (b : Bench) (e : Fault) : Outcome := ⟨(b, .error e), []⟩

def ask (b : Bench) (a : Except Fault (Answer Table Visit)) : Outcome := ⟨(b, a), []⟩

def change (b : Bench) : Except Fault Table → Outcome
  | .ok table => { b with table }.answer .none
  | .error e => b.fail e

def visitAt (b : Bench) (i : Int) : Except Fault (Nat × Visit) := do
  return ((fromEnd b.visits.size i).toNat, ← itemAt b.visits i)

def perform [Memory] (b : Bench) : Call → Outcome
  | .addState => { b with table := b.table.addState }.answer (.number b.table.size)
  | .markFinal s final => b.change (b.table.markFinal s final)
  | .setStart s => b.change (b.table.setStart s)
  | .addEdge source p dest => b.change (b.table.addEdge source p dest)
  | .setCapacity capacity => { b with table := { b.table with capacity } }.answer .none
  | .setStrict strict => { b with table := { b.table with strict } }.answer .none
  | .reset => { b with table := b.table.reset }.answer .none
  | .loadExample => { b with table := b.table.loadExample }.answer .none
  | .size => b.answer (.number b.table.size)
  | .has s => b.answer (.flag (b.table.has s))
  | .initial => b.ask do return .number (← b.table.initial)
  | .advance s c => b.ask do
      match ← b.table.advance s c with
      | some dest => return .number dest
      | .none => return .none
  | .isFinal s => b.ask do return .flag (← b.table.isFinal s)
  | .accepts feed =>
      let r := b.table.accepts feed
      ⟨(b, r.value.map .flag), r.log⟩
  | .run feed =>
      let r := b.table.run feed
      ⟨(b, do let v ← r.value; return .finished v (← v.success b.table)), r.log⟩
  | .begin =>
      match Visit.begin b.table with
      | .ok v => { b with visits := b.visits.push v }.answer (.number b.visits.size)
      | .error e => b.fail e
  | .step i c =>
      match b.visitAt i with
      | .error e => b.fail e
      | .ok (i, v) =>
          let r := v.step b.table c
          ⟨({ b with visits := b.visits.setIfInBounds i r.value.1 }, r.value.2.map .flag), r.log⟩
  | .success i => b.ask do return .flag (← (← b.visitAt i).2.success b.table)
  | .inspect i => b.ask do return .visit (← b.visitAt i).2
  | .script => b.answer (.written b.table.script)
  | .dot => b.answer (.text b.table.dot)
  | .dump => b.answer (.table b.table)

end Bench

end Acceptor
