import Acceptor.Bench
import Acceptor.Rows.Basic

namespace Acceptor.Rows

structure Bench where
  rows : Rows
  visits : Array Visit := #[]

namespace Bench

abbrev Answer := Acceptor.Bench.Answer Rows Visit

abbrev Outcome := Logged (Bench × Except Fault Answer)

def answer (b : Bench) (a : Answer) : Outcome := ⟨(b, .ok a), []⟩

def fail (b : Bench) (e : Fault) : Outcome := ⟨(b, .error e), []⟩

def ask (b : Bench) (a : Except Fault Answer) : Outcome := ⟨(b, a), []⟩

def change (b : Bench) : Except Fault Rows → Outcome
  | .ok rows => { b with rows }.answer .none
  | .error e => b.fail e

def visitAt (b : Bench) (i : Int) : Except Fault (Nat × Visit) := do
  return ((fromEnd b.visits.size i).toNat, ← itemAt b.visits i)

def perform [Memory] (b : Bench) : Acceptor.Bench.Call → Outcome
  | .addState => { b with rows := b.rows.addState }.answer (.number b.rows.size)
  | .markFinal s final => b.change (b.rows.markFinal s final)
  | .setStart s => b.change (b.rows.setStart s)
  | .addEdge source p dest => b.change (b.rows.addEdge source p dest)
  | .setCapacity capacity => { b with rows := { b.rows with capacity } }.answer .none
  | .setStrict strict => { b with rows := { b.rows with strict } }.answer .none
  | .reset => { b with rows := b.rows.reset }.answer .none
  | .loadExample => b.change b.rows.loadExample
  | .size => b.answer (.number b.rows.size)
  | .has s => b.answer (.flag (b.rows.has s))
  | .initial => b.ask do return .number (← b.rows.initial)
  | .advance s c => b.ask do
      match ← b.rows.advance s c with
      | some dest => return .number dest
      | .none => return .none
  | .isFinal s => b.ask do return .flag (← b.rows.isFinal s)
  | .accepts feed =>
      let r := b.rows.accepts feed
      ⟨(b, r.value.map .flag), r.log⟩
  | .run feed =>
      let r := b.rows.run feed
      ⟨(b, do let v ← r.value; return .finished v (← v.success b.rows)), r.log⟩
  | .begin =>
      match Visit.begin b.rows with
      | .ok v => { b with visits := b.visits.push v }.answer (.number b.visits.size)
      | .error e => b.fail e
  | .step i c =>
      match b.visitAt i with
      | .error e => b.fail e
      | .ok (i, v) =>
          let r := v.step b.rows c
          ⟨({ b with visits := b.visits.setIfInBounds i r.value.1 }, r.value.2.map .flag), r.log⟩
  | .success i => b.ask do return .flag (← (← b.visitAt i).2.success b.rows)
  | .inspect i => b.ask do return .visit (← b.visitAt i).2
  | .script => b.answer (.written b.rows.script)
  | .dot => b.ask do return .text (← b.rows.dot)
  | .dump => b.answer (.table b.rows)

end Bench

end Acceptor.Rows
