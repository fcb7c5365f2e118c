import Acceptor.Command.Arguments

namespace Acceptor

inductive Command
  | changeFolder (name : String)
  | clear
  | loadExample
  | addStates (count : Int) (accepting start : Bool)
  | setStart (s : Int)
  | setAccepting (states : List Int) (accepting : Bool)
  /-- An operand whose only word was a divider has no value. -/
  | addEdge (source : Int) (dest : Option Int) (label : Option String)
  | configure (capacity : Option Int) (strict : Option Bool)
  | run (texts : List String) (trace : Bool)
  | save (file : Option String)
  | draw (file : Option String) (viewer : Bool)
  | quit
  | source (files : List String)
  | help (topic : Option String)
  deriving DecidableEq, Repr

namespace Command
open Arguments

def ofArguments (s : Spec) (a : Filled) : Command :=
  match s.verb with
  | .changeFolder => .changeFolder ((a.texts "DIR").headD "")
  | .clear => .clear
  | .loadExample => .loadExample
  | .addStates =>
      .addStates ((a.numbers "COUNT").headD 1) (a.has "--accepting") (a.has "--start")
  | .setStart => .setStart ((a.numbers "STATE").headD 0)
  | .setAccepting => .setAccepting (a.numbers "STATE") (!a.has "--no")
  | .addEdge =>
      .addEdge ((a.numbers "SOURCE").headD 0) (a.numbers "DEST").head? (a.texts "CLASS").head?
  | .configure =>
      .configure (a.numbers "CAPACITY").head?
        (if a.has "--strict" then some true else if a.has "--lenient" then some false else none)
  | .run => .run (a.texts "STRING") (a.has "--trace")
  | .save => .save (a.texts "FILE").head?
  | .draw => .draw (a.texts "FILE").head? (s.name == "dotty")
  | .quit => .quit
  | .source => .source (a.texts "FILE")
  | .help => .help (a.texts "COMMAND").head?

def isStray (s : String) : Bool :=
  match classify [] s with
  | .ok (.stray _) => s ≠ "--"
  | _ => false

def ofWords (words : List String) : Except Complaint Command :=
  let strays := words.takeWhile isStray
  match words.dropWhile isStray with
  | [] => .error (.leftOver strays)
  | ["--"] => .error (.leftOver words)
  | name :: rest =>
      match Spec.find? name with
      | none => .error (.unknownCommand name)
      | some s => do
          let a ← s.arguments rest
          if strays.isEmpty && a.leftOver.isEmpty then return ofArguments s a
          else throw (.leftOver (strays ++ a.leftOver))

end Command

end Acceptor
