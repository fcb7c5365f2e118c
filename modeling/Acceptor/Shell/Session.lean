import Acceptor.Command.Basic
import Acceptor.Command.Help
import Acceptor.Files.Place
import Acceptor.Shell.Event
import Acceptor.Table.Dot
import Acceptor.Visit

namespace Acceptor

structure Session where
  table : Table
  place : Place

inductive Outcome
  | done
  | failed
  | quit
  /-- The failure was not foreseen, and ends everything. -/
  | escaped (f : Fault)
  deriving DecidableEq, Repr

def Outcome.goesOn (exitFirst : Bool) : Outcome → Bool
  | .done => true
  | .failed => !exitFirst
  | .quit | .escaped _ => false

structure Report where
  session : Session
  events : List Event := []
  outcome : Outcome := .done

def Report.after (r : Report) (earlier : List Event) : Report :=
  { r with events := earlier ++ r.events }

abbrev Player := Path → Session → Report

variable [Host]

namespace Session

def start (place : Place) : Session := { table := Table.loadExample {}, place }

def complain (s : Session) (message : String) : Report :=
  ⟨s, [.err (message ++ "\n")], .failed⟩

def print (s : Session) (text : String) : Report := ⟨s, [.out text], .done⟩

def escape (s : Session) (f : Fault) : Report := ⟨s, [], .escaped f⟩

def withTable (s : Session) (table : Table) : Report := ⟨{ s with table }, [], .done⟩

def change (s : Session) : Except Fault Table → Report
  | .ok table => s.withTable table
  | .error f => s.escape f

def unknownState (s : Session) (state : Int) : Report :=
  s.complain s!"state not found in automaton: {state}"

def addStates (s : Session) (count : Int) (accepting start : Bool) : Report :=
  if count ≤ 0 then s.complain s!"invalid number of states: {count}"
  else if Memory.maxStates < s.table.size + count then s.escape .outOfMemory
  else s.withTable (s.table.addStates count.toNat accepting start)

def setStart (s : Session) (state : Int) : Report :=
  if s.table.has state then s.change (s.table.setStart state) else s.unknownState state

def setAccepting (s : Session) (states : List Int) (accepting : Bool) : Report :=
  match states.find? fun state => !s.table.has state with
  | some state => s.unknownState state
  | none => s.change (states.foldlM (fun t state => t.markFinal state accepting) s.table)

/-- Without a text for the class, an empty bracket is read. -/
def addEdge (s : Session) (source : Int) (dest : Option Int) (label : Option String) : Report :=
  if !s.table.has source then s.unknownState source
  else match dest with
    | none => s.escape .noDestination
    | some dest =>
        if !s.table.has dest then s.unknownState dest
        else match CharClass.parse (label.getD "[]") with
          | .error e => s.complain e.message
          | .ok k => s.change (s.table.addEdge source (.charClass k) dest)

def modeName (strict : Bool) : String := if strict then "strict" else "lenient"

def configure (s : Session) (capacity : Option Int) (strict : Option Bool) : Report :=
  match capacity, strict with
  | none, none => s.print s!"capacity {s.table.capacity}, {modeName s.table.strict}\n"
  | some capacity, strict =>
      if capacity ≤ 0 then s.complain s!"invalid stack capacity: {capacity}"
      else s.withTable { s.table with capacity, strict := strict.getD s.table.strict }
  | none, some strict => s.withTable { s.table with strict }

def endsMatch : Fault → Bool
  | .invalidCapacity _ | .stackFull _ | .stackEmpty | .noStates => true
  | _ => false

def traceLines (v : Visit) : String :=
  let path := String.intercalate " " (v.path.map toString)
  s!"    state {v.state} after {v.consumed} symbols, path: {path}\n" ++
    if v.stack.dropped = 0 then "" else s!"    {v.stack.dropped} states not recorded\n"

def verdict (success : Bool) : String := if success then "match" else "no match"

def runText (t : Table) (trace : Bool) (text : String) : List Event × Option Fault :=
  let name := Text.quoted text
  let r := t.run (symbolsOf text)
  let logged := r.log.map Event.log
  match r.value with
  | .error f =>
      if endsMatch f then (logged ++ [.err s!"{name}: {f.message}\n"], none) else (logged, some f)
  | .ok v =>
      match v.success t with
      | .error f => (logged, some f)
      | .ok success =>
          let result := s!"{name}: {verdict success}\n"
          (logged ++ .out result :: if trace then [.out (traceLines v)] else [], none)

def runTexts (t : Table) (trace : Bool) : List String → List Event × Option Fault
  | [] => ([], none)
  | text :: texts =>
      match runText t trace text with
      | (events, some f) => (events, some f)
      | (events, none) =>
          let more := runTexts t trace texts
          (events ++ more.1, more.2)

def run (s : Session) (texts : List String) (trace : Bool) : Report :=
  match runTexts s.table trace texts with
  | (events, none) => ⟨s, events, .done⟩
  | (events, some f) => ⟨s, events, .escaped f⟩

def withDisk (s : Session) (disk : Disk) : Session := { s with place := { s.place with disk } }

def delivered (w : Written) (d : Disk) (path : Path) : Written :=
  match Host.break? d path w.text with
  | some b => ⟨String.ofList (w.text.toList.take b.arrived), some (.unwritten b.error)⟩
  | none => w

/-- Writes a file. Where that goes wrong, a file that was there keeps what has reached it, and
otherwise the name is taken out of its folder again. -/
def write (s : Session) (name : String) (w : Written) : Session × Option Fault :=
  match Place.expandHome name with
  | .error f => (s, some f)
  | .ok name =>
      if Place.holdsNul name then (s, some .nulInName)
      else match s.place.target name with
        | .error e => (s, some (.unopened e name))
        | .ok path =>
            let w := delivered w s.place.disk path
            let written := s.withDisk (s.place.disk.put path (.file w.text))
            if w.fault.isNone || s.place.isThere name then (written, w.fault)
            else ({ written with place := written.place.unlink name }, w.fault)

def settle (s : Session) (caught : Fault → Bool) : Option Fault → Report
  | none => ⟨s, [], .done⟩
  | some f => if caught f then s.complain f.message else s.escape f

def named (file : Option String) : Option String := file.filter (· ≠ "")

def save (s : Session) (file : Option String) : Report :=
  let w := s.table.script
  match named file with
  | some name =>
      let r := s.write name w
      r.1.settle (fun f => f.isOfSystem || f.isOfValue) r.2
  | none =>
      match w.fault with
      | none => s.print w.text
      | some f => (s.complain f.message).after [.out w.text]

/-- A viewer shows the graph without the shell's output. -/
def draw (s : Session) (file : Option String) (viewer : Bool) : Report :=
  match named file with
  | some name =>
      let r := s.write name ⟨s.table.dot, none⟩
      r.1.settle Fault.isOfSystem r.2
  | none => if viewer then ⟨s, [], .done⟩ else s.print s.table.dot

def changeFolder (s : Session) (name : String) : Report :=
  match Place.expandHome name with
  | .error f => s.escape f
  | .ok name =>
      if Place.holdsNul name then s.escape .nulInName
      else match s.place.goTo name with
        | .error e => s.complain (e.message name)
        | .ok folder => ⟨{ s with place := { s.place with folder } }, [], .done⟩

/-- Plays files one after the other. A failure inside a file ends that file alone. -/
def source (play : Player) (s : Session) : List String → Report
  | [] => ⟨s, [], .done⟩
  | name :: names =>
      match Place.expandHome name with
      | .error f => s.escape f
      | .ok name =>
          if Place.holdsNul name then s.escape .nulInName
          else match s.place.file name with
            | .error e => s.complain (e.message name)
            | .ok path =>
                let r := play path s
                match r.outcome with
                | .quit | .escaped _ => r
                | .done | .failed => (source play r.session names).after r.events

def perform (play : Player) (s : Session) : Command → Report
  | .changeFolder name => s.changeFolder name
  | .clear => s.withTable s.table.reset
  | .loadExample => s.withTable s.table.loadExample
  | .addStates count accepting start => s.addStates count accepting start
  | .setStart state => s.setStart state
  | .setAccepting states accepting => s.setAccepting states accepting
  | .addEdge source dest label => s.addEdge source dest label
  | .configure capacity strict => s.configure capacity strict
  | .run texts trace => s.run texts trace
  | .save file => s.save file
  | .draw file viewer => s.draw file viewer
  | .quit => ⟨s, [], .quit⟩
  | .source files => s.source play files
  | .help topic => s.print (Help.about topic)

def isComment (line : String) : Bool := line.toList.head? == some '#'

def line (play : Player) (s : Session) (text : String) : Report :=
  let text := Text.strip text
  if isComment text then ⟨s, [], .done⟩
  else match Text.splitWords text with
    | .error e => s.complain s!"{text}: {e.message}"
    | .ok [] => ⟨s, [], .done⟩
    | .ok words =>
        match Command.ofWords words with
        | .error c => s.complain c.message
        | .ok c => s.perform play c

end Session

end Acceptor
