import Acceptor.Shell.Transcript

namespace Acceptor

structure Invocation where
  arguments : List String := []
  input : String := ""
  terminal : Bool := false

namespace Invocation

def startupFile : String := ".dfamatchrc"

def promptText : String := "(dfamatch) "

def usage : String := "dfamatch - Finite automaton matcher\nusage: dfamatch [--debug] [--help]\n"

def asksHelp (i : Invocation) : Bool := i.arguments.contains "--help"

def debugs (i : Invocation) : Bool := i.arguments.contains "--debug"

variable [Host]

/-- Plays the start-up file. One that cannot be read does not end the program. -/
def startUp (s : Session) (depth : Nat) : Report :=
  if s.place.isThere startupFile then
    let notice := Event.err s!"Loading {startupFile}\n"
    match s.place.file startupFile with
    | .error e =>
        ⟨s, [notice, .err s!"Could not load {startupFile}: {e.message startupFile}\n"], .done⟩
    | .ok _ => (s.source (Session.player depth) [startupFile]).after [notice]
  else ⟨s, [], .done⟩

def withPrompts (t : Transcript) : List Event :=
  t.reports.flatMap (fun r => .out promptText :: r.events) ++
    if t.outcome = .done then [.out promptText, .out "\n"] else []

def run (i : Invocation) (s : Session) (depth : Nat) : Report :=
  if i.asksHelp then ⟨s, [.out usage], .quit⟩
  else
    let loaded := startUp s depth
    match loaded.outcome with
    | .quit | .escaped _ => loaded
    | .done | .failed =>
        let t := loaded.session.play depth false (Text.linesOfInput i.input)
        let r := t.report loaded.session
        let shown := if i.terminal then { r with events := withPrompts t } else r
        shown.after loaded.events

end Invocation

end Acceptor
