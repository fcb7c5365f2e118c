namespace Acceptor

namespace Log

inductive Channel
  | stack
  | automaton
  deriving DecidableEq, Repr

inductive Level
  | debug
  | warning
  deriving DecidableEq, Repr

structure Entry where
  channel : Channel
  level : Level
  message : String
  deriving DecidableEq, Repr

def Channel.name : Channel → String
  | .stack => "dfamatch.automata.stack"
  | .automaton => "dfamatch.automata"

def Level.name : Level → String
  | .debug => "DEBUG"
  | .warning => "WARNING"

def Entry.line (e : Entry) : String := s!"{e.channel.name}: {e.level.name}: {e.message}"

def Entry.isShown (debug : Bool) (e : Entry) : Bool := debug || e.level == .warning

end Log

structure Logged (α : Type) where
  value : α
  log : List Log.Entry := []

end Acceptor
