import Acceptor.Log

namespace Acceptor

inductive Event
  | out (text : String)
  | err (text : String)
  | log (entry : Log.Entry)
  deriving DecidableEq, Repr

namespace Event

def outText (events : List Event) : String :=
  String.join <| events.filterMap fun
    | out text => some text
    | _ => none

def errText (events : List Event) : String :=
  String.join <| events.filterMap fun
    | err text => some text
    | _ => none

def entries (events : List Event) : List Log.Entry :=
  events.filterMap fun
    | log e => some e
    | _ => none

def errTextWithLog (debug : Bool) (events : List Event) : String :=
  String.join <| events.filterMap fun
    | err text => some text
    | log e => if e.isShown debug then some (e.line ++ "\n") else none
    | out _ => none

end Event

end Acceptor
