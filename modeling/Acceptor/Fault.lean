import Acceptor.CharClass.Parser
import Acceptor.Text.Quoted
import Acceptor.Text.Utf8

namespace Acceptor

/-- The numbers that may count what stands in a row, or say where it stands. -/
def isIndex (n : Int) : Bool := -0x8000000000000000 ≤ n && n < 0x8000000000000000

inductive FileError
  | notFound
  | notFolder
  | isFolder
  | nameTooLong
  | tooManyLinks
  deriving DecidableEq, Repr

namespace FileError

def code : FileError → Nat
  | notFound => 2
  | notFolder => 20
  | isFolder => 21
  | nameTooLong => 36
  | tooManyLinks => 40

def text : FileError → String
  | notFound => "No such file or directory"
  | notFolder => "Not a directory"
  | isFolder => "Is a directory"
  | nameTooLong => "File name too long"
  | tooManyLinks => "Too many levels of symbolic links"

def message (e : FileError) (name : String) : String :=
  s!"[Errno {e.code}] {e.text}: {Text.quoted name}"

end FileError

inductive WriteError
  | system (code : Nat) (text : String)
  | encoding (reason : String)
  deriving DecidableEq, Repr

def WriteError.message : WriteError → String
  | system code text => s!"[Errno {code}] {text}"
  | encoding reason => reason

inductive Fault
  | invalidCapacity (capacity : Int)
  | uncountable
  | outOfMemory
  | stackFull (capacity : Nat)
  | stackEmpty
  | noStates
  /-- A table was to be changed at a state that it does not have. -/
  | notAState
  | outOfRange (n : Int)
  /-- The predicate of a transition has no command that makes it. -/
  | unsavable (source : Nat) (dest : Int)
  | invalidClass (e : CharClass.ParseError)
  | nulInName
  | notText (e : Text.Utf8.Malformed)
  /-- An edge was asked for without a state that it leads to. -/
  | noDestination
  | unopened (e : FileError) (name : String)
  | unwritten (e : WriteError)
  | tooDeep
  deriving DecidableEq, Repr

def noIndexText : String := "cannot fit 'int' into an index-sized integer"

def Fault.message : Fault → String
  | .invalidCapacity n => s!"invalid stack capacity {n}"
  | .uncountable => noIndexText
  | .outOfMemory => ""
  | .stackFull n => s!"stack is full (capacity {n})"
  | .stackEmpty => "stack is empty"
  | .noStates => "automaton has no states"
  | .notAState => ""
  | .outOfRange n => if isIndex n then "list index out of range" else noIndexText
  | .unsavable source dest => s!"cannot save transition {source} -> {dest}"
  | .invalidClass e => e.message
  | .nulInName => "embedded null byte"
  | .notText e => e.message
  | .noDestination => "'>=' not supported between instances of 'list' and 'int'"
  | .unopened e name => e.message name
  | .unwritten e => e.message
  | .tooDeep => "maximum recursion depth exceeded"

def Fault.isOfSystem : Fault → Bool
  | .unopened .. | .unwritten (.system ..) => true
  | _ => false

def Fault.isOfValue : Fault → Bool
  | .invalidCapacity _ | .noStates | .unsavable .. | .nulInName | .notText _
  | .unwritten (.encoding _) => true
  | _ => false

end Acceptor
