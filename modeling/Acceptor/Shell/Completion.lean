import Acceptor.Files.Pattern
import Acceptor.Shell.Session

namespace Acceptor

namespace Completion

inductive Kind
  | nothing
  | command
  | state
  | file
  | folder
  deriving DecidableEq, Repr

def endsInBlank (line : String) : Bool :=
  match line.toList.getLast? with
  | some c => c = ' ' || c = '\t'
  | none => true

def isFlagLike (word : String) : Bool := word.toList.head? == some '-'

/-- The words before the one that is completed, without flags, which take no values. -/
def countWords (line : String) (words : List String) : Nat :=
  let complete := if endsInBlank line then words else words.dropLast
  match complete with
  | [] => 0
  | _ :: rest => 1 + (rest.filter fun w => !isFlagLike w).length

def kindAfter (v : Verb) (count : Nat) : Kind :=
  match v with
  | .changeFolder => if count = 1 then .folder else .nothing
  | .setStart => if count = 1 then .state else .nothing
  | .setAccepting => .state
  | .addEdge => if count < 3 then .state else .nothing
  | .save | .draw => if count = 1 then .file else .nothing
  | .source => .file
  | _ => .nothing

def kindOf (line : String) (words : List String) : Kind :=
  match countWords line words, words with
  | 0, _ | _, [] => .command
  | count, name :: _ =>
      match Spec.find? name with
      | some s => kindAfter s.verb count
      | none => .nothing

def sorted (ss : List String) : List String := ss.mergeSort (fun a b => !(b < a))

def expandName [Host] (p : Place) (text : String) : Except Fault String := do
  let name ← Place.expandHome text
  return if !Place.asksFolder name && p.isFolder name then name ++ "/" else name

def folders (p : Place) (text : String) : Except Fault (List String) :=
  return (← p.expand (text.toList ++ ['*', '/']) false).map String.ofList

def files (p : Place) (text : String) : Except Fault (List String) := do
  let folder := (Pattern.splitLast text.toList).1
  let pattern := if folder.isEmpty then ['*'] else folder ++ ['/', '*']
  return ((← p.expand pattern false).map String.ofList).filter fun name => !p.isFolder name

def candidates (s : Session) (text : String) : Kind → Except Fault (List String)
  | .nothing => return []
  | .command => return Spec.names
  | .state => return (List.range s.table.size).map toString
  | .folder => folders s.place text
  | .file => return (← folders s.place text) ++ (← files s.place text)

def expanded [Host] (s : Session) (text : String) : Kind → Except Fault String
  | .folder | .file => expandName s.place text
  | _ => return text

def flagsFor (words : List String) (text : String) : List String :=
  if text = "" || text = "-" || ['-', '-'].isPrefixOf text.toList then
    match words.head?.bind Spec.find? with
    | some spec => spec.flags.map Flag.name
    | none => []
  else []

/-- A single completion is finished with a blank, unless it is a folder, or a flag for nothing. -/
def present (text : String) (wasExpanded : Bool) (completions : List String) : List String :=
  match completions with
  | [only] =>
      if (text = "" && isFlagLike only) || Place.asksFolder only then [only] else [only ++ " "]
  | [] => []
  | _ => if wasExpanded then [text] else sorted completions

def offers [Host] (s : Session) (line text : String) : Except Fault (List String) := do
  let words := Text.blankSeparated line
  let kind := kindOf line words
  let full ← expanded s text kind
  let all := flagsFor words full ++ (← candidates s full kind)
  return present full (text ≠ full) (all.filter fun c => full.toList.isPrefixOf c.toList)

end Completion

end Acceptor
