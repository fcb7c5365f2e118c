import Acceptor.Command.Complaint
import Acceptor.Text.Numeral

namespace Acceptor

namespace Arguments

inductive Word
  | plain (s : String)
  | divider
  | flag (f : Flag) (value : Option String)
  | stray (s : String)
  deriving DecidableEq, Repr

def Word.isDivider : Word → Bool
  | .divider => true
  | _ => false

def Word.text : Word → String
  | .plain s | .stray s => s
  | .divider => "--"
  | .flag f _ => f.name

def cutValue (cs : List Char) : List Char × Option (List Char) :=
  match cs.dropWhile (· ≠ '=') with
  | [] => (cs, none)
  | _ :: value => (cs.takeWhile (· ≠ '='), some value)

def ofDashed (flags : List Flag) (s : String) : Except Complaint Word :=
  let cs := s.toList
  let stem := (cutValue cs).1
  let value := (cutValue cs).2.map String.ofList
  match flags.find? fun f => f.name.toList == stem with
  | some f => .ok (.flag f value)
  | none =>
      let meant :=
        if ['-', '-'].isPrefixOf cs then flags.filter fun f => stem.isPrefixOf f.name.toList
        else []
      match meant with
      | [f] => .ok (.flag f value)
      | _ :: _ :: _ => .error (.ambiguous s (meant.map Flag.name))
      | [] => .ok (if Text.isNegativeNumber s || cs.contains ' ' then .plain s else .stray s)

def classify (flags : List Flag) (s : String) : Except Complaint Word :=
  if s.toList.head? ≠ some '-' || s = "-" then .ok (.plain s) else ofDashed flags s

def classifyAll (flags : List Flag) : List String → Except Complaint (List Word)
  | [] => .ok []
  | s :: ss =>
      if s = "--" then .ok (.divider :: ss.map .plain)
      else do return (← classify flags s) :: (← classifyAll flags ss)

inductive Value
  | number (n : Int)
  | text (s : String)
  deriving DecidableEq, Repr

def takeOne? (ws : List Word) : Option (List Word × List Word) :=
  match ws.dropWhile Word.isDivider with
  | [] => none
  | w :: rest =>
      some (ws.takeWhile Word.isDivider ++ w :: rest.takeWhile Word.isDivider,
        rest.dropWhile Word.isDivider)

def take? : Arity → List Word → Option (List Word × List Word)
  | .one, ws => takeOne? ws
  | .optional, ws => some ((takeOne? ws).getD (ws, []))
  | .many, ws => if ws.all Word.isDivider then none else some (ws, [])

def value (o : Operand) (s : String) : Except Complaint Value :=
  if o.numeric then
    match Text.integer? s with
    | some n => .ok (.number n)
    | none => .error (.notANumber o.name s)
  else .ok (.text s)

def values (o : Operand) (ws : List Word) : Except Complaint (List Value) :=
  ((ws.map Word.text).erase "--").mapM (value o)

structure Filled where
  flags : List Flag := []
  operands : List (Operand × List Value) := []
  todo : List Operand
  leftOver : List String := []
  deriving DecidableEq, Repr

def Filled.fill (a : Filled) : List Operand → List Word → Except Complaint Filled
  | [], ws => .ok { a with todo := [], leftOver := a.leftOver ++ ws.map Word.text }
  | o :: os, ws =>
      match take? o.arity ws with
      | none => .ok { a with todo := o :: os, leftOver := a.leftOver ++ ws.map Word.text }
      | some (taken, rest) => do
          let vs ← values o taken
          fill { a with operands := a.operands ++ [(o, vs)] } os rest

def Filled.pass (a : Filled) (run : List Word) : Except Complaint Filled :=
  if run.isEmpty then .ok a else a.fill a.todo run

def Filled.raise (a : Filled) (f : Flag) : Option String → Except Complaint Filled
  | some value => .error (.unwantedValue f.name value)
  | none =>
      match a.flags.find? fun g => f.exclusive && g.exclusive && g ≠ f with
      | some g => .error (.conflict f.name g.name)
      | none => .ok { a with flags := a.flags ++ [f] }

/-- Takes the words that follow `run`, which holds those since the last flag. -/
def Filled.take (a : Filled) (run : List Word) : List Word → Except Complaint Filled
  | [] => a.fill a.todo run
  | .flag f value :: ws => do (← (← a.pass run).raise f value).take [] ws
  | .stray s :: ws => do
      let a ← a.pass run
      { a with leftOver := a.leftOver ++ [s] }.take [] ws
  | w :: ws => a.take (run ++ [w]) ws

def Filled.missing (a : Filled) : List String :=
  (a.todo.filter fun o => o.arity ≠ .optional).map Operand.name

def Filled.has (a : Filled) (flag : String) : Bool := a.flags.any fun f => f.name == flag

def Filled.values (a : Filled) (operand : String) : List Value :=
  (a.operands.filter fun o => o.1.name == operand).flatMap Prod.snd

def Filled.numbers (a : Filled) (operand : String) : List Int :=
  (a.values operand).filterMap fun
    | .number n => some n
    | .text _ => none

def Filled.texts (a : Filled) (operand : String) : List String :=
  (a.values operand).filterMap fun
    | .text s => some s
    | .number _ => none

end Arguments

def Spec.arguments (s : Spec) (words : List String) : Except Complaint Arguments.Filled := do
  let ws ← Arguments.classifyAll s.flags words
  let a ← Arguments.Filled.take { todo := s.operands } [] ws
  if a.missing.isEmpty then return a else throw (.missing a.missing)

end Acceptor
