import Acceptor.Command.Spec
import Acceptor.Text.Lines
import Acceptor.Text.Wrap

namespace Acceptor.Help

structure Item where
  name : String
  text : String

def lineWidth : Nat := 78

def textColumn (names : List String) : Nat :=
  min 24 (names.foldl (fun n s => max n s.length) 0 + 4)

def itemLines (indent column : Nat) (i : Item) : List String :=
  let margin := "".pushn ' ' indent
  match Text.wrap (lineWidth - column) i.text with
  | [] => [margin ++ i.name]
  | line :: lines =>
      let below := fun s => "".pushn ' ' column ++ s
      if i.name.length + indent + 2 ≤ column then
        (Text.padRight column (margin ++ i.name) ++ line) :: lines.map below
      else (margin ++ i.name) :: (line :: lines).map below

def block (title : String) (column : Nat) (items : List Item) : List String :=
  if items.isEmpty then [] else (title ++ ":") :: items.flatMap (itemLines 2 column)

def overview : String :=
  Text.unlines <| ["subcommands:", "  " ++ Spec.choices] ++
    Spec.all.flatMap fun s => itemLines 4 24 ⟨s.name, s.summary⟩

def ofSpec (s : Spec) : String :=
  let operands := s.operands.map fun o => (⟨o.name, o.help⟩ : Item)
  let flags := s.flags.map fun f => (⟨f.name, f.help⟩ : Item)
  let column := textColumn ((operands ++ flags).map Item.name)
  let first := block "positional arguments" column operands
  let second := block "options" column flags
  Text.unlines (first ++ (if first.isEmpty || second.isEmpty then [] else [""]) ++ second)

def about (topic : Option String) : String :=
  match topic.bind Spec.find? with
  | some s => ofSpec s
  | none => overview

end Acceptor.Help
