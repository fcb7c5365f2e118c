import Acceptor.Command.Spec
import Acceptor.Host
import Acceptor.Text.Quoted

namespace Acceptor

inductive Complaint
  | unknownCommand (word : String)
  | ambiguous (word : String) (flags : List String)
  | unwantedValue (flag value : String)
  | conflict (flag earlier : String)
  | notANumber (operand word : String)
  | missing (operands : List String)
  | leftOver (words : List String)
  deriving DecidableEq, Repr

namespace Complaint

def listed (words : List String) : String := String.intercalate ", " words

def message [Host] : Complaint → String
  | unknownCommand word =>
      s!"argument {Spec.choices}: invalid choice: {Text.quoted word} " ++
        s!"(choose from {listed (Spec.names.map Text.quoted)})"
  | ambiguous word flags =>
      s!"{Host.program}: error: ambiguous option: {word} could match {listed flags}"
  | unwantedValue flag value => s!"argument {flag}: ignored explicit argument {Text.quoted value}"
  | conflict flag earlier => s!"argument {flag}: not allowed with argument {earlier}"
  | notANumber operand word => s!"argument {operand}: invalid int value: {Text.quoted word}"
  | missing operands =>
      s!"{Host.program}: error: the following arguments are required: {listed operands}"
  | leftOver words =>
      s!"{Host.program}: error: unrecognized arguments: " ++ String.intercalate " " words

end Complaint

end Acceptor
