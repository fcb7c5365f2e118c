import Acceptor.Text.Blank
import Acceptor.Text.Digit

namespace Acceptor.Text

/-- What may surround a numeral: blanks, less the four information separators. -/
def surroundsNumeral (c : Char) : Bool :=
  isBlank c && !(28 ≤ c.toNat && c.toNat ≤ 31)

def digitValues? : List Char → Option (List Nat)
  | [] => none
  | [c] => (digitValue? c).map ([·])
  | c :: '_' :: cs => do return (← digitValue? c) :: (← digitValues? cs)
  | c :: cs => do return (← digitValue? c) :: (← digitValues? cs)

def maxDigits : Nat := 4300

def natural? (cs : List Char) : Option Nat := do
  let ds ← digitValues? cs
  if ds.length ≤ maxDigits then return ds.foldl (10 * · + ·) 0 else none

def integer? (s : String) : Option Int :=
  match trim surroundsNumeral s.toList with
  | '-' :: cs => (natural? cs).map fun n => -(n : Int)
  | '+' :: cs => (natural? cs).map Int.ofNat
  | cs => (natural? cs).map Int.ofNat

def isNegativeNumber (s : String) : Bool :=
  match s.toList with
  | '-' :: cs =>
      let cs := if cs.getLast? = some '\n' then cs.dropLast else cs
      match cs.dropWhile isDecimal with
      | [] => !cs.isEmpty
      | '.' :: fraction => !fraction.isEmpty && fraction.all isDecimal
      | _ => false
  | _ => false

end Acceptor.Text
