import Acceptor.CharClass.Basic
import Acceptor.Text.Quoted

namespace Acceptor.CharClass
open Acceptor.Text

def special : List Char := ['\\', '.', '[', ']', '(', ')', '|', '!']

def bracketSpecial : List Char := ['\\', ']', '^', '-']

def isControl (c : Char) : Bool := c.toNat < 0x20 || c.toNat == 0x7f

def occursIn (cs : List Char) : List Char → Bool
  | [] => cs.isEmpty
  | s@(_ :: rest) => cs.isPrefixOf s || occursIn cs rest

/-- A symbol takes one backslash if it occurs in the syntax as a whole. -/
def escapeChars (syntaxChars : List Char) : List Char → List Char
  | [c] =>
      if isControl c then '\\' :: 'x' :: hexDigits 2 c.toNat
      else if c ∈ syntaxChars then ['\\', c] else [c]
  | cs => if occursIn cs syntaxChars then '\\' :: cs else cs

def escape (syntaxChars : List Char) (c : Symbol) : List Char := escapeChars syntaxChars c.toList

def printRange (r : Symbol × Symbol) : List Char :=
  if r.1 = r.2 then escape bracketSpecial r.1
  else escape bracketSpecial r.1 ++ '-' :: escape bracketSpecial r.2

mutual

def print : CharClass → List Char
  | literal c => escape special c
  | any => ['.']
  | bracket ranges negated =>
      (if negated then ['[', '^'] else ['[']) ++ ranges.flatMap printRange ++ [']']
  | complement (union ks) => '!' :: '(' :: printUnion ks ++ [')']
  | complement k => '!' :: k.print
  | union ks => printUnion ks

def printUnion : List CharClass → List Char
  | [] => []
  | [k] => k.print
  | k :: ks => k.print ++ '|' :: printUnion ks

end

def text (k : CharClass) : String := String.ofList k.print

end Acceptor.CharClass
