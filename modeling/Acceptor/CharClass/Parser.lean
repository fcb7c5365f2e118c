import Acceptor.CharClass.Printer

namespace Acceptor.CharClass

abbrev Reader (α : Type) := List Char → Option (α × List Char)

def repeated (p : Reader α) : Nat → List Char → List α × List Char
  | 0, cs => ([], cs)
  | n + 1, cs =>
      match p cs with
      | none => ([], cs)
      | some (a, rest) =>
          let more := repeated p n rest
          (a :: more.1, more.2)

def hexValue? (c : Char) : Option Nat :=
  let n := c.toNat
  if 0x30 ≤ n && n ≤ 0x39 then some (n - 0x30)
  else if 0x41 ≤ n && n ≤ 0x46 then some (n - 0x37)
  else if 0x61 ≤ n && n ≤ 0x66 then some (n - 0x57)
  else none

def readEscaped : Reader Char
  | 'x' :: h :: l :: cs => do return (Char.ofNat (16 * (← hexValue? h) + (← hexValue? l)), cs)
  | c :: cs => if c = 'x' then none else some (c, cs)
  | [] => none

def readChar (syntaxChars : List Char) : Reader Char
  | [] => none
  | '\\' :: cs => readEscaped cs
  | c :: cs => if c ∈ syntaxChars then none else some (c, cs)

def readRange : Reader (Symbol × Symbol) := fun cs =>
  match readChar bracketSpecial cs with
  | none => none
  | some (lo, '-' :: rest) =>
      match readChar bracketSpecial rest with
      | some (hi, rest) => some ((String.singleton lo, String.singleton hi), rest)
      | none => some ((String.singleton lo, String.singleton lo), '-' :: rest)
  | some (c, rest) => some ((String.singleton c, String.singleton c), rest)

def readRanges (negated : Bool) : Reader CharClass := fun cs =>
  match repeated readRange cs.length cs with
  | ([], _) => none
  | (ranges, ']' :: rest) => some (bracket ranges negated, rest)
  | _ => none

def readBracket : Reader CharClass
  | '^' :: cs => readRanges true cs
  | cs => readRanges false cs

def readMember (term : Reader CharClass) : Reader CharClass
  | '|' :: cs => term cs
  | _ => none

def ofTerms (k : CharClass) : List CharClass → CharClass
  | [] => k
  | ks => union (k :: ks)

def readUnion (term : Reader CharClass) : Reader CharClass := fun cs =>
  match term cs with
  | none => none
  | some (k, rest) =>
      let members := repeated (readMember term) rest.length rest
      some (ofTerms k members.1, members.2)

def readTerm : (depth : Nat) → Reader CharClass
  | 0, _ => none
  | _ + 1, [] => none
  | _ + 1, '.' :: cs => some (any, cs)
  | depth + 1, '!' :: cs => (readTerm depth cs).map fun (k, rest) => (complement k, rest)
  | _ + 1, '[' :: cs => readBracket cs
  | depth + 1, '(' :: cs =>
      match readUnion (readTerm depth) cs with
      | some (k, ')' :: rest) => some (k, rest)
      | _ => none
  | _ + 1, cs => (readChar special cs).map fun (c, rest) => (literal (String.singleton c), rest)

/-- A text nests at most as deep as it is long. -/
def readClass : Reader CharClass := fun cs => readUnion (readTerm (cs.length + 1)) cs

structure ParseError where
  found : String
  deriving DecidableEq, Repr

def ParseError.message (e : ParseError) : String := s!"invalid character class at '{e.found}'"

def check (k : CharClass) : Except ParseError Unit :=
  match k.firstReversed with
  | none => .ok ()
  | some (lo, hi) => .error ⟨lo ++ "-" ++ hi⟩

def parse (s : String) : Except ParseError CharClass :=
  match readClass s.toList with
  | none => .error ⟨s⟩
  | some (k, []) => do k.check; return k
  | some (_, rest) => .error ⟨String.ofList rest⟩

end Acceptor.CharClass
