import Acceptor.Files.Place

namespace Acceptor

namespace Pattern

inductive Item
  | char (c : Char)
  | one
  | many
  | set (ranges : List (Char × Char)) (negated : Bool)
  deriving DecidableEq, Repr

def Item.accepts : Item → Char → Bool
  | .char d, c => c == d
  | .one, _ | .many, _ => true
  | .set ranges negated, c => (ranges.any fun r => r.1 ≤ c && c ≤ r.2) != negated

/-- What stands between `[`, which is just before the text, and `]`. A `]` at the front, or after
`!` at the front, is a member. -/
def setText? (cs : List Char) : Option (List Char) :=
  let (front, rest) := match cs with
    | '!' :: ']' :: rest => (['!', ']'], rest)
    | '!' :: rest => (['!'], rest)
    | ']' :: rest => ([']'], rest)
    | _ => ([], cs)
  if rest.contains ']' then some (front ++ rest.takeWhile (· ≠ ']')) else none

inductive Member
  | one (c : Char)
  | range (lo hi : Char)
  deriving DecidableEq, Repr

def members : List Char → List Member
  | lo :: '-' :: hi :: cs => .range lo hi :: members cs
  | c :: cs => .one c :: members cs
  | [] => []

def Member.isOrdered : Member → Bool
  | .one _ => true
  | .range lo hi => lo ≤ hi

def Member.ends : Member → Char × Char
  | .one c => (c, c)
  | .range lo hi => (lo, hi)

/-- A `!` negates where it comes first, or first but for ranges that stand for nothing. Where such
a `!` was the lower end of a range, the hyphen and the upper end are members. -/
def setItem : List Char → Item
  | '!' :: cs => .set (((members cs).filter Member.isOrdered).map Member.ends) true
  | cs =>
      match (members cs).filter Member.isOrdered with
      | .one '!' :: ms => .set (ms.map Member.ends) true
      | .range '!' hi :: ms => .set (('-', '-') :: (hi, hi) :: ms.map Member.ends) true
      | ms => .set (ms.map Member.ends) false

def items : (skip : Nat) → List Char → List Item
  | _, [] => []
  | skip + 1, _ :: cs => items skip cs
  | 0, '*' :: cs => .many :: items 0 cs
  | 0, '?' :: cs => .one :: items 0 cs
  | 0, '[' :: cs =>
      match setText? cs with
      | some set => setItem set :: items (set.length + 1) cs
      | none => .char '[' :: items 0 cs
  | 0, c :: cs => .char c :: items 0 cs

def suffixes : List Char → List (List Char)
  | [] => [[]]
  | c :: cs => (c :: cs) :: suffixes cs

def rests (left : List (List Char)) : Item → List (List Char)
  | .many =>
      match left with
      | [] => []
      | longest :: _ => suffixes longest
  | i => left.filterMap fun
      | [] => none
      | c :: cs => if i.accepts c then some cs else none

def fits (is : List Item) (name : List Char) : Bool := (is.foldl rests [name]).contains []

def isPattern (cs : List Char) : Bool := cs.any fun c => c = '*' || c = '?' || c = '['

def isHidden (cs : List Char) : Bool := cs.head? == some '.'

def splitLast (cs : List Char) : List Char × List Char :=
  let last := (cs.reverse.takeWhile (· ≠ '/')).reverse
  let head := cs.take (cs.length - last.length)
  let folder := (head.reverse.dropWhile (· = '/')).reverse
  (if folder.isEmpty then head else folder, last)

def join (folder name : List Char) : List Char :=
  if folder.isEmpty || folder.getLast? = some '/' then folder ++ name
  else folder ++ '/' :: name

end Pattern

namespace Place
open Pattern

def fitting (p : Place) (folder pattern : List Char) (foldersOnly : Bool) :
    Except Fault (List (List Char)) :=
  if folder.contains '\x00' then .error .nulInName
  else
    let names := p.namesIn (if folder.isEmpty then "." else String.ofList folder)
    .ok <| (names.map String.toList).filter fun name =>
      (isHidden pattern || !isHidden name) && fits (items 0 pattern) name &&
        (!foldersOnly || p.isFolder (String.ofList (Pattern.join folder name)))

def lastPart (p : Place) (folder pattern : List Char) (foldersOnly : Bool) :
    Except Fault (List (List Char)) :=
  if isPattern pattern then p.fitting folder pattern foldersOnly
  else
    let found :=
      if pattern.isEmpty then p.isFolder (String.ofList folder)
      else p.isListed (String.ofList (Pattern.join folder pattern))
    .ok (if found then [pattern] else [])

def expand (p : Place) (pattern : List Char) (foldersOnly : Bool) :
    Except Fault (List (List Char)) :=
  let folder := (splitLast pattern).1
  let last := (splitLast pattern).2
  if folder.isEmpty then p.fitting [] last foldersOnly
  else do
    let folders ←
      if isPattern folder then
        if folder.length < pattern.length then p.expand folder true else pure []
      else pure [folder]
    let found ← folders.mapM fun folder => do
      return (← p.lastPart folder last foldersOnly).map (Pattern.join folder)
    return found.flatten
termination_by pattern.length

end Place

end Acceptor
