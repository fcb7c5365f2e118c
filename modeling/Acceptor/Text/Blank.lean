namespace Acceptor.Text

/-- White space as Unicode counts it, the four information separators included. -/
def isBlank (c : Char) : Bool :=
  let n := c.toNat
  (9 ≤ n && n ≤ 13) || (28 ≤ n && n ≤ 32) || n == 0x85 || n == 0xa0 || n == 0x1680 ||
    (0x2000 ≤ n && n ≤ 0x200a) || n == 0x2028 || n == 0x2029 || n == 0x202f || n == 0x205f ||
    n == 0x3000

def trim (blank : Char → Bool) (cs : List Char) : List Char :=
  ((cs.dropWhile blank).reverse.dropWhile blank).reverse

def strip (s : String) : String := String.ofList (trim isBlank s.toList)

def partsBetween (separates : Char → Bool) (part : List Char) : List Char → List String
  | [] => if part.isEmpty then [] else [String.ofList part.reverse]
  | c :: cs =>
      if separates c then
        if part.isEmpty then partsBetween separates [] cs
        else String.ofList part.reverse :: partsBetween separates [] cs
      else partsBetween separates (c :: part) cs

def blankSeparated (s : String) : List String := partsBetween isBlank [] s.toList

end Acceptor.Text
