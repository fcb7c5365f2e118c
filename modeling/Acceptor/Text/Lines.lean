namespace Acceptor.Text

def cutLines (line : List Char) : List Char → List String
  | [] => if line.isEmpty then [] else [String.ofList line.reverse]
  | '\r' :: '\n' :: cs => String.ofList line.reverse :: cutLines [] cs
  | c :: cs =>
      if c = '\n' || c = '\r' then String.ofList line.reverse :: cutLines [] cs
      else cutLines (c :: line) cs

def linesOf (text : String) : List String := cutLines [] text.toList

def cutInput (line : List Char) : List Char → List String
  | [] => if line.isEmpty then [] else [String.ofList line.reverse]
  | c :: cs =>
      if c = '\n' then String.ofList line.reverse :: cutInput [] cs else cutInput (c :: line) cs

def linesOfInput (text : String) : List String := cutInput [] text.toList

/-- Makes every line end a `\n`. The text may be a piece of a longer one, so a `\r` at its end is
held back until it is known whether a `\n` follows. -/
def unifyLineEnds : (held : Bool) → List Char → List Char × Bool
  | held, [] => ([], held)
  | held, c :: cs =>
      let isReturn := c = '\r'
      let rest := unifyLineEnds isReturn cs
      let here := if isReturn || (held && c = '\n') then [] else [c]
      ((if held then '\n' :: here else here) ++ rest.1, rest.2)

def unlines (lines : List String) : String := String.join (lines.map (· ++ "\n"))

end Acceptor.Text
