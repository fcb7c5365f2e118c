namespace Acceptor.Text

inductive SplitError
  | openQuotation
  | openEscape
  deriving DecidableEq, Repr

def SplitError.message : SplitError → String
  | .openQuotation => "No closing quotation"
  | .openEscape => "No escaped character"

inductive Quoting
  | gap
  | bare
  | single
  | double
  | bareEscape
  | doubleEscape
  deriving DecidableEq, Repr

def separatesWords (c : Char) : Bool := c = ' ' || c = '\t' || c = '\r' || c = '\n'

/-- Splits as a POSIX shell quotes: a backslash takes the next character as it is, apostrophes take
everything, and between double quotes a backslash takes only a double quote or itself. `word`
holds the current word, reversed. -/
def scanWords : Quoting → (word : List Char) → List Char → Except SplitError (List String)
  | .gap, _, [] => .ok []
  | .bare, word, [] => .ok [String.ofList word.reverse]
  | .single, _, [] | .double, _, [] => .error .openQuotation
  | .bareEscape, _, [] | .doubleEscape, _, [] => .error .openEscape
  | .gap, _, c :: cs =>
      if separatesWords c then scanWords .gap [] cs
      else if c = '\'' then scanWords .single [] cs
      else if c = '"' then scanWords .double [] cs
      else if c = '\\' then scanWords .bareEscape [] cs
      else scanWords .bare [c] cs
  | .bare, word, c :: cs =>
      if separatesWords c then do return String.ofList word.reverse :: (← scanWords .gap [] cs)
      else if c = '\'' then scanWords .single word cs
      else if c = '"' then scanWords .double word cs
      else if c = '\\' then scanWords .bareEscape word cs
      else scanWords .bare (c :: word) cs
  | .single, word, c :: cs =>
      if c = '\'' then scanWords .bare word cs else scanWords .single (c :: word) cs
  | .double, word, c :: cs =>
      if c = '"' then scanWords .bare word cs
      else if c = '\\' then scanWords .doubleEscape word cs
      else scanWords .double (c :: word) cs
  | .bareEscape, word, c :: cs => scanWords .bare (c :: word) cs
  | .doubleEscape, word, c :: cs =>
      if c = '"' || c = '\\' then scanWords .double (c :: word) cs
      else scanWords .double (c :: '\\' :: word) cs

def splitWords (line : String) : Except SplitError (List String) := scanWords .gap [] line.toList

def needsNoQuote (c : Char) : Bool :=
  c.isAlphanum || c = '_' || c = '@' || c = '%' || c = '+' || c = '=' || c = ':' || c = ',' ||
    c = '.' || c = '/' || c = '-'

def quoteWordChars (cs : List Char) : List Char :=
  if !cs.isEmpty && cs.all needsNoQuote then cs
  else '\'' :: cs.flatMap (fun c => if c = '\'' then "'\"'\"'".toList else [c]) ++ ['\'']

def quoteWord (s : String) : String := String.ofList (quoteWordChars s.toList)

end Acceptor.Text
