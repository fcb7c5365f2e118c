namespace Acceptor.Text

def fill (width : Nat) (line : String) : List String → List String
  | [] => [line]
  | w :: ws =>
      if line.length + 1 + w.length ≤ width then fill width (line ++ " " ++ w) ws
      else line :: fill width w ws

def wrap (width : Nat) (text : String) : List String :=
  match (text.splitOn " ").filter (· ≠ "") with
  | [] => []
  | w :: ws => fill width w ws

def padRight (width : Nat) (s : String) : String := s.pushn ' ' (width - s.length)

end Acceptor.Text
