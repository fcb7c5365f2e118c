namespace Acceptor

abbrev Path := List String

inductive Node
  | folder
  | file (text : String)
  | link (dest : Path)
  deriving DecidableEq, Repr

structure Disk where
  nodes : List (Path × Node) := []
  deriving DecidableEq, Repr

namespace Disk

def node? (d : Disk) (p : Path) : Option Node :=
  if p = [] then some .folder else d.nodes.lookup p

def putIn (p : Path) (n : Node) : List (Path × Node) → List (Path × Node)
  | [] => [(p, n)]
  | (q, m) :: rest => if q = p then (p, n) :: rest else (q, m) :: putIn p n rest

def put (d : Disk) (p : Path) (n : Node) : Disk := ⟨putIn p n d.nodes⟩

def remove (d : Disk) (p : Path) : Disk := ⟨d.nodes.filter fun entry => entry.1 ≠ p⟩

def text (d : Disk) (p : Path) : String :=
  match d.node? p with
  | some (.file text) => text
  | _ => ""

def follow (d : Disk) : (links : Nat) → Path → Option Path
  | 0, p =>
      match d.node? p with
      | some (.link _) => none
      | _ => some p
  | links + 1, p =>
      match d.node? p with
      | some (.link dest) => d.follow links dest
      | _ => some p

def maxLinks : Nat := 40

def isFolder (d : Disk) (p : Path) : Bool :=
  match d.follow maxLinks p with
  | some there => d.node? there == some .folder
  | none => false

def childName? (p : Path) (q : Path) : Option String :=
  match q.getLast? with
  | some name => if q.dropLast = p then some name else none
  | none => none

def names (d : Disk) (p : Path) : List String := d.nodes.filterMap fun (q, _) => childName? p q

def addFolder (d : Disk) (p : Path) : Disk :=
  (List.range p.length).foldl (fun d k =>
    let q := p.take (k + 1)
    if (d.node? q).isSome then d else d.put q .folder) d

def addFile (d : Disk) (p : Path) (text : String) : Disk :=
  (d.addFolder p.dropLast).put p (.file text)

end Disk

end Acceptor
