import Acceptor.Host
import Acceptor.Text.Blank

namespace Acceptor

structure Place where
  disk : Disk
  folder : Path

namespace Place

/-- In bytes. -/
def maxPart : Nat := 255

def maxName : Nat := 4095

def isAbsolute (name : String) : Bool := name.toList.head? == some '/'

def asksFolder (name : String) : Bool := name.toList.getLast? == some '/'

def parts (name : String) : List String := Text.partsBetween (· = '/') [] name.toList

def enter (d : Disk) (here : Path) (part : String) : Except FileError Path :=
  match d.node? here with
  | none => .error .notFound
  | some .folder =>
      if part = "." then .ok here
      else if part = ".." then .ok here.dropLast
      else if maxPart < part.utf8ByteSize then .error .nameTooLong
      else match d.follow Disk.maxLinks (here ++ [part]) with
        | none => .error .tooManyLinks
        | some there => if (d.node? there).isSome then .ok there else .error .notFound
  | some _ => .error .notFolder

def root (p : Place) (name : String) : Except FileError Path :=
  if name = "" then .error .notFound
  else if maxName < name.utf8ByteSize then .error .nameTooLong
  else .ok (if isAbsolute name then [] else p.folder)

def locate (p : Place) (name : String) : Except FileError Path := do
  let found ← (parts name).foldlM (enter p.disk) (← p.root name)
  if asksFolder name && p.disk.node? found != some .folder then throw .notFolder
  return found

def isFolder (p : Place) (name : String) : Bool :=
  match p.locate name with
  | .ok found => p.disk.node? found == some .folder
  | .error _ => false

def isThere (p : Place) (name : String) : Bool := (p.locate name).isOk

def file (p : Place) (name : String) : Except FileError Path := do
  let found ← p.locate name
  match p.disk.node? found with
  | some (.file _) => return found
  | some _ => throw .isFolder
  | none => throw .notFound

/-- The path that the name has in its folder, or would have. A link there is not followed. -/
def entry (p : Place) (name : String) : Except FileError Path := do
  let start ← p.root name
  match (parts name).getLast? with
  | none => throw .isFolder
  | some last =>
      let parent ← (parts name).dropLast.foldlM (enter p.disk) start
      if last = "." || last = ".." then
        discard <| enter p.disk parent last
        throw .isFolder
      match p.disk.node? parent with
      | none => throw .notFound
      | some .folder =>
          if asksFolder name then throw .isFolder
          if maxPart < last.utf8ByteSize then throw .nameTooLong
          return parent ++ [last]
      | some _ => throw .notFolder

def target (p : Place) (name : String) : Except FileError Path := do
  let entry ← p.entry name
  match p.disk.follow Disk.maxLinks entry with
  | none => throw .tooManyLinks
  | some path =>
      if p.disk.node? path = some .folder then throw .isFolder
      match p.disk.node? path.dropLast with
      | none => throw .notFound
      | some .folder => return path
      | some _ => throw .notFolder

def isListed (p : Place) (name : String) : Bool :=
  p.isThere name ||
    match p.entry name with
    | .ok path => (p.disk.node? path).isSome
    | .error _ => false

def unlink (p : Place) (name : String) : Place :=
  match p.entry name with
  | .ok path => { p with disk := p.disk.remove path }
  | .error _ => p

def goTo (p : Place) (name : String) : Except FileError Path := do
  let found ← p.locate name
  if p.disk.node? found = some .folder then return found else throw .notFolder

def namesIn (p : Place) (name : String) : List String :=
  match p.locate name with
  | .ok found => if p.disk.node? found = some .folder then p.disk.names found else []
  | .error _ => []

def withoutLastSlashes (name : String) : List Char :=
  (name.toList.reverse.dropWhile (· = '/')).reverse

def expandHome [Host] (name : String) : Except Fault String :=
  match name.toList with
  | '~' :: cs =>
      let user := cs.takeWhile (· ≠ '/')
      if user.contains '\x00' then .error .nulInName
      else match Host.home? (String.ofList user) with
        | none => .ok name
        | some home =>
            let expanded := withoutLastSlashes home ++ cs.dropWhile (· ≠ '/')
            .ok (if expanded.isEmpty then "/" else String.ofList expanded)
  | _ => .ok name

def holdsNul (name : String) : Bool := name.toList.contains '\x00'

end Place

end Acceptor
