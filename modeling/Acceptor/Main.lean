import Acceptor.Shell.Program

/-!
The program on the files of the current folder. Before a line is played, the files that its words
name are read, and afterwards those that it changed are written.
-/

namespace Acceptor.Main

def homeOf (home : Option String) (user : String) : Option String :=
  if user = "" then home.filter fun home => !Place.holdsNul home else none

theorem noNul_of_homeOf (home : Option String) (user path : String)
    (isHome : homeOf home user = some path) : '\x00' ∉ path.toList := by
  rw [homeOf] at isHome
  split at isHome
  · obtain ⟨-, clean⟩ := Option.filter_eq_some_iff.mp isHome
    simpa [Place.holdsNul] using clean
  · cases isHome

@[reducible]
def hostOf (home : Option String) : Host :=
  { Host.usual with home? := homeOf home, noNul := noNul_of_homeOf home }

/-- How deep files play files before the interpreter gives up. -/
def maxDepth : Nat := 490

section

variable [Host]

def pathsOf (p : Place) (name : String) : List Path :=
  let parts := Place.parts ((Place.expandHome name).toOption.getD name)
  let steps := parts.foldl (fun (done : List Path) part =>
    let here := done.getLastD p.folder
    done ++ [if part = "." then here else if part = ".." then here.dropLast else here ++ [part]]) []
  steps.filter (· ≠ [])

def wordsOf (line : String) : List String := (Text.splitWords (Text.strip line)).toOption.getD []

def folderCode : UInt32 := 21

def probe (path : Path) : IO (Option Node) := do
  try
    return some (.file (← IO.FS.readFile (String.intercalate "/" path)))
  catch
    | .inappropriateType _ code _ => return if code = folderCode then some .folder else none
    | _ => return none

partial def readAhead (s : Session) (line : String) : IO Session := do
  let mut s := s
  for word in wordsOf line do
    for path in pathsOf s.place word do
      if (s.place.disk.node? path).isNone then
        match ← probe path with
        | none => pure ()
        | some node =>
            s := s.withDisk (s.place.disk.put path node)
            match node with
            | .folder | .link _ => pure ()
            | .file text =>
                for inner in Text.linesOf text do
                  s ← readAhead s inner
  return s

def writeChanges (earlier later : Disk) : IO Unit := do
  for (path, node) in later.nodes do
    match node with
    | .file text =>
        if earlier.node? path ≠ some node then
          IO.FS.writeFile (String.intercalate "/" path) text
    | .folder | .link _ => pure ()

def present (debug : Bool) (e : Event) : IO Unit := do
  match e with
  | .out text => IO.print text; (← IO.getStdout).flush
  | .err text => IO.eprint text
  | .log entry => if entry.isShown debug then IO.eprintln entry.line

def finish (debug : Bool) (r : Report) : IO (Option UInt32) := do
  r.events.forM (present debug)
  match r.outcome with
  | .done | .failed => return none
  | .quit => return some 0
  | .escaped f => IO.eprintln f.message; return some 1

partial def loop (debug terminal : Bool) (s : Session) : IO UInt32 := do
  if terminal then present debug (.out Invocation.promptText)
  let line ← (← IO.getStdin).getLine
  if line.isEmpty then
    if terminal then present debug (.out "\n")
    return 0
  let s ← readAhead s line
  let r := s.enter maxDepth line
  writeChanges s.place.disk r.session.place.disk
  match ← finish debug r with
  | some code => return code
  | none => loop debug terminal r.session

end

def run (arguments : List String) : IO UInt32 := do
  let _ : Host := hostOf (← IO.getEnv "HOME")
  let i : Invocation := { arguments }
  if i.asksHelp then
    IO.print Invocation.usage
    return 0
  let s ← readAhead (Session.start { disk := {}, folder := [] }) Invocation.startupFile
  let loaded := Invocation.startUp s maxDepth
  writeChanges s.place.disk loaded.session.place.disk
  match ← finish i.debugs loaded with
  | some code => return code
  | none => loop i.debugs (← (← IO.getStdin).isTty) loaded.session

end Acceptor.Main

def main (arguments : List String) : IO UInt32 := Acceptor.Main.run arguments
