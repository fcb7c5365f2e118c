import Acceptor.Files.Reader
import Acceptor.Shell.Session

/-!
The lines of a script, played one after the other. A line may play a file in turn, so this is defined
for a depth to which files may play files. A file is read while its lines are played, and what they
write to it is read too.
-/

namespace Acceptor

structure Transcript where
  reports : List Report := []
  outcome : Outcome := .done

namespace Transcript

def session (t : Transcript) (s : Session) : Session :=
  (t.reports.getLast?.map Report.session).getD s

def events (t : Transcript) : List Event := t.reports.flatMap Report.events

def report (t : Transcript) (s : Session) : Report := ⟨t.session s, t.events, t.outcome⟩

def play (act : Session → String → Report) (exitFirst : Bool) (s : Session) :
    List String → Transcript
  | [] => {}
  | text :: rest =>
      let r := act s text
      if r.outcome.goesOn exitFirst then
        let more := play act exitFirst r.session rest
        ⟨r :: more.reports, more.outcome⟩
      else ⟨[r], r.outcome⟩

end Transcript

namespace Session

def playFile (act : Session → String → Report) : (turns : Nat) → Reader → Session → Report
  | 0, _, s => ⟨s, [], .done⟩
  | turns + 1, reader, s =>
      match reader.line? s.place.disk with
      | .error e => s.escape (.notText e)
      | .ok none => ⟨s, [], .done⟩
      | .ok (some (text, reader)) =>
          let r := act s text
          if r.outcome.goesOn true then (playFile act turns reader r.session).after r.events else r

/-- In bytes. A reader only goes forward, so there are no more lines than that. -/
def maxFileSize : Nat := 0x7FFFFFFFFFFFFFFF

variable [Host]

def player : (depth : Nat) → Player
  | 0 => fun _ s => s.escape .tooDeep
  | depth + 1 => fun path s =>
      playFile (line (player depth)) (max maxFileSize (s.place.disk.text path).utf8ByteSize) { path } s

def enter (depth : Nat) (s : Session) (text : String) : Report := s.line (player depth) text

def play (s : Session) (depth : Nat) (exitFirst : Bool) (lines : List String) : Transcript :=
  Transcript.play (enter depth) exitFirst s lines

end Session

end Acceptor
