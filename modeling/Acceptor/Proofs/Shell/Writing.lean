import Acceptor.Proofs.Shell.Failure
import Acceptor.Proofs.Table.Script

namespace Acceptor
open Session

inductive Command.Writes : Command → Prop
  | save {file} : Writes (.save file)
  | draw {file viewer} : Writes (.draw file viewer)

def Command.written? (s : Session) : Command → Option (String × Written)
  | .save file => (named file).map (·, s.table.script)
  | .draw file _ => (named file).map (·, ⟨s.table.dot, none⟩)
  | _ => none

theorem Session.settle_session {s : Session} (caught : Fault → Bool) (f : Option Fault) :
    (s.settle caught f).session = s := by
  unfold settle
  cases f with
  | none => rfl
  | some f =>
      simp only
      split <;> rfl

section

variable [Host]

/-- The command opens a file that is there, and what it is to hold does not all reach it. -/
def Command.Overwrites (s : Session) (c : Command) (path : Path) : Prop :=
  ∃ file w name, c.written? s = some (file, w) ∧ s.Opens file name path ∧
    (∃ text, s.place.disk.node? path = some (.file text)) ∧
    (delivered w s.place.disk path).fault ≠ none

/-- The command opens a new file through a link that led nowhere. -/
def Command.Dangles (s : Session) (c : Command) : Prop :=
  ∃ file w name path entry, c.written? s = some (file, w) ∧ s.Opens file name path ∧
    s.place.entry name = .ok entry ∧ entry ≠ path ∧ s.place.disk.node? path = none

open Text in
inductive Command.Left (s : Session) (path : Path) : Command → String → Prop
  | unsavable {file before e} (first : Table.FirstUnsavable s.table.edges before e) :
      Left s path (.save file)
        (unlines (s.table.stateLines ++ before.map fun e => lineOf (Table.edgeWords e)))
  | broken {c : Command} {file w b} (writes : c.written? s = some (file, w))
      (breaks : Host.break? s.place.disk path w.text = some b) :
      Left s path c (String.ofList (w.text.toList.take b.arrived))

namespace Session

variable {s : Session} {c : Command} {play : Player} {file : String} {path : Path} {w : Written}

theorem Opens.unique {name name' : String} {path' : Path} (h : s.Opens file name path)
    (h' : s.Opens file name' path') : name = name' ∧ path = path' := by
  obtain rfl : name = name' := Except.ok.inj (h.expanded.symm.trans h'.expanded)
  exact ⟨rfl, Except.ok.inj (h.target.symm.trans h'.target)⟩

theorem overwrites_of_written (overwrites : c.Overwrites s path)
    (written : c.written? s = some (file, w)) :
    (∃ name, s.Opens file name path) ∧ (∃ text, s.place.disk.node? path = some (.file text)) ∧
      (delivered w s.place.disk path).fault ≠ none := by
  obtain ⟨file', w', name, written', opens, isFile, fault⟩ := overwrites
  rw [written] at written'
  obtain ⟨rfl, rfl⟩ := Prod.mk.inj (Option.some.inj written')
  exact ⟨⟨name, opens⟩, isFile, fault⟩

theorem perform_of_written (play : Player) (written : c.written? s = some (file, w)) :
    ∃ caught, s.perform play c = (s.write file w).1.settle caught (s.write file w).2 := by
  cases c with
  | save named =>
      obtain ⟨name, isNamed, same⟩ := Option.map_eq_some_iff.1 written
      obtain ⟨rfl, rfl⟩ := Prod.mk.inj same
      exact ⟨_, by simp only [perform, save, isNamed]; rfl⟩
  | draw named viewer =>
      obtain ⟨name, isNamed, same⟩ := Option.map_eq_some_iff.1 written
      obtain ⟨rfl, rfl⟩ := Prod.mk.inj same
      exact ⟨_, by simp only [perform, draw, isNamed]; rfl⟩
  | _ => cases written

theorem session_of_unwritten (writes : c.Writes) (unwritten : c.written? s = none) :
    (s.perform play c).session = s := by
  cases writes with
  | save =>
      have unnamed := Option.map_eq_none_iff.1 unwritten
      simp only [perform, save, unnamed]
      cases s.table.script.fault <;> rfl
  | draw =>
      have unnamed := Option.map_eq_none_iff.1 unwritten
      simp only [perform, draw, unnamed]
      split <;> rfl

def Leaves (s : Session) (c : Command) (s' : Session) : Prop :=
  (∃ path file w, c.Overwrites s path ∧ c.written? s = some (file, w) ∧
      s' = s.withDisk (s.place.disk.put path (.file (delivered w s.place.disk path).text))) ∨
    (∀ path, ¬ c.Overwrites s path) ∧ s' = s

theorem leaves_write (written : c.written? s = some (file, w)) (leads : ¬ c.Dangles s)
    (fails : (s.write file w).2 ≠ none) : s.Leaves c (s.write file w).1 := by
  have how := wrote s file w
  generalize s.write file w = r at how fails
  cases how with
  | nul nul =>
      refine .inr ⟨fun path overwrites => ?_, rfl⟩
      obtain ⟨⟨name, opens⟩, -⟩ := overwrites_of_written overwrites written
      rw [← Place.holdsNul_expandHome opens.expanded, opens.noNul] at nul
      cases nul
  | unopened expanded refused =>
      refine .inr ⟨fun path overwrites => ?_, rfl⟩
      obtain ⟨⟨name, opens⟩, -⟩ := overwrites_of_written overwrites written
      obtain rfl := Except.ok.inj (expanded.symm.trans opens.expanded)
      rw [opens.target] at refused
      cases refused
  | whole => exact absurd rfl fails
  | @kept name path f opens fault there =>
      obtain ⟨-, -, -, writable⟩ := Place.target_eq_ok opens.target
      have isFile : ∃ text, s.place.disk.node? path = some (.file text) := by
        refine writable.node?.resolve_left fun missing => ?_
        rw [missing] at there
        cases there
      refine .inl ⟨path, file, w, ⟨file, w, name, written, opens, isFile, ?_⟩, written, rfl⟩
      rw [fault]
      nofun
  | @removed name path entry f opens fault missing isEntry =>
      -- the name is no link, so what is removed is what was made
      obtain rfl : entry = path := by
        by_contra link
        exact leads ⟨file, w, name, path, entry, written, opens, isEntry, link, missing⟩
      refine .inr ⟨fun other overwrites => ?_, ?_⟩
      · obtain ⟨⟨name', opens'⟩, ⟨text, isFile⟩, -⟩ := overwrites_of_written overwrites written
        obtain ⟨-, rfl⟩ := opens.unique opens'
        rw [missing] at isFile
        cases isFile
      · rw [Disk.remove_put missing]
        rfl

theorem leaves_of_writes (writes : c.Writes) (leads : ¬ c.Dangles s)
    (error : (s.perform play c).TellsError ∨ (s.perform play c).outcome ≠ .done) :
    s.Leaves c (s.perform play c).session := by
  cases written : c.written? s with
  | none =>
      refine .inr ⟨fun path overwrites => ?_, session_of_unwritten writes written⟩
      obtain ⟨file, w, name, written', -⟩ := overwrites
      rw [written] at written'
      cases written'
  | some what =>
      obtain ⟨file, w⟩ := what
      obtain ⟨caught, performed⟩ := perform_of_written play written
      rw [performed] at error ⊢
      rw [settle_session]
      refine leaves_write written leads fun whole => ?_
      rw [whole] at error
      rcases error with (failed | ⟨message, told⟩) | ended
      · cases failed
      · cases told
      · exact ended rfl

theorem left_of_overwrites (overwrites : c.Overwrites s path) (written : c.written? s = some (file, w)) :
    c.Left s path (delivered w s.place.disk path).text := by
  obtain ⟨-, -, fault⟩ := overwrites_of_written overwrites written
  cases breaks : Host.break? s.place.disk path w.text with
  | some b =>
      have text : (delivered w s.place.disk path).text =
          String.ofList (w.text.toList.take b.arrived) := by simp only [delivered, breaks]
      rw [text]
      exact .broken written breaks
  | none =>
      rw [delivered_of_unbroken breaks] at fault ⊢
      cases c with
      | save named =>
          obtain ⟨_, -, same⟩ := Option.map_eq_some_iff.1 written
          obtain ⟨rfl, rfl⟩ := Prod.mk.inj same
          obtain ⟨f, isFault⟩ := Option.ne_none_iff_exists'.1 fault
          obtain ⟨before, e, first, -, lines⟩ := Table.writable_of_fault isFault
          have text : s.table.script.text =
              Text.unlines (s.table.stateLines ++ before.map fun e => Text.lineOf (Table.edgeWords e)) :=
            congrArg (fun lines => Text.unlines (s.table.stateLines ++ lines)) lines
          rw [text]
          exact .unsavable first
      | draw named viewer =>
          obtain ⟨_, -, same⟩ := Option.map_eq_some_iff.1 written
          obtain ⟨rfl, rfl⟩ := Prod.mk.inj same
          exact absurd rfl fault
      | _ => cases written

end Session

/-- A command that writes the table and tells of an error, or ends everything, neither makes a file nor
removes one, and every file keeps its text. Only a file that was there, and was opened before the writing
stopped, is left with what had reached it. -/
theorem files_of_error (s : Session) (play : Player) (text : String)
    (writes : ∀ c, commandOf? text = some c → c.Writes ∧ ¬ c.Dangles s)
    (error : (s.line play text).TellsError ∨ (s.line play text).outcome ≠ .done) :
    let s' := (s.line play text).session
    (∀ path, (s'.place.disk.node? path).isSome = (s.place.disk.node? path).isSome) ∧
      ((∀ c path, commandOf? text = some c → ¬ c.Overwrites s path) → s' = s) ∧
      ∀ c path, commandOf? text = some c → c.Overwrites s path →
        (∀ other, other ≠ path → s'.place.disk.node? other = s.place.disk.node? other) ∧
          ∃ left, c.Left s path left ∧ s'.place.disk.node? path = some (.file left) := by
  intro s'
  cases command : commandOf? text with
  | none =>
      have same : s' = s := session_of_none command
      rw [same]
      exact ⟨fun _ => rfl, fun _ => rfl, nofun⟩
  | some c =>
      have performed : s.line play text = s.perform play c := line_of_command command
      have leaves : s.Leaves c s' := by
        simp only [s', performed] at error ⊢
        exact leaves_of_writes (writes c command).1 (writes c command).2 error
      rcases leaves with ⟨path, file, w, overwrites, written, left⟩ | ⟨none, same⟩
      · obtain ⟨⟨name, opens⟩, isFile, -⟩ := overwrites_of_written overwrites written
        obtain ⟨-, -, -, writable⟩ := Place.target_eq_ok opens.target
        have node : ∀ other, s'.place.disk.node? other =
            if other = path then some (.file (delivered w s.place.disk path).text)
            else s.place.disk.node? other := fun other =>
          left ▸ Disk.node?_put writable.ne_nil
        refine ⟨fun other => ?_, fun none => absurd overwrites (none c path rfl), ?_⟩
        · rw [node other]
          split
          · rename_i own
            obtain ⟨old, isFile⟩ := isFile
            rw [own, isFile]
            rfl
          · rfl
        · intro c' path' isCommand overwrites'
          obtain rfl := Option.some.inj isCommand
          obtain ⟨⟨name', opens'⟩, -⟩ := overwrites_of_written overwrites' written
          obtain ⟨-, rfl⟩ := opens.unique opens'
          exact ⟨fun other away => (node other).trans (if_neg away), _,
            left_of_overwrites overwrites written, (node path).trans (if_pos rfl)⟩
      · rw [same]
        refine ⟨fun _ => rfl, fun _ => rfl, fun c' path isCommand overwrites => ?_⟩
        obtain rfl := Option.some.inj isCommand
        exact absurd overwrites (none path)

end

def unsavableTable : Table :=
  { states := #[{ edges := [⟨.charClass .any, 0⟩, ⟨.digits "isdigit", 0⟩] }] }

theorem files_of_error_unsavable :
    let _ : Host := .usual
    let s : Session := ⟨unsavableTable, ⟨({} : Disk).put ["f"] (.file "example\n"), []⟩⟩
    let s' := (s.enter 1 "save f").session
    (commandOf? "save f" = some (.save (some "f")) ∧ (s.enter 1 "save f").TellsError ∧
        (Command.save (some "f")).Overwrites s ["f"]) ∧
      (s'.place.disk.node? ["g"]).isSome = (s.place.disk.node? ["g"]).isSome ∧
      ∃ left, (Command.save (some "f")).Left s ["f"] left ∧
        s'.place.disk.node? ["f"] = some (.file left) := by
  intro host s s'
  have command : commandOf? "save f" = some (.save (some "f")) := by decide +kernel
  have target : s.place.target "f" = .ok ["f"] := by decide +kernel
  have opens : s.Opens "f" "f" ["f"] := ⟨by decide, by decide, target⟩
  have isFile : s.place.disk.node? ["f"] = some (.file "example\n") := rfl
  have writes : ∀ c, commandOf? "save f" = some c → c.Writes ∧ ¬ c.Dangles s := by
    intro c isCommand
    rw [command] at isCommand
    obtain rfl := Option.some.inj isCommand
    refine ⟨.save, ?_⟩
    rintro ⟨file, w, name, path, entry, written, opens', -, -, missing⟩
    obtain ⟨rfl, -⟩ := Prod.mk.inj (Option.some.inj written)
    obtain ⟨-, rfl⟩ := opens.unique opens'
    rw [isFile] at missing
    cases missing
  have error : (s.enter 1 "save f").TellsError := .inl (by decide +kernel)
  have overwrites : (Command.save (some "f")).Overwrites s ["f"] :=
    ⟨"f", s.table.script, "f", rfl, opens, ⟨_, isFile⟩, by decide +kernel⟩
  obtain ⟨kept, -, left⟩ := files_of_error s _ "save f" writes (.inl error)
  exact ⟨⟨command, error, overwrites⟩, kept ["g"], (left _ _ command overwrites).2⟩

example :
    let _ : Host := { Host.usual with break? := fun _ _ _ => some ⟨4, .system 28 "No space left"⟩ }
    let s : Session := ⟨{}, ⟨({} : Disk).put ["f"] (.file "example\n"), []⟩⟩
    (s.enter 1 "output f").events = [.err "[Errno 28] No space left\n"] ∧
      (s.enter 1 "output f").session.place.disk.text ["f"] = "digr" := by
  decide +kernel

theorem failed_save_over_file :
    let _ : Host := .usual
    let s : Session := ⟨unsavableTable, ⟨({} : Disk).put ["f"] (.file "example\n"), []⟩⟩
    (s.enter 1 "save f").outcome = .failed ∧ s.place.disk.text ["f"] = "example\n" ∧
      (s.enter 1 "save f").session.place.disk.text ["f"] =
        "new\nstate\nstart 0\nedge 0 0 .\n" := by
  decide +kernel

end Acceptor
