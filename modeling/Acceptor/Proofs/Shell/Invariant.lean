import Acceptor.Proofs.Shell.Perform
import Acceptor.Proofs.Shell.Play

namespace Acceptor.Session

theorem sound_setAccepting [Memory] {t u : Table} {states : List Int} {accepting : Bool} (h : t.Sound)
    (marked : states.foldlM (fun t state => t.markFinal state accepting) t = .ok u) : u.Sound :=
  foldlM_kept (fun _ _ _ h marked => Table.Sound.markFinal h marked) h marked

theorem sound_of_change [Memory] {t u : Table} {c : Command} (h : t.Sound) (change : t.Change c u) :
    u.Sound := by
  cases change with
  | clear => exact h.reset
  | loadExample => exact h.loadExample
  | addStates more fits => exact h.addStates (by omega) (by omega) _ _
  | setStart set => exact h.setStart set
  | setAccepting marked => exact sound_setAccepting h marked
  | addEdge parsed added =>
      obtain ⟨wellFormed, plural⟩ := CharClass.parse_wellFormed parsed
      exact h.addEdge ⟨_, rfl, wellFormed, plural⟩ added
  | configure positive =>
      rename_i capacity strict
      cases capacity with
      | none => exact h.configure h.capacity_pos _
      | some n => exact h.configure (positive n rfl) _

variable {I : Session → Prop} {s : Session}

theorem playFile_kept {act : Session → String → Report}
    (lines : ∀ s text, I s → I (act s text).session) (turns : Nat) (reader : Reader) (h : I s) :
    I (playFile act turns reader s).session := by
  induction turns generalizing reader s with
  | zero => exact h
  | succ turns ih =>
      unfold playFile
      cases reader.line? s.place.disk with
      | error e => exact h
      | ok found =>
          cases found with
          | none => exact h
          | some found =>
              have after := lines s found.1 h
              simp only
              split
              · exact ih found.2 after
              · exact after

variable [Host] {play : Player}

def KeptByCommands (I : Session → Prop) : Prop :=
  ∀ (s : Session) (c : Command) (play : Player), (∀ files, c ≠ .source files) → I s →
    I (s.perform play c).session

def KeptByPlayer (I : Session → Prop) (play : Player) : Prop :=
  ∀ path s, I s → I (play path s).session

theorem source_kept (files : KeptByPlayer I play) (names : List String) (h : I s) :
    I (s.source play names).session := by
  induction names generalizing s with
  | nil => exact h
  | cons name names ih =>
      unfold source
      cases Place.expandHome name with
      | error f => exact h
      | ok name =>
          simp only
          split
          · exact h
          · cases s.place.file name with
            | error e => exact h
            | ok path =>
                have after := files path s h
                simp only
                cases (play path s).outcome with
                | quit | escaped f => exact after
                | done | failed => exact ih after

theorem perform_kept (commands : KeptByCommands I) (files : KeptByPlayer I play) (c : Command)
    (h : I s) : I (s.perform play c).session := by
  by_cases plays : ∃ names, c = .source names
  · obtain ⟨names, rfl⟩ := plays
    exact source_kept files names h
  · exact commands s c play (fun names e => plays ⟨names, e⟩) h

theorem line_kept (commands : KeptByCommands I) (files : KeptByPlayer I play) (text : String)
    (h : I s) : I (s.line play text).session := by
  unfold line
  simp only
  split
  · exact h
  · split
    · exact h
    · exact h
    · split
      · exact h
      · exact perform_kept commands files _ h

theorem player_kept (commands : KeptByCommands I) (depth : Nat) : KeptByPlayer I (player depth) := by
  induction depth with
  | zero => exact fun _ _ h => h
  | succ depth ih =>
      -- the lines of a file play files that go one level less deep
      intro path s h
      have lines : ∀ s text, I s → I (s.line (player depth) text).session :=
        fun _ text => line_kept commands ih text
      exact playFile_kept lines _ _ h

theorem enter_kept (commands : KeptByCommands I) (depth : Nat) (text : String) (h : I s) :
    I (s.enter depth text).session := line_kept commands (player_kept commands _) text h

theorem play_kept (commands : KeptByCommands I) (depth : Nat) (exitFirst : Bool)
    (lines : List String) (h : I s) : I ((s.play depth exitFirst lines).session s) :=
  Transcript.session_of_forall_reports h
    (Transcript.forall_reports (fun _ hs text _ => enter_kept commands depth text hs) h)

/-- Some lines lead to the session from the start, in a place with any files. -/
def Reachable (s : Session) : Prop :=
  ∃ place depth exitFirst lines,
    s = ((start place).play depth exitFirst lines).session (start place)

theorem Reachable.kept (h : s.Reachable) (commands : KeptByCommands I)
    (startKept : ∀ place, I (start place)) : I s := by
  obtain ⟨place, depth, exitFirst, lines, rfl⟩ := h
  exact play_kept commands depth exitFirst lines (startKept place)

theorem commands_sound : KeptByCommands fun s => s.table.Sound := by
  intro s c play noFiles h
  have did : c.Did s (s.perform play c) := perform_did h noFiles
  rcases did.table with same | ⟨change, -⟩
  · rw [same]
    exact h
  · exact sound_of_change h change

theorem sound_start (place : Place) : (start place).table.Sound := by
  have empty : ({} : Table).Sound :=
    Table.sound_of_edges (by simp) (by simp [Table.size]) (fun _ => rfl) (by decide) (Nat.zero_le _)
  exact empty.loadExample

theorem Reachable.sound (h : s.Reachable) : s.table.Sound := h.kept commands_sound sound_start

end Acceptor.Session
