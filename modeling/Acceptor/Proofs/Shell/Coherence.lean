import Acceptor.Proofs.Shell.Turn
import Acceptor.Proofs.Visit.Overflow

namespace Acceptor

namespace Table

variable {t u : Table}

structure Coherent (t : Table) : Prop where
  flags : ∀ s : Nat, (∃ accepting, t.isFinal s = .ok accepting) ↔ s < t.size
  start : t.start < t.size ∨ t.size = 0 ∧ t.start = 0
  edges : ∀ e ∈ t.edges, e.1 < t.size ∧ e.2.dest < t.size ∧ e.2.predicate.IsRead
  capacity : 1 ≤ t.capacity

theorem Sound.coherent [Memory] (h : t.Sound) : t.Coherent where
  flags := isFinal_eq_ok_iff t
  start := by
    rcases Nat.eq_zero_or_pos t.size with empty | nonempty
    · exact .inr ⟨empty, h.wellFormed.start_eq empty⟩
    · exact .inl (h.wellFormed.start_lt nonempty)
  edges := by
    intro e he
    obtain ⟨st, hst, mem⟩ := mem_edges he
    have inside : e.1 < t.size := (Array.getElem?_eq_some_iff.1 hst).1
    exact ⟨inside, h.edges st (Array.mem_of_getElem? hst) e.2 mem⟩
  capacity := h.capacity_pos

structure SameStack (t u : Table) : Prop where
  capacity : u.capacity = t.capacity
  strict : u.strict = t.strict

theorem SameStack.refl (t : Table) : t.SameStack t := ⟨rfl, rfl⟩

theorem SameStack.trans {t u v : Table} (h : t.SameStack u) (k : u.SameStack v) : t.SameStack v :=
  ⟨k.capacity.trans h.capacity, k.strict.trans h.strict⟩

theorem sameStack_markFinal {s : Int} {final : Bool} (marked : t.markFinal s final = .ok u) :
    t.SameStack u := by
  unfold Table.markFinal at marked
  split at marked
  · cases marked
    exact ⟨rfl, rfl⟩
  · cases marked

theorem sameStack_of_change [Memory] {c : Command} (change : t.Change c u)
    (unset : ∀ capacity strict, c ≠ .configure capacity strict) : t.SameStack u := by
  cases change with
  | clear | loadExample | addStates => exact ⟨rfl, rfl⟩
  | setStart set =>
      unfold Table.setStart at set
      split at set
      · cases set
        exact ⟨rfl, rfl⟩
      · cases set
  | setAccepting marked =>
      exact foldlM_kept (fun _ _ _ same marked => same.trans (sameStack_markFinal marked)) (.refl t)
        marked
  | addEdge _ added =>
      unfold Table.addEdge at added
      split at added
      · cases added
        exact ⟨rfl, rfl⟩
      · cases added
  | configure => exact absurd rfl (unset _ _)

end Table

namespace Session
open Table

theorem sameStack_of_unset [Host] {t : Turn} (sound : t.session.table.Sound)
    (unset : ∀ u capacity strict, t.Plays u → commandOf? u.text = some (.configure capacity strict) →
      u.report.outcome ≠ .done) : t.session.table.SameStack t.report.session.table := by
  refine Turn.related_of_plays (R := fun s s' => s.table.SameStack s'.table) (fun s => .refl _)
    (fun _ _ _ => SameStack.trans) fun u plays noFiles => ?_
  cases command : commandOf? u.text with
  | none =>
      have same : u.report.session = u.session := session_of_none command
      rw [same]
      exact .refl _
  | some c =>
      have report : u.report = u.session.perform (player u.depth) c := line_of_command command
      have noFiles' : ∀ names, c ≠ .source names := fun names isSource =>
        noFiles names (isSource ▸ command)
      have did : c.Did u.session u.report :=
        report ▸ perform_did (plays.kept commands_sound sound) noFiles'
      rcases did.table with same | ⟨change, done⟩
      · rw [same]
        exact .refl _
      · refine sameStack_of_change change fun capacity strict configures => ?_
        exact unset u capacity strict plays (configures ▸ command) done

/-- Between the lines, the table is coherent, and its stack is what `stack` lines made of it. A match
ends everything if its stack does not fit in memory; otherwise it fails on a text for want of states,
or of room on a strict stack. -/
theorem coherent_between_lines [Host] (s : Session) (reached : s.Reachable) (depth : Nat)
    (text : String) :
    let turn : Turn := ⟨depth, s, text⟩
    turn.report = s.enter depth text ∧
      (∀ u, turn.Plays u → u.session.table.Coherent ∧ u.report.session.table.Coherent) ∧
      (¬ s.table.SameStack (s.enter depth text).session.table →
        ∃ u capacity strict, turn.Plays u ∧
          commandOf? u.text = some (.configure capacity strict) ∧ u.report.outcome = .done) ∧
      ∀ u texts trace, turn.Plays u → commandOf? u.text = some (.run texts trace) →
        (∀ message, .err message ∈ u.report.events →
          ∃ text ∈ texts, Complains u.session.table text message) ∧
        u.report.outcome = outcomeOf (if texts = [] then none else noStack u.session.table) := by
  intro turn
  have entered : turn.report = s.enter depth text := rfl
  refine ⟨entered, fun u plays => ?_, fun changed => ?_, fun u texts trace plays command => ?_⟩
  · exact ⟨(plays.kept commands_sound reached.sound).coherent,
      (plays.report_kept commands_sound reached.sound).coherent⟩
  · by_contra unset
    have same : s.table.SameStack turn.report.session.table :=
      sameStack_of_unset reached.sound fun u capacity strict plays command done =>
        unset ⟨u, capacity, strict, plays, command, done⟩
    rw [entered] at same
    exact changed same
  · have report : u.report = u.session.run texts trace := line_of_command command
    have sound : u.session.table.Sound := plays.kept commands_sound reached.sound
    rw [report]
    exact run_of_sound sound texts trace

theorem coherent_between_lines_of_file :
    let _ : Host := .usual
    let s := start ⟨({} : Disk).put ["f"] (.file "stack 1 --strict\nmatch a\nstart 9"), []⟩
    s.Reachable ∧ (s.enter 1 "source f").session.table.Coherent ∧
      ∃ u capacity strict, Turn.Plays ⟨1, s, "source f"⟩ u ∧
        commandOf? u.text = some (.configure capacity strict) ∧ u.report.outcome = .done := by
  intro host s
  have reached : s.Reachable := ⟨_, 1, false, [], rfl⟩
  obtain ⟨entered, coherent, changed, -⟩ := coherent_between_lines s reached 1 "source f"
  have after := (coherent _ .refl).2
  rw [entered] at after
  refine ⟨reached, after, changed fun same => ?_⟩
  have capacity : (s.enter 1 "source f").session.table.capacity = 1 := by decide +kernel
  have before : s.table.capacity = 100 := rfl
  have kept := same.capacity
  omega

theorem match_of_uncountable_stack :
    let _ : Host := .usual
    let start := start ⟨{}, []⟩
    let s := (start.play 1 false ["stack 9223372036854775808"]).session start
    (s.Reachable ∧ commandOf? "match a" = some (.run ["a"] false) ∧ s.table.size = 3 ∧
        s.table.strict = false) ∧
      (s.enter 1 "match a").events = [] ∧ (s.enter 1 "match a").outcome = .escaped .uncountable :=
  ⟨⟨⟨_, 1, false, _, rfl⟩, rfl, rfl, rfl⟩, rfl, rfl⟩

end Session

end Acceptor
