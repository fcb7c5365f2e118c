import Acceptor.Proofs.Files.Place
import Acceptor.Proofs.Shell.Match
import Acceptor.Proofs.Table.Script

namespace Acceptor
open Session

inductive Table.Change [Memory] (t : Table) : Command → Table → Prop
  | clear : Change t .clear t.reset
  | loadExample : Change t .loadExample t.loadExample
  | addStates {count : Int} {accepting start : Bool} (more : 0 < count)
      (fits : t.size + count ≤ Memory.maxStates) :
      Change t (.addStates count accepting start) (t.addStates count.toNat accepting start)
  | setStart {state : Int} {u : Table} (set : t.setStart state = .ok u) :
      Change t (.setStart state) u
  | setAccepting {states : List Int} {accepting : Bool} {u : Table}
      (marked : states.foldlM (fun t state => t.markFinal state accepting) t = .ok u) :
      Change t (.setAccepting states accepting) u
  | addEdge {source dest : Int} {label : Option String} {k : CharClass} {u : Table}
      (parsed : CharClass.parse (label.getD "[]") = .ok k)
      (added : t.addEdge source (.charClass k) dest = .ok u) :
      Change t (.addEdge source (some dest) label) u
  | configure {capacity : Option Int} {strict : Option Bool}
      (positive : ∀ n, capacity = some n → 0 < n) :
      Change t (.configure capacity strict)
        (t.withStack (capacity.getD t.capacity) (strict.getD t.strict))

theorem Table.has_markFinal {t u : Table} {state : Int} {final : Bool}
    (marked : t.markFinal state final = .ok u) (other : Int) : u.has other = t.has other := by
  unfold Table.markFinal at marked
  split at marked
  · cases marked
    unfold Table.has Table.size
    rw [Array.size_modify]
  · cases marked

theorem Table.exists_setAccepting {t : Table} {states : List Int} (accepting : Bool)
    (there : ∀ state ∈ states, t.has state = true) :
    ∃ u, states.foldlM (fun t state => t.markFinal state accepting) t = .ok u := by
  induction states generalizing t with
  | nil => exact ⟨t, rfl⟩
  | cons state states ih =>
      rw [List.forall_mem_cons] at there
      obtain ⟨here, rest⟩ := there
      have marked : t.markFinal state accepting = .ok _ := if_pos here
      rw [List.foldlM_cons, marked]
      exact ih fun other mem => (Table.has_markFinal marked other).trans (rest other mem)

variable [Host]

/-- The name, with the home folder in it, is that of a file at the path, or of a new one. -/
structure Session.Opens (s : Session) (name name' : String) (path : Path) : Prop where
  expanded : Place.expandHome name = .ok name'
  noNul : Place.holdsNul name' = false
  target : s.place.target name' = .ok path

/-- The command ends everything in this way. -/
inductive Command.Ends (s : Session) : Command → Outcome → Prop
  | quit : Ends s .quit .quit
  | folder {name} (nul : Place.holdsNul name = true) :
      Ends s (.changeFolder name) (.escaped .nulInName)
  | states {count : Int} {accepting start} (positive : 0 < count)
      (many : Memory.maxStates < s.table.size + count) :
      Ends s (.addStates count accepting start) (.escaped .outOfMemory)
  | edge {source label} (has : s.table.has source = true) :
      Ends s (.addEdge source none label) (.escaped .noDestination)
  | run {texts trace f} (nonempty : texts ≠ []) (noStack : noStack s.table = some f) :
      Ends s (.run texts trace) (.escaped f)
  | draw {file viewer name} (isNamed : named file = some name) (nul : Place.holdsNul name = true) :
      Ends s (.draw file viewer) (.escaped .nulInName)
  | encode {file viewer name name' path arrived reason} (isNamed : named file = some name)
      (opens : s.Opens name name' path)
      (breaks : Host.break? s.place.disk path s.table.dot = some ⟨arrived, .encoding reason⟩) :
      Ends s (.draw file viewer) (.escaped (.unwritten (.encoding reason)))

inductive Command.Did (s : Session) (c : Command) : Report → Prop
  | changed {u : Table} (change : s.table.Change c u) : Did s c (s.withTable u)
  | wrote (place : Place) (events : List Event) : Did s c ⟨{ s with place }, events, .done⟩
  | refused (place : Place) (events : List Event) (message : String) :
      Did s c ⟨{ s with place }, events ++ [.err message], .failed⟩
  | ended {o : Outcome} (place : Place) (events : List Event) (ends : c.Ends s o) :
      Did s c ⟨{ s with place }, events, o⟩

variable {s : Session} {c : Command} {play : Player}

theorem Command.Did.table {r : Report} (h : c.Did s r) :
    r.session.table = s.table ∨ s.table.Change c r.session.table ∧ r.outcome = .done := by
  cases h with
  | changed change => exact .inr ⟨change, rfl⟩
  | wrote | refused | ended => exact .inl rfl

namespace Session
open Command

theorem did_complain (message : String) : c.Did s (s.complain message) :=
  .refused s.place [] (message ++ "\n")

theorem did_print (text : String) : c.Did s (s.print text) := .wrote s.place [.out text]

/-- What the writing of a file leaves, and what goes wrong. -/
inductive Wrote (s : Session) (name : String) (w : Written) : Session × Option Fault → Prop
  | nul (nul : Place.holdsNul name = true) : Wrote s name w (s, some .nulInName)
  | unopened {name' e} (expanded : Place.expandHome name = .ok name')
      (target : s.place.target name' = .error e) : Wrote s name w (s, some (.unopened e name'))
  | whole {name' path} (opens : s.Opens name name' path)
      (unbroken : Host.break? s.place.disk path w.text = none) (whole : w.fault = none) :
      Wrote s name w (s.withDisk (s.place.disk.put path (.file w.text)), none)
  | kept {name' path f} (opens : s.Opens name name' path)
      (fault : (delivered w s.place.disk path).fault = some f)
      (there : (s.place.disk.node? path).isSome = true) :
      Wrote s name w
        (s.withDisk (s.place.disk.put path (.file (delivered w s.place.disk path).text)), some f)
  | removed {name' path entry f} (opens : s.Opens name name' path)
      (fault : (delivered w s.place.disk path).fault = some f)
      (missing : s.place.disk.node? path = none) (isEntry : s.place.entry name' = .ok entry) :
      Wrote s name w
        (s.withDisk ((s.place.disk.put path (.file (delivered w s.place.disk path).text)).remove entry),
          some f)

variable {name : String} {w : Written}

theorem delivered_of_unbroken {d : Disk} {path : Path} (unbroken : Host.break? d path w.text = none) :
    delivered w d path = w := by
  simp only [delivered, unbroken]

theorem delivered_cases (w : Written) (d : Disk) (path : Path) :
    (∃ b, Host.break? d path w.text = some b ∧
        (delivered w d path).fault = some (.unwritten b.error)) ∨
      Host.break? d path w.text = none ∧ (delivered w d path).fault = w.fault := by
  cases breaks : Host.break? d path w.text with
  | some b => exact .inl ⟨b, rfl, by simp only [delivered, breaks]⟩
  | none => exact .inr ⟨rfl, by rw [delivered_of_unbroken breaks]⟩

theorem wrote (s : Session) (name : String) (w : Written) : Wrote s name w (s.write name w) := by
  unfold write
  rcases Place.expandHome_cases name with ⟨name', expanded, same⟩ | ⟨expanded, nul⟩
  · simp only [expanded]
    cases nul : Place.holdsNul name' with
    | true => exact .nul (same.symm.trans nul)
    | false =>
        cases target : s.place.target name' with
        | error e => exact .unopened expanded target
        | ok path =>
            have opens : s.Opens name name' path := ⟨expanded, nul, target⟩
            simp only [Bool.false_eq_true, if_false, Place.isThere_of_target target,
              Bool.or_eq_true, Option.isNone_iff_eq_none]
            cases fault : (delivered w s.place.disk path).fault with
            | none =>
                rw [if_pos (.inl rfl)]
                rcases delivered_cases w s.place.disk path with
                  ⟨b, -, broken⟩ | ⟨unbroken, same⟩
                · rw [fault] at broken
                  cases broken
                · rw [delivered_of_unbroken unbroken]
                  exact .whole opens unbroken (same.symm.trans fault)
            | some f =>
                split
                · rename_i there
                  exact .kept opens fault (there.resolve_left nofun)
                · rename_i missing
                  have missing : s.place.disk.node? path = none := by
                    simpa using not_or.1 missing |>.2
                  obtain ⟨entry, isEntry, -, writable⟩ := Place.target_eq_ok target
                  have isEntry' := Place.entry_put isEntry writable (delivered w s.place.disk path).text
                  simp only [withDisk, Place.unlink, isEntry']
                  exact .removed opens fault missing isEntry
  · simp only [expanded]
    exact .nul nul

theorem write_of_nul (nul : Place.holdsNul name = true) : s.write name w = (s, some .nulInName) := by
  unfold write
  rcases Place.expandHome_cases name with ⟨name', expanded, same⟩ | ⟨expanded, -⟩
  · simp only [expanded, same, nul, if_true]
  · simp only [expanded]

theorem Opens.write_fault {name' : String} {path : Path} (opens : s.Opens name name' path) :
    (s.write name w).2 = (delivered w s.place.disk path).fault := by
  simp only [write, opens.expanded, opens.noNul, opens.target, Bool.false_eq_true, if_false]
  split <;> rfl

theorem Wrote.place {r : Session × Option Fault} (h : Wrote s name w r) :
    ∃ place, r.1 = { s with place } := by
  cases h with
  | nul | unopened => exact ⟨s.place, rfl⟩
  | whole | kept | removed => exact ⟨_, rfl⟩

theorem Wrote.fault {r : Session × Option Fault} {f : Fault} (h : Wrote s name w r)
    (fault : r.2 = some f) :
    (f = .nulInName ∧ Place.holdsNul name = true) ∨ (∃ e name', f = .unopened e name') ∨
      (∃ name' path b, s.Opens name name' path ∧ Host.break? s.place.disk path w.text = some b ∧
        f = .unwritten b.error) ∨ w.fault = some f := by
  have late {name' path} (opens : s.Opens name name' path)
      (isFault : (delivered w s.place.disk path).fault = some f) :
      (∃ name' path b, s.Opens name name' path ∧ Host.break? s.place.disk path w.text = some b ∧
        f = .unwritten b.error) ∨ w.fault = some f := by
    rcases delivered_cases w s.place.disk path with
      ⟨b, breaks, broken⟩ | ⟨-, same⟩
    · exact .inl ⟨_, _, b, opens, breaks, Option.some.inj (isFault.symm.trans broken)⟩
    · exact .inr (same.symm.trans isFault)
  cases h with
  | nul nul => exact .inl ⟨(Option.some.inj fault).symm, nul⟩
  | unopened => exact .inr (.inl ⟨_, _, (Option.some.inj fault).symm⟩)
  | whole => cases fault
  | kept opens isFault there => exact .inr (.inr (late opens (isFault.trans fault)))
  | removed opens isFault missing isEntry => exact .inr (.inr (late opens (isFault.trans fault)))

theorem did_settle {caught : Fault → Bool} {r : Session × Option Fault} (h : Wrote s name w r)
    (escapes : ∀ f, r.2 = some f → caught f = false → c.Ends s (.escaped f)) :
    c.Did s (r.1.settle caught r.2) := by
  obtain ⟨place, left⟩ := h.place
  rw [left]
  cases fault : r.2 with
  | none => exact .wrote place []
  | some f =>
      cases isCaught : caught f with
      | true =>
          simp only [settle, isCaught, if_true]
          exact .refused place [] (f.message ++ "\n")
      | false =>
          simp only [settle, isCaught, Bool.false_eq_true, if_false]
          exact .ended place [] (escapes f fault isCaught)

theorem changeFolder_of_nul {name : String} (nul : Place.holdsNul name = true) :
    s.changeFolder name = s.escape .nulInName := by
  unfold changeFolder
  rcases Place.expandHome_cases name with ⟨name', expanded, same⟩ | ⟨expanded, -⟩
  · simp only [expanded, same, nul, if_true]
  · simp only [expanded]

theorem did_changeFolder (name : String) : (Command.changeFolder name).Did s (s.changeFolder name) := by
  cases nul : Place.holdsNul name with
  | true =>
      rw [changeFolder_of_nul nul]
      exact .ended s.place [] (.folder nul)
  | false =>
      unfold changeFolder
      rcases Place.expandHome_cases name with ⟨name', expanded, same⟩ | ⟨-, nul'⟩
      · simp only [expanded, same, nul, Bool.false_eq_true, if_false]
        split
        · exact did_complain _
        · exact .wrote _ []
      · rw [nul] at nul'
        cases nul'

theorem did_save (file : Option String) : (Command.save file).Did s (s.save file) := by
  unfold save
  simp only
  split
  · rename_i name isNamed
    refine did_settle (wrote s name s.table.script) fun f fault escapes => ?_
    rcases (wrote s name s.table.script).fault fault with
      ⟨rfl, -⟩ | ⟨e, name', rfl⟩ | ⟨_, _, b, -, -, rfl⟩ | unsavable
    · cases escapes
    · cases escapes
    · cases broken : b.error <;> simp [broken, Fault.isOfSystem, Fault.isOfValue] at escapes
    · obtain ⟨_, _, -, rfl, -⟩ := Table.writable_of_fault unsavable
      cases escapes
  · split
    · exact did_print _
    · exact .refused s.place [.out s.table.script.text] _

theorem did_draw (file : Option String) (viewer : Bool) :
    (Command.draw file viewer).Did s (s.draw file viewer) := by
  unfold draw
  split
  · rename_i name isNamed
    refine did_settle (wrote s name ⟨s.table.dot, none⟩) fun f fault escapes => ?_
    rcases (wrote s name ⟨s.table.dot, none⟩).fault fault with
      ⟨rfl, nul⟩ | ⟨e, name', rfl⟩ | ⟨_, _, ⟨arrived, error⟩, opens, breaks, rfl⟩ | none
    · exact .draw isNamed nul
    · cases escapes
    · cases error with
      | system => cases escapes
      | encoding reason => exact .encode isNamed opens breaks
    · cases none
  · split
    · exact .wrote s.place []
    · exact did_print _

theorem did_change {t : Except Fault Table} {u : Table} (made : t = .ok u)
    (change : s.table.Change c u) : c.Did s (s.change t) := by
  rw [made]
  exact .changed change

theorem did_addStates (count : Int) (accepting start : Bool) :
    (Command.addStates count accepting start).Did s (s.addStates count accepting start) := by
  unfold addStates
  split
  · exact did_complain _
  · rename_i positive
    split
    · rename_i many
      exact .ended s.place [] (.states (Int.not_le.1 positive) many)
    · rename_i fits
      exact .changed (.addStates (Int.not_le.1 positive) (Int.not_lt.1 fits))

theorem did_setStart (state : Int) : (Command.setStart state).Did s (s.setStart state) := by
  unfold setStart
  split
  · rename_i has
    have set : s.table.setStart state = .ok { s.table with start := state.toNat } := if_pos has
    exact did_change set (.setStart set)
  · exact did_complain _

theorem did_setAccepting (states : List Int) (accepting : Bool) :
    (Command.setAccepting states accepting).Did s (s.setAccepting states accepting) := by
  unfold setAccepting
  split
  · exact did_complain _
  · rename_i found
    have there : ∀ state ∈ states, s.table.has state = true := by
      intro state mem
      simpa using List.find?_eq_none.1 found state mem
    obtain ⟨u, marked⟩ := Table.exists_setAccepting accepting there
    exact did_change marked (.setAccepting marked)

theorem did_addEdge (source : Int) (dest : Option Int) (label : Option String) :
    (Command.addEdge source dest label).Did s (s.addEdge source dest label) := by
  unfold addEdge
  cases isSource : s.table.has source with
  | false => exact did_complain _
  | true =>
      cases dest with
      | none => exact .ended s.place [] (.edge isSource)
      | some dest =>
          cases isDest : s.table.has dest with
          | false =>
              simp only [Bool.not_true, Bool.false_eq_true, if_false, isDest, Bool.not_false, if_true]
              exact did_complain _
          | true =>
              simp only [Bool.not_true, Bool.false_eq_true, if_false, isDest]
              cases parsed : CharClass.parse (label.getD "[]") with
              | error e => exact did_complain _
              | ok k =>
                  have added : s.table.addEdge source (.charClass k) dest = .ok _ :=
                    if_pos (by rw [isSource, isDest]; rfl)
                  exact did_change added (.addEdge parsed added)

theorem did_configure (capacity : Option Int) (strict : Option Bool) :
    (Command.configure capacity strict).Did s (s.configure capacity strict) := by
  cases capacity with
  | some n =>
      simp only [configure]
      split
      · exact did_complain _
      · rename_i positive
        have change : s.table.Change (.configure (some n) strict) _ :=
          .configure fun m same => Option.some.inj same ▸ Int.not_le.1 positive
        exact .changed change
  | none =>
      cases strict with
      | none => exact did_print _
      | some strict =>
          have change : s.table.Change (.configure none (some strict)) _ := .configure nofun
          exact .changed change

theorem did_run (sound : s.table.Sound) (texts : List String) (trace : Bool) :
    (Command.run texts trace).Did s (s.run texts trace) := by
  obtain ⟨fault, -⟩ := runTexts_of_sound sound trace texts
  unfold run
  cases ran : runTexts s.table trace texts with
  | mk events ended =>
      rw [ran] at fault
      cases ended with
      | none => exact .wrote s.place events
      | some f =>
          split at fault
          · cases fault
          · rename_i nonempty
            exact .ended s.place events (.run nonempty fault.symm)

theorem perform_did (sound : s.table.Sound) (noFiles : ∀ names, c ≠ .source names) :
    c.Did s (s.perform play c) := by
  cases c with
  | changeFolder name => exact did_changeFolder name
  | clear => exact .changed .clear
  | loadExample => exact .changed .loadExample
  | addStates count accepting start => exact did_addStates count accepting start
  | setStart state => exact did_setStart state
  | setAccepting states accepting => exact did_setAccepting states accepting
  | addEdge source dest label => exact did_addEdge source dest label
  | configure capacity strict => exact did_configure capacity strict
  | run texts trace => exact did_run sound texts trace
  | save file => exact did_save file
  | draw file viewer => exact did_draw file viewer
  | quit => exact .ended s.place [] .quit
  | source names => exact absurd rfl (noFiles names)
  | help topic => exact did_print _

end Session

end Acceptor
