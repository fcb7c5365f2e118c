import Acceptor.Proofs.Files.Tree
import Acceptor.Proofs.Shell.Invariant

namespace Acceptor

namespace Place

variable {p q : Place} {name : String} {path : Path}

inductive Moved (p : Place) : Place → Prop
  | stays : Moved p p
  | written {name : String} {path : Path} (target : p.target name = .ok path)
      (noNul : holdsNul name = false) (text : String) :
      Moved p { p with disk := p.disk.put path (.file text) }
  | removed {name : String} {path entry : Path} (target : p.target name = .ok path)
      (noNul : holdsNul name = false) (missing : p.disk.node? path = none)
      (isEntry : p.entry name = .ok entry) (text : String) :
      Moved p { p with disk := (p.disk.put path (.file text)).remove entry }
  | gone {name : String} {folder : Path} (found : p.goTo name = .ok folder) :
      Moved p { p with folder }

theorem isFileName_of_mem_parts {part : String} (noNul : holdsNul name = false)
    (mem : part ∈ parts name) (down : part ≠ "." ∧ part ≠ "..")
    (short : part.utf8ByteSize ≤ maxPart) : IsFileName part := by
  have plain : ∀ c ∈ name.toList, c ≠ '\x00' := by
    rintro c mem rfl
    simp [holdsNul, mem] at noNul
  obtain ⟨nonempty, whole⟩ := Text.forall_mem_partsBetween (by simp) plain mem
  exact ⟨nonempty, fun c here => ⟨of_decide_eq_false (whole c here).1, (whole c here).2⟩, down, short⟩

theorem isFileName_of_target (tree : p.disk.WellFormed) (target : p.target name = .ok path)
    (noNul : holdsNul name = false) : ∀ part ∈ path, IsFileName part := by
  obtain ⟨entry, isEntry, follows, -⟩ := target_eq_ok target
  obtain ⟨start, parent, last, -, isLast, -, down, node, -, short, rfl⟩ := entry_eq_ok isEntry
  have mem : last ∈ parts name := List.mem_of_getLast? isLast
  refine Disk.isFileName_of_follow tree (fun part here => ?_) follows
  rcases List.mem_append.1 here with above | own
  · exact tree.isFileName (by rw [node]; rfl) above
  · rw [List.mem_singleton.1 own]
    exact isFileName_of_mem_parts noNul mem down short

theorem Moved.wellFormed (moved : p.Moved q) (wf : p.WellFormed) : q.WellFormed := by
  cases moved with
  | stays => exact wf
  | written target noNul text =>
      have named := isFileName_of_target wf.disk target noNul
      obtain ⟨-, -, -, writable⟩ := target_eq_ok target
      exact ⟨Disk.wellFormed_put wf.disk named text, writable.isFolder_put wf.folder⟩
  | @removed name path entry target noNul missing isEntry text =>
      have named := isFileName_of_target wf.disk target noNul
      obtain ⟨entry', isEntry', follows, writable⟩ := target_eq_ok target
      rw [isEntry] at isEntry'
      obtain rfl := Except.ok.inj isEntry'
      -- the entry leads to what was missing, so it is not the current folder
      have away : p.folder ≠ entry := by
        rintro rfl
        rw [Disk.follow_of_plain (by simp [wf.folder])] at follows
        obtain rfl := Option.some.inj follows
        rw [wf.folder] at missing
        cases missing
      exact ⟨Disk.wellFormed_remove (Disk.wellFormed_put wf.disk named text) entry,
        (Disk.node?_remove away).trans (writable.isFolder_put wf.folder)⟩
  | @gone name folder found =>
      unfold goTo at found
      obtain ⟨found', located, found⟩ := bind_eq_ok.1 found
      split at found
      · obtain rfl := Except.ok.inj found
        exact ⟨wf.disk, ‹_›⟩
      · exact absurd found throw_ne_ok

end Place

namespace Session
open Place

variable {s : Session} {c : Command}

theorem moved_change (t : Except Fault Table) : s.place.Moved (s.change t).session.place := by
  cases t <;> exact .stays

theorem moved_setStart (state : Int) : s.place.Moved (s.setStart state).session.place := by
  unfold setStart
  split
  · exact moved_change _
  · exact .stays

theorem moved_setAccepting (states : List Int) (accepting : Bool) :
    s.place.Moved (s.setAccepting states accepting).session.place := by
  unfold setAccepting
  split
  · exact .stays
  · exact moved_change _

theorem moved_addEdge (source : Int) (dest : Option Int) (label : Option String) :
    s.place.Moved (s.addEdge source dest label).session.place := by
  unfold addEdge
  split
  · exact .stays
  · split
    · exact .stays
    · split
      · exact .stays
      · split
        · exact .stays
        · exact moved_change _

theorem moved_configure (capacity : Option Int) (strict : Option Bool) :
    s.place.Moved (s.configure capacity strict).session.place := by
  unfold configure
  split
  · exact .stays
  · split <;> exact .stays
  · exact .stays

variable [Host] {play : Player}

theorem moved_settle {name : String} {w : Written} (caught : Fault → Bool) :
    s.place.Moved ((s.write name w).1.settle caught (s.write name w).2).session.place := by
  have moved : s.place.Moved (s.write name w).1.place := by
    have how := wrote s name w
    generalize s.write name w = r at how
    cases how with
    | nul | unopened => exact .stays
    | whole opens | kept opens => exact .written opens.target opens.noNul _
    | removed opens _ missing isEntry => exact .removed opens.target opens.noNul missing isEntry _
  unfold settle
  cases (s.write name w).2 with
  | none => exact moved
  | some f =>
      simp only
      split <;> exact moved

theorem moved_changeFolder (name : String) : s.place.Moved (s.changeFolder name).session.place := by
  unfold changeFolder
  cases expandHome name with
  | error f => exact .stays
  | ok name =>
      simp only
      split
      · exact .stays
      · cases found : s.place.goTo name with
        | error e => exact .stays
        | ok folder => exact .gone found

theorem moved_save (file : Option String) : s.place.Moved (s.save file).session.place := by
  unfold save
  simp only
  split
  · exact moved_settle _
  · split <;> exact .stays

theorem moved_draw (file : Option String) (viewer : Bool) :
    s.place.Moved (s.draw file viewer).session.place := by
  unfold draw
  split
  · exact moved_settle _
  · split <;> exact .stays

theorem moved_addStates (count : Int) (accepting start : Bool) :
    s.place.Moved (s.addStates count accepting start).session.place := by
  unfold addStates
  split
  · exact .stays
  · split <;> exact .stays

theorem moved_run (texts : List String) (trace : Bool) :
    s.place.Moved (s.run texts trace).session.place := by
  unfold Session.run
  split <;> exact .stays

theorem perform_moved (noFiles : ∀ names, c ≠ .source names) :
    s.place.Moved (s.perform play c).session.place := by
  cases c with
  | changeFolder name => exact moved_changeFolder name
  | addStates count accepting start => exact moved_addStates count accepting start
  | setStart state => exact moved_setStart state
  | setAccepting states accepting => exact moved_setAccepting states accepting
  | addEdge source dest label => exact moved_addEdge source dest label
  | configure capacity strict => exact moved_configure capacity strict
  | run texts trace => exact moved_run texts trace
  | save file => exact moved_save file
  | draw file viewer => exact moved_draw file viewer
  | source names => exact absurd rfl (noFiles names)
  | clear | loadExample | quit | help => exact .stays

theorem commands_wellFormed : KeptByCommands fun s => s.place.WellFormed :=
  fun _ _ _ noFiles wf => (perform_moved noFiles).wellFormed wf

/-- Whatever lines are played, every path is made of names, and the current folder is there. -/
theorem wellFormed_play {depth : Nat} {exitFirst : Bool} {lines : List String}
    (wf : s.place.WellFormed) : ((s.play depth exitFirst lines).session s).place.WellFormed :=
  play_kept commands_wellFormed depth exitFirst lines wf

end Session

end Acceptor
