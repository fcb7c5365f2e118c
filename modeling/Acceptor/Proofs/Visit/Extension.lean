import Acceptor.Proofs.Visit.Parts

/-!
# Runs of a table that is extended

An edge is tried after all others of its state, so a new one is taken by a visit only where it would have
halted for lack of an edge (`step_withEdge`): other runs stay as they are, and such a run goes on from
there. A new state changes no run, as no edge leads to it (`run_extended`).
-/

namespace Acceptor

namespace Table

variable {t : Table} {s d x : Nat} {p : Predicate} {c : Symbol}

def withEdge (t : Table) (s : Nat) (p : Predicate) (d : Nat) : Table :=
  { t with states := t.states.modify s fun st => { st with edges := st.edges ++ [⟨p, d⟩] } }

theorem addEdge_of_lt (source : s < t.size) (dest : d < t.size) :
    t.addEdge s p d = .ok (t.withEdge s p d) := by
  have has : t.has s = true ∧ t.has d = true := by
    simp only [has_iff]
    omega
  rw [addEdge, has.1, has.2]
  rfl

theorem size_withEdge : (t.withEdge s p d).size = t.size := size_modify ..

theorem isAccepting_withEdge (x : Nat) : (t.withEdge s p d).isAccepting x = t.isAccepting x := by
  simp only [isAccepting, withEdge, Array.getElem?_modify]
  split
  · cases t.states[x]? <;> rfl
  · rfl

theorem next?_withEdge (x : Nat) (c : Symbol) :
    (t.withEdge s p d).next? x c =
      if s = x ∧ x < t.size ∧ p.holds c then (t.next? x c).or (some d) else t.next? x c := by
  simp only [next?, withEdge, Array.getElem?_modify]
  by_cases here : s = x
  · rw [if_pos here]
    by_cases inside : x < t.size
    · have found : t.states[x]? = some t.states[x] := Array.getElem?_eq_getElem inside
      simp only [found, Option.map_some, Option.bind_eq_bind, Option.bind_some, List.find?_append]
      cases t.states[x].edges.find? fun e => e.predicate.holds c with
      | some e => simp
      | none => cases takes : p.holds c <;> simp [here, inside, takes]
    · have missing : t.states[x]? = none := Array.getElem?_eq_none (Nat.le_of_not_lt inside)
      simp [missing, inside]
  · simp [here]

theorem isAccepting_addState (inside : x < t.size) : t.addState.isAccepting x = t.isAccepting x := by
  simp only [isAccepting, addState, Array.getElem?_push_lt inside, Array.getElem?_eq_getElem inside]

theorem next?_addState (inside : x < t.size) (c : Symbol) : t.addState.next? x c = t.next? x c := by
  simp only [next?, addState, Array.getElem?_push_lt inside, Array.getElem?_eq_getElem inside]

end Table

namespace Visit

variable {t t' : Table} {v before after b : Visit} {c : Symbol} {u w rest : List Symbol} {s d : Nat}
  {p : Predicate}

/-! ## Visits that two tables take alike -/

theorem step_congr (inside : v.state < t.size) (inside' : v.state < t'.size)
    (accepting : t'.isAccepting v.state = t.isAccepting v.state)
    (next : t'.next? v.state c = t.next? v.state c) : v.step t' c = v.step t c := by
  by_cases halted : v.halted = true
  · rw [step_of_halted halted, step_of_halted halted]
  · have running : v.halted = false := Bool.not_eq_true _ ▸ halted
    by_cases symbol : c = endOfInput
    · rw [symbol, step_endOfInput running, step_endOfInput running]
    · have recorder : v.recorder t' = v.recorder t := by
        unfold recorder
        rw [accepting]
      rw [step_of_running running symbol inside', step_of_running running symbol inside, recorder]
      simp only [move, Table.next?_of_lt, next]

def StepsAlike (t t' : Table) (v : Visit) (w : List Symbol) : Prop :=
  ∀ u c rest before, w = u ++ c :: rest → v.walk t u = (before, none) →
    before.step t' c = before.step t c

theorem StepsAlike.head (alike : StepsAlike t t' v (c :: w)) : v.step t' c = v.step t c :=
  alike [] c w v rfl rfl

theorem StepsAlike.tail {v' : Visit} {goesOn : Bool} (alike : StepsAlike t t' v (c :: w))
    (taken : (v.step t c).value = (v', .ok goesOn)) : StepsAlike t t' v' w := by
  intro u d rest before split walked
  exact alike (c :: u) d rest before (congrArg (c :: ·) split) ((walk_cons_of_ok taken).trans walked)

theorem StepsAlike.front (alike : StepsAlike t t' v (u ++ w)) : StepsAlike t t' v u := by
  rintro u' c rest before rfl walked
  exact alike u' c (rest ++ w) before (by simp) walked

theorem StepsAlike.walk (alike : StepsAlike t t' v w) : v.walk t' w = v.walk t w := by
  induction w generalizing v with
  | nil => rfl
  | cons c w ih =>
      cases taken : (v.step t c).value with
      | mk v' answer =>
          have taken' : (v.step t' c).value = (v', answer) := alike.head ▸ taken
          cases answer with
          | error f => rw [walk_cons_of_error taken, walk_cons_of_error taken']
          | ok goesOn =>
              rw [walk_cons_of_ok taken, walk_cons_of_ok taken']
              exact ih (alike.tail taken)

theorem StepsAlike.feed (alike : StepsAlike t t' v w) : v.feed t' w = v.feed t w := by
  induction w generalizing v with
  | nil => rfl
  | cons c w ih =>
      unfold Visit.feed
      rw [alike.head]
      split
      · rfl
      · rfl
      · rename_i v' log taken
        rw [ih (alike.tail (congrArg Logged.value taken))]

theorem walk_inside (wf : t.WellFormed) (inside : v.state < t.size) (w : List Symbol) :
    (v.walk t w).1.state < t.size := by
  induction w generalizing v with
  | nil => exact inside
  | cons c w ih =>
      have next := step_inside wf inside c
      cases taken : (v.step t c).value with
      | mk v' answer =>
          rw [taken] at next
          cases answer with
          | error f => exact walk_cons_of_error taken ▸ next
          | ok goesOn => exact walk_cons_of_ok taken ▸ ih next

theorem inside_of_walk {stopped : Option Fault} (wf : t.WellFormed) (inside : v.state < t.size)
    (walked : v.walk t w = (v', stopped)) : v'.state < t.size := by
  have reached := walk_inside wf inside w
  rwa [walked] at reached

/-! ## One more edge -/

/-- Over `u` the visit comes to `before`, which halts on `c` for lack of an edge and is `after` then. -/
structure HaltsOn (t : Table) (v : Visit) (u : List Symbol) (c : Symbol) (before after : Visit) :
    Prop where
  walked : v.walk t u = (before, none)
  running : before.halted = false
  symbol : c ≠ endOfInput
  next : t.next? before.state c = none
  step : (before.step t c).value = (after, .ok false)

def resumed (v : Visit) (d : Nat) : Visit := { v with state := d, halted := false }

theorem step_withEdge (inside : v.state < t.size) (s d : Nat) (p : Predicate) (c : Symbol) :
    v.step (t.withEdge s p d) c = v.step t c ∨
      ∃ after, v.HaltsOn t [] c v after ∧ v.state = s ∧ p.holds c = true := by
  have inside' : v.state < (t.withEdge s p d).size := Table.size_withEdge.symm ▸ inside
  have accepting := t.isAccepting_withEdge (s := s) (p := p) (d := d) v.state
  by_cases halted : v.halted = true
  · exact .inl (by rw [step_of_halted halted, step_of_halted halted])
  · have running : v.halted = false := Bool.not_eq_true _ ▸ halted
    by_cases symbol : c = endOfInput
    · exact .inl (by rw [symbol, step_endOfInput running, step_endOfInput running])
    · by_cases lacks : t.next? v.state c = none ∧ v.state = s ∧ p.holds c = true
      · obtain ⟨next, here, takes⟩ := lacks
        cases push : (v.recorder t).push v.state with
        | mk value log =>
            cases value with
            | error f =>
                -- a strict stack that is full refuses the state before an edge is looked for
                have recorder : v.recorder (t.withEdge s p d) = v.recorder t := by
                  unfold recorder
                  rw [accepting]
                left
                rw [step_of_running running symbol inside', step_of_running running symbol inside,
                  recorder, push]
            | ok stack =>
                have taken := step_of_pushed running symbol inside (congrArg Logged.value push)
                rw [next] at taken
                exact .inr ⟨_, ⟨rfl, running, symbol, next, taken⟩, here, takes⟩
      · refine .inl (step_congr inside inside' accepting ?_)
        rw [Table.next?_withEdge]
        split
        · rename_i added
          cases next : t.next? v.state c with
          | none => exact absurd ⟨next, added.1.symm, added.2.2⟩ lacks
          | some e => rfl
        · rfl

theorem HaltsOn.step_withEdge (halts : v.HaltsOn t u c before after) (inside : before.state < t.size)
    (takes : p.holds c = true) :
    (before.step (t.withEdge before.state p d) c).value = (after.resumed d, .ok true) := by
  have inside' : before.state < (t.withEdge before.state p d).size :=
    Table.size_withEdge.symm ▸ inside
  have recorder : before.recorder (t.withEdge before.state p d) = before.recorder t := by
    unfold recorder
    rw [Table.isAccepting_withEdge]
  have next : (t.withEdge before.state p d).next? before.state c = some d := by
    rw [Table.next?_withEdge, if_pos ⟨rfl, inside, takes⟩, halts.next]
    rfl
  have step := halts.step
  cases push : ((before.recorder t).push before.state).value with
  | error f =>
      rw [step_of_refused halts.running halts.symbol inside push] at step
      cases step
  | ok stack =>
      rw [step_of_pushed halts.running halts.symbol inside push, halts.next] at step
      obtain ⟨rfl, -⟩ := Prod.mk.inj step
      rw [step_of_pushed halts.running halts.symbol inside' (recorder.symm ▸ push), next]
      rfl

theorem HaltsOn.stepsAlike (wf : t.WellFormed) (inside : v.state < t.size)
    (halts : v.HaltsOn t u c before after) : StepsAlike t (t.withEdge s p d) v u := by
  rintro u' c' rest x rfl walked
  have inside' := inside_of_walk wf inside walked
  rcases Visit.step_withEdge inside' s d p c' with alike | ⟨x', halts', -⟩
  · exact alike
  · have halted : x'.halted = true := halted_of_stops halts'.step
    have stays := halts.walked
    rw [walk_append, walked] at stays
    simp only [walk_cons_of_ok halts'.step, walk_of_halted halted] at stays
    obtain ⟨rfl, -⟩ := Prod.mk.inj stays
    rw [halts.running] at halted
    cases halted

end Visit

open Visit

namespace Table

variable {t t' : Table} {v before after b : Visit} {c : Symbol} {u w rest : List Symbol} {s d : Nat}
  {p : Predicate}

structure HaltsFor [Memory] (t : Table) (s : Nat) (p : Predicate) (u : List Symbol) (c : Symbol)
    (before after : Visit) : Prop where
  halts : ∃ b, begin t = .ok b ∧ b.HaltsOn t u c before after
  state : before.state = s
  takes : p.holds c = true

theorem begin_inside [Memory] (wf : t.WellFormed) (begun : begin t = .ok b) : b.state < t.size := by
  have same := begun_of_begin begun
  exact same.state ▸ wf.start_lt same.nonempty

theorem run_congr [Memory] (begins : begin t' = begin t)
    (alike : ∀ b, begin t = .ok b → StepsAlike t t' b w) : t'.run w = t.run w := by
  unfold run
  rw [begins]
  cases begun : begin t with
  | error f => rfl
  | ok b => exact (alike b begun).feed

theorem failsOn_congr [Memory] (runs : ∀ u, u <+: w → t'.run u = t.run u) {i : Nat} {f : Fault} :
    t'.FailsOn w i f ↔ t.FailsOn w i f := by
  have same : ∀ k, t'.run (w.take k) = t.run (w.take k) := fun k => runs _ (List.take_prefix k w)
  constructor
  · rintro ⟨inside, before, fails⟩
    exact ⟨inside, same i ▸ before, same (i + 1) ▸ fails⟩
  · rintro ⟨inside, before, fails⟩
    exact ⟨inside, (same i).symm ▸ before, (same (i + 1)).symm ▸ fails⟩

theorem accepts_congr [Memory] (wf : t.WellFormed) (runs : t'.run w = t.run w) (size : t.size ≤ t'.size)
    (accepting : ∀ s, s < t.size → t'.isAccepting s = t.isAccepting s) :
    t'.accepts w = t.accepts w := by
  unfold accepts
  rw [runs]
  cases ran : t.run w with
  | mk value log =>
      cases value with
      | error f => rfl
      | ok v =>
          have inside : v.state < t.size := by
            cases begun : begin t with
            | error f =>
                rw [run, begun] at ran
                cases ran
            | ok b =>
                have walked := (run_eq_ok begun).1 (congrArg Logged.value ran)
                exact inside_of_walk wf (begin_inside wf begun) walked
          simp only [success, isFinal_of_lt inside, isFinal_of_lt (Nat.lt_of_lt_of_le inside size),
            accepting v.state inside]

theorem begin_withEdge [Memory] : begin (t.withEdge s p d) = begin t := by
  have initial : (t.withEdge s p d).initial = t.initial := by
    simp only [initial, Array.isEmpty, withEdge, Array.size_modify]
    rfl
  unfold begin
  rw [initial]
  rfl

theorem begin_addState [Memory] (nonempty : 0 < t.size) : begin t.addState = begin t := by
  unfold begin
  rw [initial_of_pos nonempty, initial_of_pos (size_addState ▸ Nat.succ_pos _)]
  rfl

theorem stepsAlike_withEdge (wf : t.WellFormed) (inside : v.state < t.size)
    (never : ∀ u c rest before after, w = u ++ c :: rest → v.HaltsOn t u c before after →
      before.state = s → p.holds c = false) : StepsAlike t (t.withEdge s p d) v w := by
  intro u c rest x split walked
  have inside' := inside_of_walk wf inside walked
  rcases step_withEdge inside' s d p c with alike | ⟨after, halts, here, takes⟩
  · exact alike
  · have halts' : v.HaltsOn t u c x after :=
      ⟨walked, halts.running, halts.symbol, halts.next, halts.step⟩
    rw [never u c rest x after split halts' here] at takes
    cases takes

theorem stepsAlike_addState (wf : t.WellFormed) (inside : v.state < t.size) (w : List Symbol) :
    StepsAlike t t.addState v w := by
  intro u c rest x _ walked
  have inside' := inside_of_walk wf inside walked
  exact step_congr inside' (size_addState ▸ Nat.lt_succ_of_lt inside')
    (isAccepting_addState inside') (next?_addState inside' c)

theorem HaltsFor.run_eq [Memory] (halts : t.HaltsFor s p u c before after) (rest : List Symbol) :
    (t.run (u ++ c :: rest)).value = .ok after := by
  obtain ⟨b, begun, halts⟩ := halts.halts
  rw [run_eq_ok begun, walk_append, halts.walked]
  simp only [walk_cons_of_ok halts.step, walk_of_halted (halted_of_stops halts.step)]

theorem HaltsFor.run_withEdge [Memory] (wf : t.WellFormed) (halts : t.HaltsFor s p u c before after)
    (d : Nat) (rest : List Symbol) :
    (∀ b, begin t = .ok b → b.walk (t.withEdge s p d) u = (before, none)) ∧
      (before.step (t.withEdge s p d) c).value = (after.resumed d, .ok true) ∧
      ((t.withEdge s p d).run (u ++ c :: rest)).value =
        ((after.resumed d).feed (t.withEdge s p d) rest).value := by
  obtain ⟨⟨b, begun, halts⟩, rfl, takes⟩ := halts
  have inside := begin_inside wf begun
  have inside' := inside_of_walk wf inside halts.walked
  have walked : b.walk (t.withEdge before.state p d) u = (before, none) :=
    (halts.stepsAlike wf inside).walk.trans halts.walked
  have step := halts.step_withEdge (d := d) inside' takes
  refine ⟨fun b' begun' => ?_, step, ?_⟩
  · obtain rfl := Except.ok.inj (begun.symm.trans begun')
    exact walked
  · rw [run, begin_withEdge, begun]
    simp only [feed_value, walk_append, walked, walk_cons_of_ok step]

end Table

/-- A new edge changes only the runs that halted for lack of it, and they go on from there as they were. A
new state changes no run. -/
theorem run_extended [Memory] (t : Table) (wf : t.WellFormed) (nonempty : 0 < t.size) :
    (∀ s d : Nat, s < t.size → d < t.size → ∀ p, ∃ t',
      t.addEdge s p d = .ok t' ∧ begin t' = begin t ∧
      (∀ w, (¬ ∃ u c rest before after,
          w = u ++ c :: rest ∧ t.HaltsFor s p u c before after) →
        t'.run w = t.run w ∧ t'.accepts w = t.accepts w ∧
          ∀ i f, t'.FailsOn w i f ↔ t.FailsOn w i f) ∧
      ∀ u c rest before after, t.HaltsFor s p u c before after →
        (t.run (u ++ c :: rest)).value = .ok after ∧
          (∀ b, begin t = .ok b → b.walk t' u = (before, none)) ∧
          (before.step t' c).value = (after.resumed d, .ok true) ∧
          (t'.run (u ++ c :: rest)).value = ((after.resumed d).feed t' rest).value) ∧
    ∀ w, t.addState.run w = t.run w ∧ t.addState.accepts w = t.accepts w := by
  refine ⟨fun s d source dest p => ?_, fun w => ?_⟩
  · refine ⟨t.withEdge s p d, Table.addEdge_of_lt source dest, Table.begin_withEdge,
      fun w never => ?_, fun u c rest before after halts => ⟨halts.run_eq rest,
        halts.run_withEdge wf d rest⟩⟩
    have alike : ∀ b, begin t = .ok b → StepsAlike t (t.withEdge s p d) b w := by
      intro b begun
      refine Table.stepsAlike_withEdge wf (Table.begin_inside wf begun) ?_
      intro u c rest before after split halts here
      rw [← Bool.not_eq_true]
      intro takes
      exact never ⟨u, c, rest, before, after, split, ⟨b, begun, halts⟩, here, takes⟩
    have runs : ∀ u, u <+: w → (t.withEdge s p d).run u = t.run u := by
      rintro u ⟨rest, rfl⟩
      exact Table.run_congr Table.begin_withEdge fun b begun => (alike b begun).front
    have whole := runs w (List.prefix_refl w)
    refine ⟨whole, Table.accepts_congr wf whole (Nat.le_of_eq Table.size_withEdge.symm)
      fun s _ => t.isAccepting_withEdge s, fun i f => Table.failsOn_congr runs⟩
  · have runs := Table.run_congr (w := w) (Table.begin_addState nonempty) fun b begun =>
      Table.stepsAlike_addState wf (Table.begin_inside wf begun) w
    exact ⟨runs, Table.accepts_congr wf runs (Table.size_addState ▸ Nat.le_succ _)
      fun s inside => Table.isAccepting_addState inside⟩

theorem run_extended_example :
    let _ : Memory := Host.usual.toMemory
    let t := Table.loadExample {}
    let p := Predicate.charClass (.literal "x")
    (t.WellFormed ∧ 0 < t.size) ∧ ∃ t', t.addEdge 0 p 2 = .ok t' ∧
      t'.run ["a", "c"] = t.run ["a", "c"] ∧
      (t'.run ["a", "c", "x", "a"]).value.map course = .ok ⟨1, false, 4⟩ := by
  intro memory t p
  have wf : t.WellFormed := ⟨by decide, by decide, by decide⟩
  obtain ⟨t', added, -, same, resumes⟩ :=
    (run_extended t wf (by decide)).1 0 2 (by decide) (by decide) p
  have running : (t.run ["a", "c"]).value.map Visit.halted = .ok false := rfl
  have halts := (⟨⟨_, rfl, rfl, rfl, by decide, rfl, rfl⟩, rfl, rfl⟩ :
    t.HaltsFor 0 p ["a", "c"] "x" _ _)
  obtain ⟨-, -, -, ran⟩ := resumes ["a", "c"] "x" ["a"] _ _ halts
  refine ⟨⟨wf, by decide⟩, t', added, (same ["a", "c"] ?_).1, ?_⟩
  · rintro ⟨u, c, rest, before, after, split, stops⟩
    have halted : after.halted = true := by
      obtain ⟨_, _, halts⟩ := stops.halts
      exact halted_of_stops halts.step
    rw [split, stops.run_eq rest] at running
    rw [Except.ok.inj running] at halted
    cases halted
  · obtain rfl := Except.ok.inj added
    exact congrArg (Except.map course) ran

end Acceptor
