import Acceptor.Proofs.Visit.Walk

/-!
# The first overflow

Two visits that differ in the mode of their stacks alone take the same course up to the first symbol
whose state finds the stack full (`walk_until_overflow`). There the lenient one drops the state and goes
on, and the strict one is stuck: an accepting state would have cleared the stack, so nothing but the
end of the input gets it out of there (`attempts_of_overflow`).
-/

namespace Acceptor

namespace Visit

variable {t : Table} {v v' : Visit} {c : Symbol}

theorem recorder_withMode (strict : Bool) :
    (v.withMode strict).recorder t = (v.recorder t).withMode strict := by
  unfold recorder
  rw [show (v.withMode strict).state = v.state from rfl]
  split <;> rfl

theorem recorder_kept :
    (v.recorder t).capacity = v.stack.capacity ∧ (v.recorder t).dropped = v.stack.dropped := by
  unfold recorder
  split <;> exact ⟨rfl, rfl⟩

structure Overflows (t : Table) (v : Visit) (c : Symbol) : Prop where
  running : v.halted = false
  symbol : c ≠ endOfInput
  full : (v.recorder t).count = (v.recorder t).capacity

theorem Overflows.recorder_eq (h : v.Overflows t c) (positive : 0 < v.stack.capacity) :
    v.recorder t = v.stack := by
  have full := h.full
  unfold recorder at full ⊢
  split at full
  · simp only [BoundedStack.clear] at full
    omega
  · rename_i plain
    rw [if_neg plain]

/-! ## One symbol in both modes -/

theorem step_withMode (wf : t.WellFormed) (inside : v.state < t.size)
    (fits : ¬ v.Overflows t c) :
    ∃ (v₁ : Visit) (goesOn : Bool), v₁.state < t.size ∧ v₁.stack.capacity = v.stack.capacity ∧
      v₁.stack.dropped = v.stack.dropped ∧
      ∀ strict, ((v.withMode strict).step t c).value = (v₁.withMode strict, .ok goesOn) := by
  by_cases halted : v.halted = true
  · exact ⟨v, false, inside, rfl, rfl, fun strict =>
      congrArg Logged.value (step_of_halted (v := v.withMode strict) halted c)⟩
  · have running : v.halted = false := Bool.not_eq_true _ ▸ halted
    by_cases symbol : c = endOfInput
    · subst symbol
      exact ⟨{ v with halted := true }, false, inside, rfl, rfl, fun strict =>
        congrArg Logged.value (step_endOfInput (v := v.withMode strict) running)⟩
    · have room : (v.recorder t).count < (v.recorder t).capacity :=
        Nat.lt_of_le_of_ne (v.recorder t).count_le_capacity fun full =>
          fits ⟨running, symbol, full⟩
      obtain ⟨capacity, dropped⟩ := BoundedStack.write_kept (v.state : Int) room
      let stack := (v.recorder t).write v.state room
      have pushed : ∀ strict, (((v.withMode strict).recorder t).push v.state).value =
          .ok (stack.withMode strict) := by
        intro strict
        rw [recorder_withMode, BoundedStack.push_of_room (s := (v.recorder t).withMode strict) room,
          BoundedStack.write_withMode]
      have stepped := fun strict =>
        step_of_pushed (v := v.withMode strict) running symbol inside (pushed strict)
      simp only [show ∀ strict, (v.withMode strict).state = v.state from fun _ => rfl] at stepped
      cases next : t.next? v.state c with
      | none =>
          rw [next] at stepped
          exact ⟨⟨stack, v.state, true, v.consumed + 1⟩, false, inside,
            capacity.trans recorder_kept.1, dropped.trans recorder_kept.2, stepped⟩
      | some d =>
          rw [next] at stepped
          exact ⟨⟨stack, d, false, v.consumed + 1⟩, true, wf.next?_lt next,
            capacity.trans recorder_kept.1, dropped.trans recorder_kept.2, stepped⟩

theorem step_of_overflow_strict (inside : v.state < t.size) (positive : 0 < v.stack.capacity)
    (h : v.Overflows t c) :
    ((v.withMode true).step t c).value =
      ({ v.withMode true with consumed := v.consumed + 1 }, .error (.stackFull v.stack.capacity)) := by
  have same := h.recorder_eq positive
  have recorder : (v.withMode true).recorder t = v.stack.withMode true := by
    rw [recorder_withMode, same]
  have full : (v.stack.withMode true).count = (v.stack.withMode true).capacity := same ▸ h.full
  have refused : (((v.withMode true).recorder t).push v.state).value =
      .error (.stackFull v.stack.capacity) := by
    rw [recorder, BoundedStack.push_of_full full rfl]
    rfl
  rw [step_of_refused (v := v.withMode true) h.running h.symbol inside refused, recorder]
  rfl

theorem step_of_overflow_lenient (wf : t.WellFormed) (inside : v.state < t.size)
    (h : v.Overflows t c) :
    ∃ (v₁ : Visit) (goesOn : Bool), v₁.state < t.size ∧
      v₁.stack.dropped = v.stack.dropped + 1 ∧
      ((v.withMode false).step t c).value = (v₁.withMode false, .ok goesOn) := by
  let stack : BoundedStack := { v.recorder t with dropped := (v.recorder t).dropped + 1 }
  have dropped : stack.dropped = v.stack.dropped + 1 := congrArg (· + 1) recorder_kept.2
  have pushed : (((v.withMode false).recorder t).push v.state).value = .ok (stack.withMode false) := by
    rw [recorder_withMode,
      BoundedStack.push_of_full_lenient (s := (v.recorder t).withMode false) h.full rfl]
    rfl
  have stepped := step_of_pushed (v := v.withMode false) h.running h.symbol inside pushed
  simp only [show (v.withMode false).state = v.state from rfl] at stepped
  cases next : t.next? v.state c with
  | none =>
      rw [next] at stepped
      exact ⟨⟨stack, v.state, true, v.consumed + 1⟩, false, inside, dropped, stepped⟩
  | some d =>
      rw [next] at stepped
      exact ⟨⟨stack, d, false, v.consumed + 1⟩, true, wf.next?_lt next, dropped, stepped⟩

/-! ## Feeds in both modes -/

theorem walk_lenient (wf : t.WellFormed) (inside : v.state < t.size) (w : List Symbol) :
    ∃ v' : Visit, v'.state < t.size ∧ v.stack.dropped ≤ v'.stack.dropped ∧
      (v.withMode false).walk t w = (v'.withMode false, none) := by
  induction w generalizing v with
  | nil => exact ⟨v, inside, Nat.le_refl _, rfl⟩
  | cons c w ih =>
      by_cases full : v.Overflows t c
      · obtain ⟨v₁, goesOn, inside₁, dropped₁, stepped⟩ := step_of_overflow_lenient wf inside full
        obtain ⟨v', inside', dropped', walked⟩ := ih inside₁
        exact ⟨v', inside', by omega, (walk_cons_of_ok stepped).trans walked⟩
      · obtain ⟨v₁, goesOn, inside₁, -, dropped₁, stepped⟩ := step_withMode wf inside full
        obtain ⟨v', inside', dropped', walked⟩ := ih inside₁
        exact ⟨v', inside', by omega, (walk_cons_of_ok (stepped false)).trans walked⟩

structure Agree (t : Table) (v : Visit) (u : List Symbol) (v' : Visit) : Prop where
  walks : ∀ strict, (v.withMode strict).walk t u = (v'.withMode strict, none)
  inside : v'.state < t.size
  capacity : v'.stack.capacity = v.stack.capacity
  dropped : v'.stack.dropped = v.stack.dropped

theorem walk_until_overflow (wf : t.WellFormed) (inside : v.state < t.size) (w : List Symbol) :
    (∃ v', Agree t v w v') ∨
      ∃ u c rest before, w = u ++ c :: rest ∧ Agree t v u before ∧ before.Overflows t c := by
  induction w generalizing v with
  | nil => exact .inl ⟨v, fun _ => rfl, inside, rfl, rfl⟩
  | cons c w ih =>
      by_cases full : v.Overflows t c
      · exact .inr ⟨[], c, w, v, rfl, ⟨fun _ => rfl, inside, rfl, rfl⟩, full⟩
      · obtain ⟨v₁, goesOn, inside₁, capacity₁, dropped₁, stepped⟩ := step_withMode wf inside full
        have first : ∀ {u v'}, Agree t v₁ u v' → Agree t v (c :: u) v' := by
          intro u v' rest
          refine ⟨fun strict => ?_, rest.inside, rest.capacity.trans capacity₁,
            rest.dropped.trans dropped₁⟩
          rw [walk_cons_of_ok (stepped strict), rest.walks]
        rcases ih inside₁ with ⟨v', rest⟩ | ⟨u, d, rest, before, rfl, agree, full'⟩
        · exact .inl ⟨v', first rest⟩
        · exact .inr ⟨c :: u, d, rest, before, rfl, first agree, full'⟩

theorem attempts_of_overflow (inside : v.state < t.size) (positive : 0 < v.stack.capacity)
    (h : v.Overflows t c) {later : List Symbol} (symbols : endOfInput ∉ later) :
    (v.withMode true).attempts t later =
      (List.replicate later.length (.error (.stackFull v.stack.capacity)),
        { v.withMode true with consumed := v.consumed + later.length }) := by
  induction later generalizing v with
  | nil => rfl
  | cons d later ih =>
      rw [List.mem_cons, not_or] at symbols
      obtain ⟨symbol, rest⟩ := symbols
      have again : v.Overflows t d := ⟨h.running, Ne.symm symbol, h.full⟩
      have next := ih (v := { v with consumed := v.consumed + 1 }) inside positive
        ⟨h.running, h.symbol, h.full⟩ rest
      have counted : v.consumed + 1 + later.length = v.consumed + (d :: later).length := by
        rw [List.length_cons]
        omega
      rw [counted] at next
      rw [attempts_cons (step_of_overflow_strict inside positive again)]
      exact congrArg (fun r => (.error (.stackFull v.stack.capacity) :: r.1, r.2)) next

/-! ## The stack of the table has no part in a visit -/

theorem walk_withStack (capacity : Int) (strict : Bool) (w : List Symbol) :
    v.walk (t.withStack capacity strict) w = v.walk t w := by
  induction w generalizing v with
  | nil => rfl
  | cons c w ih =>
      rw [walk, walk, show v.step (t.withStack capacity strict) c = v.step t c from rfl]
      cases (v.step t c).value with
      | mk v' answer =>
          cases answer with
          | ok goesOn => exact ih
          | error f => rfl

theorem attempts_withStack (capacity : Int) (strict : Bool) (w : List Symbol) :
    v.attempts (t.withStack capacity strict) w = v.attempts t w := by
  induction w generalizing v with
  | nil => rfl
  | cons c w ih =>
      rw [attempts, attempts, show v.step (t.withStack capacity strict) c = v.step t c from rfl, ih]

/-! ## Both modes over a feed -/

structure Alike (t : Table) (v v' : Visit) : Prop where
  course : v'.course = v.course
  path : v'.path = v.path
  dropped : v.stack.dropped = 0 ∧ v'.stack.dropped = 0
  success : ∃ success, v.success t = .ok success ∧ v'.success t = .ok success

/-- What is left by a symbol that a strict stack refused: the visit before, with the symbol
counted. -/
structure Refused (before v : Visit) : Prop where
  state : v.state = before.state
  path : v.path = before.path
  halted : v.halted = false
  dropped : v.stack.dropped = 0
  consumed : v.consumed = before.consumed + 1

def FailsUntilEnd (t : Table) (v : Visit) (f : Fault) : Prop :=
  ∀ later, endOfInput ∉ later →
    v.attempts t later =
        (List.replicate later.length (.error f), { v with consumed := v.consumed + later.length }) ∧
      ∀ rest, v.attempts t (later ++ endOfInput :: rest) =
        (List.replicate later.length (.error f) ++ List.replicate (rest.length + 1) (.ok false),
          { v with halted := true, consumed := v.consumed + later.length })

/-- The strict visit `b` fails over `w`, where the lenient visit `a` drops a state for the first time,
and is then `v'`. -/
def FailsAtFirstDrop (t : Table) (a b : Visit) (w : List Symbol) (v' : Visit) (f : Fault) : Prop :=
  ∃ u c rest before, w = u ++ c :: rest ∧
    a.walk t u = (before, none) ∧ before.stack.dropped = 0 ∧
    (before.step t c).value.1.stack.dropped = 1 ∧
    (b.walk t u).2 = none ∧ b.walk t (u ++ [c]) = (v', some f) ∧
    Refused before v' ∧ FailsUntilEnd t v' f

theorem failsUntilEnd_of_overflow (inside : v.state < t.size) (positive : 0 < v.stack.capacity)
    (h : v.Overflows t c) :
    FailsUntilEnd t (v.withMode true) (.stackFull v.stack.capacity) := by
  intro later symbols
  have refused := attempts_of_overflow inside positive h symbols
  refine ⟨refused, fun rest => ?_⟩
  have ended := step_endOfInput (t := t)
    (v := { v.withMode true with consumed := v.consumed + later.length }) h.running
  rw [attempts_append, refused, attempts_cons (congrArg Logged.value ended),
    attempts_of_halted (by rfl)]
  rfl

theorem Agree.alike {w : List Symbol} (agree : Agree t v w v') (fresh : v.stack.dropped = 0) :
    Alike t (v'.withMode false) (v'.withMode true) where
  course := rfl
  path := rfl
  dropped := ⟨agree.dropped.trans fresh, agree.dropped.trans fresh⟩
  success := ⟨_, Table.isFinal_of_lt agree.inside, Table.isFinal_of_lt agree.inside⟩

theorem walk_modes (wf : t.WellFormed) (inside : v.state < t.size) (positive : 0 < v.stack.capacity)
    (fresh : v.stack.dropped = 0) (w : List Symbol) :
    ∃ v₁ v' raised, (v.withMode false).walk t w = (v₁, none) ∧
      (v.withMode true).walk t w = (v', raised) ∧
      ((∃ f, raised = some f) ↔ 0 < v₁.stack.dropped) ∧
      (raised = none → Alike t v₁ v') ∧
      ∀ f, raised = some f → f = .stackFull v.stack.capacity ∧
        FailsAtFirstDrop t (v.withMode false) (v.withMode true) w v' f := by
  rcases walk_until_overflow wf inside w with
    ⟨v', agree⟩ | ⟨u, c, rest, before, rfl, agree, full⟩
  · have alike := agree.alike fresh
    refine ⟨_, _, none, agree.walks false, agree.walks true, ?_, fun _ => alike, nofun⟩
    simp [alike.dropped.1]
  · have positive' : 0 < before.stack.capacity := agree.capacity ▸ positive
    have fresh' : before.stack.dropped = 0 := agree.dropped.trans fresh
    have refused := step_of_overflow_strict agree.inside positive' full
    obtain ⟨v₁, goesOn, inside₁, dropped₁, stepped⟩ :=
      step_of_overflow_lenient wf agree.inside full
    obtain ⟨last, -, dropped, walked⟩ := walk_lenient wf inside₁ rest
    have some' : 0 < last.stack.dropped := by omega
    refine ⟨last.withMode false, { before.withMode true with consumed := before.consumed + 1 },
      some (.stackFull before.stack.capacity), ?_, ?_, ⟨fun _ => some', fun _ => ⟨_, rfl⟩⟩, nofun, ?_⟩
    · rw [walk_append, agree.walks]
      exact (walk_cons_of_ok stepped).trans walked
    · rw [walk_append, agree.walks]
      exact walk_cons_of_error refused
    · intro f isRaised
      obtain rfl := Option.some.inj isRaised
      refine ⟨by rw [agree.capacity], u, c, rest, before.withMode false, rfl, agree.walks false,
        fresh', ?_, by rw [agree.walks], ?_, ⟨rfl, rfl, full.running, fresh', rfl⟩, ?_⟩
      · rw [stepped]
        exact dropped₁.trans (congrArg (· + 1) fresh')
      · rw [walk_append, agree.walks]
        exact walk_cons_of_error refused
      · exact failsUntilEnd_of_overflow (v := { before with consumed := before.consumed + 1 })
          agree.inside positive' ⟨full.running, full.symbol, full.full⟩

theorem failsAtFirstDrop_withStack {a b : Visit} {w : List Symbol} {f : Fault} (capacity : Int)
    (strict : Bool) :
    FailsAtFirstDrop (t.withStack capacity strict) a b w v' f ↔ FailsAtFirstDrop t a b w v' f := by
  have step : ∀ v c, step (t.withStack capacity strict) v c = v.step t c := fun _ _ => rfl
  simp only [FailsAtFirstDrop, FailsUntilEnd, walk_withStack, attempts_withStack, step]

/-! ## Runs -/

theorem begin_of_gt [Memory] (large : Memory.maxCells < t.capacity) :
    begin t = .error (if isIndex t.capacity then .outOfMemory else .uncountable) := by
  unfold begin
  rw [BoundedStack.ofCapacity_of_gt large]
  rfl

theorem begin_of_empty [Memory] (positive : 1 ≤ t.capacity) (fits : t.capacity ≤ Memory.maxCells)
    (empty : t.size = 0) : begin t = .error .noStates := by
  obtain ⟨stack, size, count, -, made⟩ := BoundedStack.ofCapacity_of_le positive fits
  have room : (stack.withMode t.strict).count < (stack.withMode t.strict).capacity := by
    change stack.count < stack.capacity
    omega
  have initial : t.initial = .error .noStates := by
    unfold Table.initial
    rw [if_pos]
    rw [Array.isEmpty_iff_size_eq_zero]
    exact empty
  unfold begin
  rw [made]
  simp only [bind, Except.bind, BoundedStack.push_of_room room, initial]

inductive Ran [Memory] (t : Table) : Except Fault Visit → Prop
  | noMemory (large : Memory.maxCells < t.capacity) :
      Ran t (.error (if isIndex t.capacity then .outOfMemory else .uncountable))
  | noStates (fits : t.capacity ≤ Memory.maxCells) (empty : t.size = 0) :
      Ran t (.error .noStates)
  | overflow (fits : t.capacity ≤ Memory.maxCells) (nonempty : 0 < t.size)
      (strict : t.strict = true) : Ran t (.error (.stackFull t.capacity.toNat))
  | whole {v : Visit} (fits : t.capacity ≤ Memory.maxCells) (inside : v.state < t.size) : Ran t (.ok v)

theorem ran [Memory] (wf : t.WellFormed) (positive : 1 ≤ t.capacity) (w : List Symbol) :
    Ran t (t.run w).value := by
  unfold Table.run
  by_cases large : Memory.maxCells < t.capacity
  · rw [begin_of_gt large]
    exact .noMemory large
  · have fits : t.capacity ≤ Memory.maxCells := Int.not_lt.1 large
    rcases Nat.eq_zero_or_pos t.size with empty | nonempty
    · rw [begin_of_empty positive fits empty]
      exact .noStates fits empty
    · obtain ⟨v₀, atStart, cells, -, begun⟩ := begin_withStack nonempty positive fits
      have state : v₀.state = t.start := congrArg Course.state atStart
      have inside : v₀.state < t.size := state ▸ wf.start_lt nonempty
      rw [show begin t = .ok (v₀.withMode t.strict) from begun t.strict]
      simp only [feed_value]
      rcases walk_until_overflow wf inside w with
        ⟨v', agree⟩ | ⟨u, c, rest, before, rfl, agree, full⟩
      · rw [agree.walks]
        exact .whole fits agree.inside
      · cases mode : t.strict with
        | false =>
            obtain ⟨v', inside', -, walked⟩ := walk_lenient wf inside (u ++ c :: rest)
            rw [walked]
            exact .whole fits inside'
        | true =>
            have positive' : 0 < before.stack.capacity := by
              rw [agree.capacity]
              omega
            have refused := step_of_overflow_strict agree.inside positive' full
            rw [walk_append, agree.walks]
            simp only [walk_cons_of_error refused, agree.capacity, cells]
            exact .overflow fits nonempty mode

end Visit

open Visit

/-- Strict and lenient visits agree until the first overflow, where the lenient one drops a state and
the strict one is refused for good. Stacks that do not fit in memory cannot be made in either mode. -/
theorem strict_until_overflow [Memory] (t : Table) (wf : t.WellFormed) (nonempty : 0 < t.size)
    (capacity : Int) (positive : 1 ≤ capacity) :
    let lenient := t.withStack capacity false
    let strict := t.withStack capacity true
    (Memory.maxCells < capacity → begin lenient = begin strict ∧
      begin strict = .error (if isIndex capacity then .outOfMemory else .uncountable)) ∧
    (capacity ≤ Memory.maxCells →
      ∃ a b, begin lenient = .ok a ∧ begin strict = .ok b ∧ ∀ w, ∃ v v' raised,
        (lenient.run w).value = .ok v ∧ b.walk strict w = (v', raised) ∧
        ((∃ f, raised = some f) ↔ 0 < v.stack.dropped) ∧
        (raised = none → Alike t v v') ∧
        ∀ f, raised = some f → f = .stackFull capacity.toNat ∧
          FailsAtFirstDrop strict a b w v' f) := by
  intro lenient strict
  refine ⟨fun large => ?_, fun fits => ?_⟩
  · have begun : begin lenient = _ := begin_of_gt large
    have begun' : begin strict = _ := begin_of_gt large
    exact ⟨begun.trans begun'.symm, begun'⟩
  · obtain ⟨v₀, atStart, cells, fresh, begun⟩ := begin_withStack nonempty positive fits
    refine ⟨v₀.withMode false, v₀.withMode true, begun false, begun true, fun w => ?_⟩
    have state : v₀.state = t.start := congrArg Course.state atStart
    obtain ⟨v, v', raised, walked, walked', iff, alike, overflow⟩ :=
      walk_modes wf (v := v₀) (state ▸ wf.start_lt nonempty) (by omega) fresh w
    refine ⟨v, v', raised, ?_, (walk_withStack ..).trans walked', iff, alike, ?_⟩
    · have walked : walk lenient (v₀.withMode false) w = (v, none) :=
        (walk_withStack ..).trans walked
      rw [Table.run, begun]
      simp only [feed_value, walked]
    · intro f isRaised
      obtain ⟨isFull, fails⟩ := overflow f isRaised
      exact ⟨cells ▸ isFull, (failsAtFirstDrop_withStack ..).2 fails⟩

theorem strict_until_overflow_example :
    let _ : Memory := Host.usual.toMemory
    let t := Table.loadExample {}
    (t.WellFormed ∧ 0 < t.size) ∧
      ∃ a b v', begin (t.withStack 1 false) = .ok a ∧ begin (t.withStack 1 true) = .ok b ∧
        FailsAtFirstDrop (t.withStack 1 true) a b ["a", "c"] v' (.stackFull 1) := by
  intro memory t
  have wf : t.WellFormed := ⟨by decide, by decide, by decide⟩
  obtain ⟨a, b, begun, begun', modes⟩ :=
    (strict_until_overflow t wf (by decide) 1 (by decide)).2 (by decide)
  obtain ⟨v, v', raised, ran, -, iff, -, overflow⟩ := modes ["a", "c"]
  have drops : v.stack.dropped = 1 := by
    have : ((t.withStack 1 false).run ["a", "c"]).value.map (fun v => v.stack.dropped) = .ok 1 := rfl
    rw [ran] at this
    exact Except.ok.inj this
  obtain ⟨f, isRaised⟩ := iff.2 (by omega)
  obtain ⟨rfl, fails⟩ := overflow f isRaised
  exact ⟨⟨wf, by decide⟩, a, b, v', begun, begun', fails⟩

theorem overflow_ends_with_input :
    let _ : Memory := Host.usual.toMemory
    let t := (Table.loadExample {}).withStack 1 true
    (t.WellFormed ∧ 0 < t.size) ∧
      ∃ v v', begin t = .ok v ∧ v.walk t ["a"] = (v', some (.stackFull 1)) ∧
        ¬ ∀ later c, c ≠ endOfInput →
          ∃ f, ((v'.attempts t later).2.step t c).value.2 = .error f := by
  refine ⟨⟨⟨by decide, by decide, by decide⟩, by decide⟩, _, _, rfl, rfl, fun raises => ?_⟩
  obtain ⟨f, raised⟩ := raises [endOfInput] "a" (by decide)
  cases raised

end Acceptor
