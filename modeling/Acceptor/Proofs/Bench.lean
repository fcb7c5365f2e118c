import Acceptor.Bench
import Acceptor.Proofs.Visit.Step

namespace Acceptor

namespace Bench

variable {b b' : Bench} {call : Call} {v : Visit} {c : Symbol} {f : Fault} {i : Int} {k : Nat}

/-- The call does not make all states anew. -/
def Call.keepsStates : Call → Bool
  | .reset | .loadExample => false
  | _ => true

def Call.named : Call → List Int
  | .markFinal s _ | .setStart s => [s]
  | .addEdge source _ dest => [source, dest]
  | _ => []

def after [Memory] (b : Bench) (calls : List Call) : Bench :=
  calls.foldl (fun b call => (b.perform call).value.1) b

theorem visitAt_eq_ok (h : b.visitAt i = .ok (k, v)) : b.visits[k]? = some v := by
  unfold visitAt at h
  cases item : itemAt b.visits i with
  | error f =>
      rw [item] at h
      cases h
  | ok w =>
      rw [item] at h
      obtain ⟨rfl, rfl⟩ := Prod.mk.inj (Except.ok.inj h)
      exact itemAt_eq_ok item

theorem visitAt_of_getElem? (there : b.visits[k]? = some v) : b.visitAt k = .ok (k, v) := by
  rw [visitAt, fromEnd_natCast, itemAt_of_some there]
  rfl

theorem perform_begin_of_ok [Memory] (begun : Visit.begin b.table = .ok v) :
    (b.perform .begin).value = ({ b with visits := b.visits.push v }, .ok (.number b.visits.size)) := by
  simp only [perform, begun, answer]

theorem perform_begin_of_error [Memory] (failed : Visit.begin b.table = .error f) :
    (b.perform .begin).value = (b, .error f) := by
  simp only [perform, failed, fail]

theorem perform_step [Memory] (there : b.visitAt i = .ok (k, v)) :
    (b.perform (.step i c)).value =
      ({ b with visits := b.visits.setIfInBounds k (v.step b.table c).value.1 },
        (v.step b.table c).value.2.map .flag) := by
  simp only [perform, there]

theorem perform_step_of_error [Memory] (missing : b.visitAt i = .error f) :
    (b.perform (.step i c)).value = (b, .error f) := by
  simp only [perform, missing, fail]

theorem change_eq_error {t : Except Fault Table} :
    (b.change t).value.2 = .error f ↔ t = .error f := by
  cases t with
  | ok u => exact ⟨nofun, nofun⟩
  | error f' => simp [change, fail]

theorem change_of_error {t : Except Fault Table} (failed : (b.change t).value.2 = .error f) :
    (b.change t).value.1 = b := by
  rw [change_eq_error.1 failed]
  rfl

inductive Became [Memory] (b : Bench) : Bench → Prop
  | same : Became b b
  | table {t : Table} (grows : b.table.size ≤ t.size)
      (wellFormed : b.table.WellFormed → t.WellFormed) : Became b { b with table := t }
  | begun {v : Visit} (begun : Visit.begin b.table = .ok v) :
      Became b { b with visits := b.visits.push v }
  | stepped {v : Visit} {k : Nat} (there : b.visits[k]? = some v) (c : Symbol) :
      Became b { b with visits := b.visits.setIfInBounds k (v.step b.table c).value.1 }

theorem became_change [Memory] {t : Except Fault Table} (edits : ∀ u, t = .ok u → b.table.Edits u) :
    b.Became (b.change t).value.1 := by
  cases t with
  | error f => exact .same
  | ok u =>
      have edit := edits u rfl
      exact .table (Nat.le_of_eq edit.size.symm) edit.wellFormed

theorem became [Memory] (keeps : call.keepsStates = true) : b.Became (b.perform call).value.1 := by
  cases call with
  | addState =>
      have grows : b.table.size ≤ b.table.addState.size := Table.size_addState ▸ Nat.le_succ _
      exact .table grows Table.WellFormed.addState
  | markFinal s final => exact became_change fun _ => Table.edits_markFinal
  | setStart s => exact became_change fun _ => Table.edits_setStart
  | addEdge source p dest => exact became_change fun _ => Table.edits_addEdge
  | setCapacity capacity =>
      exact .table (Nat.le_refl _) fun h => h.withStack capacity b.table.strict
  | setStrict strict => exact .table (Nat.le_refl _) fun h => h.withStack b.table.capacity strict
  | reset | loadExample => cases keeps
  | begin =>
      cases begun : Visit.begin b.table with
      | error f => exact perform_begin_of_error begun ▸ .same
      | ok v => exact perform_begin_of_ok begun ▸ .begun begun
  | step i c =>
      cases there : b.visitAt i with
      | error f => exact perform_step_of_error there ▸ .same
      | ok found => exact perform_step there ▸ .stepped (visitAt_eq_ok there) c
  | size | has | initial | advance | isFinal | accepts | run | success | inspect | script | dot | dump =>
      exact .same

theorem table_of_error [Memory] (failed : (b.perform call).value.2 = .error f) :
    (b.perform call).value.1.table = b.table := by
  cases call with
  | markFinal | setStart | addEdge => exact congrArg table (change_of_error failed)
  | addState | setCapacity | setStrict | reset | loadExample => cases failed
  | begin =>
      cases begun : Visit.begin b.table with
      | error f => rw [perform_begin_of_error begun]
      | ok v => rw [perform_begin_of_ok begun]
  | step i c =>
      cases there : b.visitAt i with
      | error f => rw [perform_step_of_error there]
      | ok found => rw [perform_step there]
  | size | has | initial | advance | isFinal | accepts | run | success | inspect | script | dot | dump =>
      rfl

theorem guarded_eq_error {there : Bool} {u : Table} :
    (b.change (if there = true then .ok u else .error .notAState)).value.2 = .error f ↔
      f = .notAState ∧ there = false := by
  rw [change_eq_error]
  cases there with
  | true => simp
  | false => simp [eq_comm]

theorem edit_eq_error [Memory] (edit : call.named ≠ []) :
    (b.perform call).value.2 = .error f ↔
      f = .notAState ∧ ∃ s ∈ call.named, b.table.has s = false := by
  cases call with
  | markFinal s final =>
      apply Iff.trans guarded_eq_error
      simp [Call.named]
  | setStart s =>
      apply Iff.trans guarded_eq_error
      simp [Call.named]
  | addEdge source p dest =>
      apply Iff.trans guarded_eq_error
      rw [Bool.and_eq_false_iff]
      simp [Call.named]
  | _ => exact absurd rfl edit

structure Live (b : Bench) : Prop where
  table : b.table.WellFormed
  inside : ∀ v ∈ b.visits, v.state < b.table.size

structure Follows (b b' : Bench) : Prop where
  size : b.table.size ≤ b'.table.size
  stack : ∀ (k : Nat) v, b.visits[k]? = some v →
    ∃ v', b'.visits[k]? = some v' ∧ v'.stack.capacity = v.stack.capacity ∧
      v'.stack.strict = v.stack.strict

theorem Follows.refl (b : Bench) : b.Follows b :=
  ⟨Nat.le_refl _, fun _ v there => ⟨v, there, rfl, rfl⟩⟩

theorem Follows.trans {b'' : Bench} (first : b.Follows b') (second : b'.Follows b'') :
    b.Follows b'' := by
  refine ⟨Nat.le_trans first.size second.size, fun k v there => ?_⟩
  obtain ⟨v', there', capacity', strict'⟩ := first.stack k v there
  obtain ⟨v'', there'', capacity'', strict''⟩ := second.stack k v' there'
  exact ⟨v'', there'', capacity''.trans capacity', strict''.trans strict'⟩

theorem Live.of_became [Memory] (live : b.Live) (became : b.Became b') : b'.Live := by
  cases became with
  | same => exact live
  | table grows wellFormed =>
      exact ⟨wellFormed live.table, fun v hv => Nat.lt_of_lt_of_le (live.inside v hv) grows⟩
  | begun begun =>
      have begun := Visit.begun_of_begin begun
      refine ⟨live.table, fun v hv => ?_⟩
      rcases Array.mem_push.1 hv with old | rfl
      · exact live.inside v old
      · rw [begun.state]
        exact live.table.start_lt begun.nonempty
  | stepped there c =>
      refine ⟨live.table, fun v hv => ?_⟩
      rcases Array.mem_or_eq_of_mem_setIfInBounds hv with old | rfl
      · exact live.inside v old
      · exact Visit.step_inside live.table (live.inside _ (Array.mem_of_getElem? there)) c

theorem Live.follows_of_became [Memory] (live : b.Live) (became : b.Became b') : b.Follows b' := by
  cases became with
  | same => exact .refl b
  | table grows => exact ⟨grows, fun _ v there => ⟨v, there, rfl, rfl⟩⟩
  | begun =>
      refine ⟨Nat.le_refl _, fun k v there => ⟨v, ?_, rfl, rfl⟩⟩
      have inside : k < b.visits.size := (Array.getElem?_eq_some_iff.1 there).1
      exact (Array.getElem?_push_lt inside).trans (Array.getElem?_eq_getElem inside ▸ there)
  | @stepped v k there c =>
      refine ⟨Nat.le_refl _, fun j w there' => ?_⟩
      by_cases same : k = j
      · subst same
        obtain rfl := Option.some.inj (there.symm.trans there')
        have inside : k < b.visits.size := (Array.getElem?_eq_some_iff.1 there).1
        exact ⟨_, Array.getElem?_setIfInBounds_self_of_lt inside,
          Visit.step_stack (live.inside v (Array.mem_of_getElem? there)) c⟩
      · exact ⟨w, (Array.getElem?_setIfInBounds_ne same).trans there', rfl, rfl⟩

theorem Live.after [Memory] (live : b.Live) (calls : List Call)
    (keeps : ∀ call ∈ calls, call.keepsStates = true) :
    (b.after calls).Live ∧ b.Follows (b.after calls) := by
  induction calls generalizing b with
  | nil => exact ⟨live, .refl b⟩
  | cons call calls ih =>
      have became := became (b := b) (keeps call (List.mem_cons_self ..))
      obtain ⟨live', follows⟩ :=
        ih (live.of_became became) fun call' h => keeps call' (List.mem_cons_of_mem _ h)
      exact ⟨live', (live.follows_of_became became).trans follows⟩

theorem perform_begin_eq_error [Memory] :
    (b.perform .begin).value.2 = .error f ↔ Visit.CannotBegin b.table f := by
  rw [← Visit.begin_eq_error_iff]
  cases begun : Visit.begin b.table with
  | error f' => simp [perform_begin_of_error begun]
  | ok v => simp [perform_begin_of_ok begun]

theorem Live.step_eq_error [Memory] (live : b.Live) (there : b.visits[k]? = some v) :
    (b.perform (.step k c)).value.2 = .error f ↔
      v.stack.strict = true ∧ v.Overflows b.table c ∧ f = .stackFull v.stack.capacity := by
  rw [← Visit.step_eq_error_iff (live.inside v (Array.mem_of_getElem? there)),
    perform_step (visitAt_of_getElem? there)]
  cases (v.step b.table c).value.2 with
  | error f' => simp [Except.map]
  | ok goesOn => simp [Except.map]

theorem Live.success_eq_ok [Memory] (live : b.Live) (there : b.visits[k]? = some v) :
    (b.perform (.success k)).value.2 = .ok (.flag (b.table.isAccepting v.state)) := by
  have success : v.success b.table = .ok (b.table.isAccepting v.state) :=
    Table.isFinal_of_lt (live.inside v (Array.mem_of_getElem? there))
  simp only [perform, ask, visitAt_of_getElem? there, success, bind, Except.bind, pure, Except.pure]

theorem visit_keeps_stack [Memory] (live : b.Live) (begun : Visit.begin b.table = .ok v)
    (calls : List Call) (keeps : ∀ call ∈ calls, call.keepsStates = true) :
    ∃ v', ((b.perform .begin).value.1.after calls).visits[b.visits.size]? = some v' ∧
      v'.stack.capacity = b.table.capacity ∧ v'.stack.strict = b.table.strict := by
  have same := Visit.begun_of_begin begun
  have live' : (b.perform .begin).value.1.Live := live.of_became (became rfl)
  have there : (b.perform .begin).value.1.visits[b.visits.size]? = some v := by
    rw [perform_begin_of_ok begun]
    exact Array.getElem?_push_size
  obtain ⟨v', there', capacity, strict⟩ := (live'.after calls keeps).2.stack b.visits.size v there
  exact ⟨v', there', capacity ▸ same.capacity, strict.trans same.strict⟩

/-- In any order of calls that keep the states, every visit stands in a state of the table. A call that
fails leaves the table as it was. An edit fails for a state that is not there, a step for want of room on
a strict stack, and what a visit says of its state does not fail. -/
theorem live_visits [Memory] (live : b.Live) (calls : List Call)
    (keeps : ∀ call ∈ calls, call.keepsStates = true) :
    let b := b.after calls
    b.Live ∧
      (∀ s : Nat, (∃ accepting, b.table.isFinal s = .ok accepting) ↔ s < b.table.size) ∧
      (∀ call f, (b.perform call).value.2 = .error f → (b.perform call).value.1.table = b.table) ∧
      (∀ call f, call.named ≠ [] →
        ((b.perform call).value.2 = .error f ↔
          f = .notAState ∧ ∃ s ∈ call.named, b.table.has s = false)) ∧
      (∀ f, (b.perform .begin).value.2 = .error f ↔ Visit.CannotBegin b.table f) ∧
      ∀ (k : Nat) v, b.visits[k]? = some v →
        (b.perform (.success k)).value.2 = .ok (.flag (b.table.isAccepting v.state)) ∧
          ∀ c f, (b.perform (.step k c)).value.2 = .error f ↔
            v.stack.strict = true ∧ v.Overflows b.table c ∧ f = .stackFull v.stack.capacity := by
  intro b
  have live : b.Live := (live.after calls keeps).1
  exact ⟨live, Table.isFinal_eq_ok_iff b.table, fun _ _ => table_of_error, fun _ _ => edit_eq_error,
    fun _ => perform_begin_eq_error,
    fun _ _ there => ⟨live.success_eq_ok there, fun _ _ => live.step_eq_error there⟩⟩

theorem live_visits_of_new_table :
    let _ : Memory := Host.usual.toMemory
    let b : Bench := { table := {} }
    let calls := [.addState, .addState, .addEdge 0 (.test "any" fun _ => true) 1, .begin,
      .setStrict true, .markFinal 2 true, .setStart 1, .step 0 "a", .setCapacity 0]
    (b.Live ∧ ∀ call ∈ calls, call.keepsStates = true) ∧
      (b.after calls).Live ∧
      ((b.after calls).perform .begin).value.2 = .error (.invalidCapacity 0) ∧
      ((b.after calls).perform (.markFinal (-1) true)).value.2 = .error .notAState ∧
      ∃ v, (b.after calls).visits[0]? = some v ∧ v.state = 1 ∧
        ∀ c f, ((b.after calls).perform (.step (0 : Nat) c)).value.2 ≠ .error f := by
  intro memory b calls
  have live : b.Live := ⟨Table.wellFormed_empty 100 false, by simp [b]⟩
  have keeps : ∀ call ∈ calls, call.keepsStates = true := by simp [calls, Call.keepsStates]
  obtain ⟨live', -, -, edits, begins, visits⟩ := live_visits live calls keeps
  have first : (b.after calls).visits[0]?.map (fun v => (v.state, v.stack.strict)) =
      some (1, false) := by decide +kernel
  obtain ⟨v, there, same⟩ := Option.map_eq_some_iff.1 first
  obtain ⟨state, lenient⟩ := Prod.mk.inj same
  have capacity : (b.after calls).table.capacity = 0 := by decide +kernel
  have invalid : Visit.CannotBegin (b.after calls).table (.invalidCapacity 0) := by
    rw [← capacity]
    exact .capacity (by omega)
  have missing : (b.after calls).table.has (-1) = false := by decide +kernel
  have failed := (edits (.markFinal (-1) true) .notAState (by simp [Call.named])).2
    ⟨rfl, -1, by simp [Call.named], missing⟩
  refine ⟨⟨live, keeps⟩, live', (begins _).2 invalid, failed, v, there, state, fun c f full => ?_⟩
  have strict := (((visits 0 v there).2 c f).1 full).1
  rw [lenient] at strict
  cases strict

theorem no_visit_of_uncountable_capacity :
    let _ : Memory := Host.usual.toMemory
    let b := ({ table := {} } : Bench).after [.addState, .setCapacity 0x8000000000000000]
    (b.perform .begin).value.2 = .error .uncountable ∧
      ¬ ((∃ f, (b.perform .begin).value.2 = .error f) ↔ b.table.capacity ≤ 0 ∨ b.table.size = 0) := by
  intro memory b
  have refused : (b.perform .begin).value.2 = .error .uncountable := rfl
  refine ⟨refused, fun claim => ?_⟩
  rcases claim.1 ⟨_, refused⟩ with invalid | empty
  · exact absurd invalid (by decide)
  · exact absurd empty (by decide)

end Bench

end Acceptor
