import Acceptor.Proofs.Visit.Step

namespace Acceptor

namespace Visit

variable {t : Table} {v v' b : Visit} {c : Symbol} {u w : List Symbol} {f : Fault} {i : Nat}

theorem answer_eq_false_iff :
    (v.step t c).value.2 = .ok false ↔ (v.step t c).value.1.halted = true := by
  refine ⟨fun answer => halted_of_stops (Prod.ext rfl answer), ?_⟩
  unfold step
  split
  · exact fun _ => rfl
  · rename_i running
    split
    · exact fun _ => rfl
    · simp only
      split
      · exact fun halted => absurd halted running
      · rename_i here _
        generalize recorded : (if here.accepting = true then
          { v with consumed := v.consumed + 1, stack := v.stack.clear }
          else { v with consumed := v.consumed + 1 } : Visit) = r
        have same : r.halted = v.halted := by
          rw [← recorded]
          split <;> rfl
        split
        · exact fun halted => absurd (same.symm.trans halted) running
        · unfold move
          cases here.next? c with
          | none => exact fun _ => rfl
          | some d => exact fun halted => absurd (same.symm.trans halted) running

/-- The symbols before number `i` are taken, and that one fails. -/
structure FailsOn (t : Table) (v : Visit) (w : List Symbol) (i : Nat) (f : Fault) : Prop where
  inside : i < w.length
  before : (v.walk t (w.take i)).2 = none
  fails : (v.walk t (w.take (i + 1))).2 = some f

theorem exists_failsOn (fails : (v.walk t w).2 = some f) : ∃ i, v.FailsOn t w i f := by
  induction w generalizing v with
  | nil => cases fails
  | cons c w ih =>
      cases taken : (v.step t c).value with
      | mk v' answer =>
          cases answer with
          | error f' =>
              rw [walk_cons_of_error taken] at fails
              refine ⟨0, by simp, rfl, ?_⟩
              rw [List.take_succ_cons, walk_cons_of_error taken]
              exact fails
          | ok goesOn =>
              rw [walk_cons_of_ok taken] at fails
              obtain ⟨i, inside, before, fails⟩ := ih fails
              refine ⟨i + 1, Nat.succ_lt_succ inside, ?_, ?_⟩
              · rw [List.take_succ_cons, walk_cons_of_ok taken]
                exact before
              · rw [List.take_succ_cons, walk_cons_of_ok taken]
                exact fails

theorem failsOn_append_of_lt (front : i < u.length) :
    v.FailsOn t (u ++ w) i f ↔ v.FailsOn t u i f := by
  have before : (u ++ w).take i = u.take i := List.take_append_of_le_length (Nat.le_of_lt front)
  have through : (u ++ w).take (i + 1) = u.take (i + 1) := List.take_append_of_le_length front
  constructor
  · intro h
    exact ⟨front, before ▸ h.before, through ▸ h.fails⟩
  · intro h
    exact ⟨by rw [List.length_append]; omega, before.symm ▸ h.before, through.symm ▸ h.fails⟩

theorem failsOn_append_add (walked : v.walk t u = (v', none)) (j : Nat) :
    v.FailsOn t (u ++ w) (u.length + j) f ↔ v'.FailsOn t w j f := by
  have part : ∀ k, (v.walk t ((u ++ w).take (u.length + k))) = v'.walk t (w.take k) := by
    intro k
    rw [List.take_length_add_append, walk_append, walked]
  constructor
  · intro h
    have inside := h.inside
    rw [List.length_append] at inside
    exact ⟨by omega, part j ▸ h.before, part (j + 1) ▸ h.fails⟩
  · intro h
    have inside := h.inside
    exact ⟨by rw [List.length_append]; omega, (part j).symm ▸ h.before, (part (j + 1)).symm ▸ h.fails⟩

theorem failsOn_append :
    v.FailsOn t (u ++ w) i f ↔
      v.FailsOn t u i f ∨
        ∃ v' j, v.walk t u = (v', none) ∧ v'.FailsOn t w j f ∧ i = u.length + j := by
  rcases Nat.lt_or_ge i u.length with front | back
  · rw [failsOn_append_of_lt front]
    refine ⟨.inl, ?_⟩
    rintro (h | ⟨v', j, -, -, rfl⟩)
    · exact h
    · omega
  · obtain ⟨j, rfl⟩ := Nat.exists_eq_add_of_le back
    constructor
    · intro h
      cases walked : v.walk t u with
      | mk v' stopped =>
          cases stopped with
          | none => exact .inr ⟨v', j, rfl, (failsOn_append_add walked j).1 h, rfl⟩
          | some f' =>
              -- the first part has failed before the symbol is reached
              have before := h.before
              rw [List.take_length_add_append, walk_append, walked] at before
              cases before
    · rintro (h | ⟨v', k, walked, h, same⟩)
      · have inside := h.inside
        omega
      · obtain rfl := Nat.add_left_cancel same
        exact (failsOn_append_add walked j).2 h

end Visit

open Visit

namespace Table

variable {t : Table} {b v : Visit} {w : List Symbol} {f : Fault} {i : Nat}

structure FailsOn [Memory] (t : Table) (w : List Symbol) (i : Nat) (f : Fault) : Prop where
  inside : i < w.length
  before : ∃ v, (t.run (w.take i)).value = .ok v
  fails : (t.run (w.take (i + 1))).value = .error f

theorem run_eq_ok [Memory] (begun : begin t = .ok b) :
    (t.run w).value = .ok v ↔ b.walk t w = (v, none) := by
  rw [run, begun]
  simp only [feed_value]
  cases b.walk t w with
  | mk v' stopped => cases stopped <;> simp

theorem run_eq_error [Memory] (begun : begin t = .ok b) :
    (t.run w).value = .error f ↔ (b.walk t w).2 = some f := by
  rw [run, begun]
  simp only [feed_value]
  cases b.walk t w with
  | mk v' stopped => cases stopped <;> simp

theorem failsOn_iff [Memory] (begun : begin t = .ok b) : t.FailsOn w i f ↔ b.FailsOn t w i f := by
  constructor
  · rintro ⟨inside, ⟨v, before⟩, fails⟩
    exact ⟨inside, congrArg Prod.snd ((run_eq_ok begun).1 before), (run_eq_error begun).1 fails⟩
  · rintro ⟨inside, before, fails⟩
    exact ⟨inside, ⟨_, (run_eq_ok begun).2 (Prod.ext rfl before)⟩, (run_eq_error begun).2 fails⟩

end Table

/-- A run of a feed in two parts is the run of the first, continued by hand through the second. It fails
only if a strict stack is full, and then at the same symbol. A stack that does not fit in memory cannot
be made, and no run begins. -/
theorem run_append [Memory] (t : Table) (wf : t.WellFormed) (nonempty : 0 < t.size)
    (positive : 1 ≤ t.capacity) :
    (t.capacity ≤ Memory.maxCells → ∀ u w,
      (∀ v', (t.run (u ++ w)).value = .ok v' ↔
        ∃ v, (t.run u).value = .ok v ∧ v.walk t w = (v', none)) ∧
      (∀ i f, t.FailsOn (u ++ w) i f ↔
        t.FailsOn u i f ∨
          ∃ v j, (t.run u).value = .ok v ∧ v.FailsOn t w j f ∧ i = u.length + j) ∧
      (∀ f, (t.run (u ++ w)).value = .error f →
        t.strict = true ∧ f = .stackFull t.capacity.toNat ∧ ∃ i, t.FailsOn (u ++ w) i f) ∧
      ∀ v, (t.run u).value = .ok v → v.halted = true →
        v.attempts t w = (List.replicate w.length (.ok false), v)) ∧
    (∀ (v : Visit) (c : Symbol),
      (v.step t c).value.2 = .ok false ↔ (v.step t c).value.1.halted = true) ∧
    (Memory.maxCells < t.capacity → ∀ w,
      (t.run w).value = .error (if isIndex t.capacity then .outOfMemory else .uncountable)) := by
  refine ⟨fun fits u w => ?_, fun v c => answer_eq_false_iff, fun large w => ?_⟩
  · obtain ⟨b, begun, -⟩ := begin_of_nonempty positive fits nonempty
    refine ⟨fun v' => ?_, fun i f => ?_, fun f failed => ?_, fun v _ halted =>
      attempts_of_halted halted w⟩
    · simp only [Table.run_eq_ok begun, walk_append]
      cases b.walk t u with
      | mk v stopped => cases stopped <;> simp
    · simp only [Table.failsOn_iff begun, Table.run_eq_ok begun]
      exact failsOn_append
    · obtain ⟨i, fails⟩ := exists_failsOn ((Table.run_eq_error begun).1 failed)
      have end' := ran wf positive (u ++ w)
      rw [failed] at end'
      cases end' with
      | noMemory large => omega
      | noStates _ empty => omega
      | overflow _ _ strict => exact ⟨strict, rfl, i, (Table.failsOn_iff begun).2 fails⟩
  · rw [Table.run, begin_of_gt large]

theorem run_append_example :
    let _ : Memory := Host.usual.toMemory
    let t : Table :=
      { states := #[{ edges := [⟨.charClass .any, 0⟩] }], capacity := 2, strict := true }
    (t.WellFormed ∧ 0 < t.size ∧ 1 ≤ t.capacity ∧ t.capacity ≤ Memory.maxCells) ∧
      t.FailsOn (["x"] ++ ["y", "z"]) 1 (.stackFull 2) := by
  intro memory t
  have wf : t.WellFormed := ⟨by decide, by decide, by decide⟩
  obtain ⟨-, fails, -⟩ := (run_append t wf (by decide) (by decide)).1 (by decide) ["x"] ["y", "z"]
  exact ⟨⟨wf, by decide, by decide, by decide⟩,
    (fails 1 _).2 (.inr ⟨_, 0, rfl, ⟨by decide, rfl, rfl⟩, rfl⟩)⟩

theorem no_continuation_of_uncountable_capacity :
    let _ : Memory := Host.usual.toMemory
    let t := (Table.loadExample {}).withStack 0x8000000000000000 true
    (t.WellFormed ∧ 0 < t.size ∧ 1 ≤ t.capacity) ∧
      ¬ ((∃ v v', (t.run ["a"]).value = .ok v ∧ v.walk t ["c"] = (v', none) ∧
          (t.run (["a"] ++ ["c"])).value = .ok v') ∨
        ∃ n, (t.run (["a"] ++ ["c"])).value = .error (.stackFull n)) := by
  intro memory t
  refine ⟨⟨⟨by decide, by decide, by decide⟩, by decide, by decide⟩, ?_⟩
  have refused : (t.run (["a"] ++ ["c"])).value = .error .uncountable := rfl
  rw [refused]
  rintro (⟨v, v', -, -, arrived⟩ | ⟨n, failed⟩)
  · cases arrived
  · cases failed

end Acceptor
