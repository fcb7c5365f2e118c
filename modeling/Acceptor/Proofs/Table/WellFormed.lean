import Acceptor.Table.Basic

namespace Acceptor

theorem fromEnd_natCast (length n : Nat) : fromEnd length n = n := by
  unfold fromEnd
  rw [if_neg (by omega)]

theorem itemAt_of_some {α : Type} {row : Array α} {n : Nat} {a : α} (there : row[n]? = some a) :
    itemAt row n = .ok a := by
  have place : ¬ (n : Int) < 0 := by omega
  simp [itemAt, fromEnd_natCast, place, there]

theorem itemAt_of_none {α : Type} {row : Array α} {n : Nat} (missing : row[n]? = none) :
    itemAt row n = .error (.outOfRange n) := by
  have place : ¬ (n : Int) < 0 := by omega
  simp [itemAt, fromEnd_natCast, place, missing]

theorem itemAt_eq_ok {α : Type} {row : Array α} {n : Int} {a : α} (h : itemAt row n = .ok a) :
    row[(fromEnd row.size n).toNat]? = some a := by
  unfold itemAt at h
  simp only at h
  split at h
  · cases h
  · split at h
    · rename_i there
      exact Except.ok.inj h ▸ there
    · cases h

namespace Table

structure WellFormed (t : Table) : Prop where
  dest_lt : ∀ st ∈ t.states, ∀ e ∈ st.edges, e.dest < t.size
  start_lt : 0 < t.size → t.start < t.size
  start_eq : t.size = 0 → t.start = 0

def next? (t : Table) (s : Nat) (c : Symbol) : Option Nat := do
  let st ← t.states[s]?
  let e ← st.edges.find? fun e => e.predicate.holds c
  return e.dest

def isAccepting (t : Table) (s : Nat) : Bool := t.states[s]?.any State.accepting

def withStack (t : Table) (capacity : Int) (strict : Bool) : Table := { t with capacity, strict }

variable {t : Table} {s d : Nat} {c : Symbol}

theorem has_iff {s : Int} : t.has s = true ↔ 0 ≤ s ∧ s < t.size := by
  simp [has]

theorem initial_of_pos (h : 0 < t.size) : t.initial = .ok t.start := by
  unfold initial
  rw [if_neg]
  rw [Array.isEmpty_iff_size_eq_zero]
  exact Nat.ne_of_gt h

theorem stateAt_of_lt (h : s < t.size) : t.stateAt s = .ok t.states[s] :=
  itemAt_of_some (Array.getElem?_eq_getElem h)

theorem isFinal_of_lt (h : s < t.size) : t.isFinal s = .ok (t.isAccepting s) := by
  have found : t.states[s]? = some t.states[s] := Array.getElem?_eq_getElem h
  simp [isFinal, stateAt_of_lt h, isAccepting, found, bind, Except.bind, pure, Except.pure]

theorem isFinal_of_ge {s : Nat} (h : t.size ≤ s) : t.isFinal s = .error (.outOfRange s) := by
  rw [isFinal, stateAt, itemAt_of_none (Array.getElem?_eq_none h)]
  rfl

theorem isFinal_eq_ok_iff (t : Table) (s : Nat) :
    (∃ accepting, t.isFinal s = .ok accepting) ↔ s < t.size := by
  constructor
  · rintro ⟨accepting, final⟩
    refine Nat.lt_of_not_le fun outside => ?_
    rw [isFinal_of_ge outside] at final
    cases final
  · intro inside
    exact ⟨_, isFinal_of_lt inside⟩

theorem next?_of_lt (h : s < t.size) : t.states[s].next? c = t.next? s c := by
  have found : t.states[s]? = some t.states[s] := Array.getElem?_eq_getElem h
  simp only [next?, found, State.next?, Option.bind_eq_bind, Option.bind_some, Option.pure_def]
  cases t.states[s].edges.find? fun e => e.predicate.holds c <;> rfl

theorem mem_edges {e : Nat × Edge} (h : e ∈ t.edges) :
    ∃ st, t.states[e.1]? = some st ∧ e.2 ∈ st.edges := by
  unfold edges at h
  obtain ⟨⟨st, i⟩, hst, he⟩ := List.mem_flatMap.1 h
  obtain ⟨e', he', rfl⟩ := List.mem_map.1 he
  exact ⟨st, by simpa using List.mem_zipIdx_iff_getElem?.1 hst, he'⟩

theorem WellFormed.next?_lt (h : t.WellFormed) (next : t.next? s c = some d) : d < t.size := by
  simp only [next?, Option.bind_eq_bind, Option.bind_eq_some_iff, Option.pure_def,
    Option.some.injEq] at next
  obtain ⟨st, hs, e, he, rfl⟩ := next
  exact h.dest_lt st (Array.mem_of_getElem? hs) e (List.mem_of_find?_eq_some he)

theorem WellFormed.withStack (h : t.WellFormed) (capacity : Int) (strict : Bool) :
    (t.withStack capacity strict).WellFormed := ⟨h.dest_lt, h.start_lt, h.start_eq⟩

variable {u : Table} {i : Nat} {f : State → State}

theorem mem_modify {α : Type} {xs : Array α} {i : Nat} {f : α → α} {a : α}
    (h : a ∈ xs.modify i f) : a ∈ xs ∨ ∃ b ∈ xs, a = f b := by
  obtain ⟨j, hj, rfl⟩ := Array.mem_iff_getElem.1 h
  rw [Array.size_modify] at hj
  rw [Array.getElem_modify]
  split
  · exact .inr ⟨xs[j], Array.getElem_mem hj, rfl⟩
  · exact .inl (Array.getElem_mem hj)

theorem size_modify (t : Table) (i : Nat) (f : State → State) :
    ({ t with states := t.states.modify i f } : Table).size = t.size := Array.size_modify

theorem wellFormed_empty (capacity : Int) (strict : Bool) :
    ({ capacity, strict } : Table).WellFormed := by
  refine ⟨?_, ?_, fun _ => rfl⟩
  · simp
  · simp [size]

theorem wellFormed_loadExample (t : Table) : t.loadExample.WellFormed := by
  have size : t.loadExample.size = 3 := rfl
  have start : t.loadExample.start = 2 := rfl
  refine ⟨fun st hs e he => ?_, by omega, by omega⟩
  rw [size]
  simp only [loadExample, List.mem_toArray, List.mem_cons, List.not_mem_nil, or_false] at hs
  rcases hs with rfl | rfl | rfl
  · cases he
  · obtain rfl := List.mem_singleton.1 he
    decide
  · obtain rfl := List.mem_singleton.1 he
    decide

theorem WellFormed.modify (h : t.WellFormed) (i : Nat)
    (kept : ∀ st, ∀ e ∈ (f st).edges, e ∈ st.edges ∨ e.dest < t.size) :
    ({ t with states := t.states.modify i f } : Table).WellFormed := by
  have size := size_modify t i f
  refine ⟨?_, size ▸ h.start_lt, size ▸ h.start_eq⟩
  intro st hs e he
  rw [size]
  rcases mem_modify hs with old | ⟨st, old, rfl⟩
  · exact h.dest_lt st old e he
  · exact (kept st e he).elim (h.dest_lt st old e) id

theorem size_addState : t.addState.size = t.size + 1 := Array.size_push _

theorem WellFormed.addState (h : t.WellFormed) : t.addState.WellFormed := by
  have start : t.start < t.size ∨ t.start = 0 := by
    rcases Nat.eq_zero_or_pos t.size with empty | nonempty
    · exact .inr (h.start_eq empty)
    · exact .inl (h.start_lt nonempty)
  refine ⟨?_, fun _ => ?_, fun empty => ?_⟩
  · intro st hs e he
    rw [size_addState]
    rcases Array.mem_push.1 hs with old | rfl
    · exact Nat.lt_succ_of_lt (h.dest_lt st old e he)
    · cases he
  · rw [size_addState]
    change t.start < t.size + 1
    omega
  · rw [size_addState] at empty
    omega

structure Edits (t u : Table) : Prop where
  size : u.size = t.size
  wellFormed : t.WellFormed → u.WellFormed

theorem edits_markFinal {s : Int} {final : Bool} (marked : t.markFinal s final = .ok u) :
    t.Edits u := by
  unfold Table.markFinal at marked
  split at marked
  · cases marked
    exact ⟨size_modify .., fun h => h.modify _ fun st e he => .inl he⟩
  · cases marked

theorem edits_setStart {s : Int} (set : t.setStart s = .ok u) : t.Edits u := by
  unfold Table.setStart at set
  split at set
  · rename_i has
    cases set
    obtain ⟨low, high⟩ := has_iff.1 has
    refine ⟨rfl, fun h => ⟨h.dest_lt, fun _ => ?_, fun empty => ?_⟩⟩
    · change s.toNat < t.size
      omega
    · change t.size = 0 at empty
      omega
  · cases set

theorem edits_addEdge {source dest : Int} {p : Predicate} (added : t.addEdge source p dest = .ok u) :
    t.Edits u := by
  unfold Table.addEdge at added
  split at added
  · rename_i has
    cases added
    obtain ⟨low, high⟩ := has_iff.1 (Bool.and_eq_true_iff.1 has).2
    refine ⟨size_modify .., fun h => h.modify _ fun st e he => ?_⟩
    rcases List.mem_append.1 he with old | new
    · exact .inl old
    · obtain rfl := List.mem_singleton.1 new
      refine .inr ?_
      change dest.toNat < t.size
      omega
  · cases added

end Table

end Acceptor
