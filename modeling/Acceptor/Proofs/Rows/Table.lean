import Acceptor.Proofs.Table.Script
import Acceptor.Rows.Basic

namespace Acceptor

def State.out (st : State) : List (Predicate × Int) :=
  st.edges.map fun e => (e.predicate, ↑e.dest)

namespace Table

def stored (t : Table) : Rows where
  transition := t.states.map State.out
  accepting := t.states.map State.accepting
  start := t.start
  capacity := t.capacity
  strict := t.strict

variable {t : Table} {s : Int} {c : Symbol}

theorem itemAt_map {α β : Type} (f : α → β) (row : Array α) (n : Int) :
    itemAt (row.map f) n = (itemAt row n).map f := by
  simp only [itemAt, Array.size_map, Array.getElem?_map]
  split
  · rfl
  · cases row[(fromEnd row.size n).toNat]? <;> rfl

theorem getElem?_of_has (has : t.has s = true) :
    ∃ st, t.states[s.toNat]? = some st ∧ itemAt t.states s = .ok st := by
  obtain ⟨low, high⟩ := has_iff.1 has
  obtain ⟨n, rfl⟩ := Int.eq_ofNat_of_zero_le low
  have inside : n < t.states.size := by exact_mod_cast high
  refine ⟨t.states[n], Array.getElem?_eq_getElem inside, ?_⟩
  exact stateAt_of_lt inside

theorem setItem_map {α : Type} {f : State → α} {g : State → State} {a : α} {st : State}
    (has : t.has s = true) (there : t.states[s.toNat]? = some st) (changed : f (g st) = a) :
    Rows.setItem (t.states.map f) s a = .ok ((t.states.modify s.toNat g).map f) := by
  obtain ⟨low, high⟩ := has_iff.1 has
  obtain ⟨st', there', item⟩ := getElem?_of_has has
  have place : fromEnd t.states.size s = s := by
    unfold fromEnd
    rw [if_neg (by omega)]
  simp only [Rows.setItem, itemAt_map, item, Array.size_map, place]
  refine congrArg Except.ok (Array.ext_getElem? fun i => ?_)
  by_cases same : s.toNat = i
  · subst same
    have inside : s.toNat < t.states.size := (Array.getElem?_eq_some_iff.1 there).1
    have kept : t.states[s.toNat] = st := (Array.getElem?_eq_some_iff.1 there).2
    simp [Array.getElem_modify, kept, changed, inside]
  · simp [Array.getElem?_setIfInBounds_ne same, Array.getElem?_modify, same]

theorem map_modify {α : Type} {f : State → α} {g : State → State} (kept : ∀ st, f (g st) = f st)
    (i : Nat) : (t.states.modify i g).map f = t.states.map f := by
  refine Array.ext_getElem? fun j => ?_
  simp only [Array.getElem?_map, Array.getElem?_modify]
  split
  · cases t.states[j]? with
    | none => rfl
    | some st => exact congrArg some (kept st)
  · rfl

theorem stored_size : t.stored.size = t.size := Array.size_map

theorem stored_isEmpty : t.stored.transition.isEmpty = t.states.isEmpty := by
  simp only [stored, Array.isEmpty, Array.size_map]

theorem stored_has : t.stored.has s = t.has s := by
  simp only [Rows.has, has, stored_size]

theorem stored_initial : t.stored.initial = t.initial.map Nat.cast := by
  simp only [Rows.initial, initial, stored_isEmpty]
  split <;> rfl

theorem stored_isFinal : t.stored.isFinal s = t.isFinal s := by
  exact itemAt_map _ _ _

theorem stored_advance : t.stored.advance s c = (t.advance s c).map (Option.map Nat.cast) := by
  rw [advance, stateAt, Rows.advance, stored, itemAt_map]
  cases itemAt t.states s with
  | error f => rfl
  | ok st =>
      refine congrArg Except.ok ?_
      simp only [State.out, State.next?, List.find?_map, Option.map_map]
      rfl

theorem stored_reset : t.stored.reset = t.reset.stored := by
  simp [stored, Rows.reset, reset]

theorem stored_addState : t.stored.addState = t.addState.stored := by
  simp [stored, Rows.addState, addState, State.out]

theorem stored_markFinal (final : Bool) :
    t.stored.markFinal s final = (t.markFinal s final).map stored := by
  rw [Rows.markFinal, stored_has, markFinal]
  cases has : t.has s with
  | false => rfl
  | true =>
      obtain ⟨st, there, -⟩ := getElem?_of_has has
      have written := setItem_map (f := State.accepting)
        (g := fun st => { st with accepting := final }) has there rfl
      have kept := map_modify (t := t) (f := State.out)
        (g := fun st => { st with accepting := final }) (fun _ => rfl) s.toNat
      simp only [if_true, stored, written, Except.map, kept, bind, Except.bind, pure, Except.pure]

theorem stored_setStart : t.stored.setStart s = (t.setStart s).map stored := by
  rw [Rows.setStart, stored_has, setStart]
  cases has : t.has s with
  | false => rfl
  | true =>
      have same : ((s.toNat : Nat) : Int) = s := Int.toNat_of_nonneg (has_iff.1 has).1
      simp only [if_true, stored, Except.map, same]

theorem stored_addEdge {source dest : Int} (p : Predicate) :
    t.stored.addEdge source p dest = (t.addEdge source p dest).map stored := by
  rw [Rows.addEdge, stored_has, stored_has, addEdge]
  cases both : t.has source && t.has dest with
  | false => rfl
  | true =>
      obtain ⟨from', to'⟩ := Bool.and_eq_true_iff.1 both
      obtain ⟨st, there, item⟩ := getElem?_of_has from'
      have same : ((dest.toNat : Nat) : Int) = dest := Int.toNat_of_nonneg (has_iff.1 to').1
      have written := setItem_map (f := State.out) (a := st.out ++ [(p, dest)])
        (g := fun st => { st with edges := st.edges ++ [⟨p, dest.toNat⟩] }) from' there (by
          simp [State.out, same])
      have kept := map_modify (t := t) (f := State.accepting)
        (g := fun st => { st with edges := st.edges ++ [⟨p, dest.toNat⟩] }) (fun _ => rfl) source.toNat
      simp only [if_true, stored, itemAt_map, item, written, Except.map, kept, bind, Except.bind, pure,
        Except.pure]

theorem stored_loadExample : t.stored.loadExample = .ok t.loadExample.stored := by
  simp [Rows.loadExample, stored, loadExample, State.out, Rows.reset, Rows.addState, Rows.markFinal,
    Rows.has, Rows.size, Rows.addEdge, Rows.setStart, Rows.setItem,
    itemAt, fromEnd, Except.map, bind, Except.bind, pure, Except.pure]

theorem markFinal_addState (t : Table) (accepting : Bool) :
    t.addState.markFinal t.size accepting = .ok { t with states := t.states.push { accepting } } := by
  have has : t.addState.has t.size = true := by
    rw [has_iff, size_addState]
    omega
  rw [markFinal, if_pos has]
  refine congrArg Except.ok ?_
  simp only [addState, size, Int.toNat_natCast, Table.mk.injEq, and_true]
  refine Array.ext_getElem? fun i => ?_
  by_cases last : t.states.size = i
  · subst last
    simp [Array.getElem_modify]
  · simp [Array.getElem?_modify, last, Array.getElem?_push, Ne.symm last]

theorem addStates_succ (t : Table) (accepting start : Bool) (n : Nat) :
    t.addStates (n + 1) accepting start =
      (t.addStates 1 accepting start).addStates n accepting false := by
  simp [addStates, Array.replicate_succ']

theorem addStates_one (t : Table) (accepting start : Bool) :
    t.addStates 1 accepting start =
      { t with states := t.states.push { accepting }, start := if start then t.size else t.start } := by
  simp [addStates]

/-- A start is set only if a state is added. -/
theorem stored_addStates {accepting start : Bool} {n : Nat} (first : start = true → 0 < n) :
    t.stored.addStates accepting start n = .ok (t.addStates n accepting start).stored := by
  induction n generalizing t start with
  | zero =>
      obtain rfl : start = false := by simpa using first
      simp [Rows.addStates, addStates]
  | succ n ih =>
      rw [addStates_succ, ← ih (by simp), addStates_one]
      simp only [Rows.addStates, stored_size, stored_addState, stored_markFinal, markFinal_addState,
        Except.map, bind, Except.bind]
      cases start with
      | false => rfl
      | true =>
          have has : ({ t with states := t.states.push { accepting } } : Table).has t.size = true := by
            simp [has_iff, size]
          simp only [if_true, stored_setStart, setStart, has, Except.map, Int.toNat_natCast]

theorem stored_edges : t.stored.edges = t.edges.map fun e => (e.1, e.2.predicate, ↑e.2.dest) := by
  simp [Rows.edges, edges, stored, List.zipIdx_map, List.flatMap_map, List.map_flatMap, State.out,
    Function.comp_def]

theorem writable_append (lines : List String) (rest : List (Except Fault String)) :
    writable (lines.map .ok ++ rest) = (lines ++ (writable rest).1, (writable rest).2) := by
  induction lines with
  | nil => rfl
  | cons line lines ih => simp only [List.map_cons, List.cons_append, writable, ih]

theorem stored_edgeLine (e : Nat × Edge) :
    Rows.edgeLine (e.1, e.2.predicate, ↑e.2.dest) = edgeLine e := by
  obtain ⟨source, ⟨predicate, dest⟩⟩ := e
  cases predicate <;> rfl

theorem map_range_isFinal {α : Type} (f : Nat → Except Fault Bool → α) :
    (List.range t.size).map (fun (s : Nat) => f s (t.stored.isFinal s)) =
      t.states.toList.zipIdx.map fun (st, s) => f s (.ok st.accepting) := by
  refine List.ext_getElem (by simp [size]) fun s h _ => ?_
  have inside : s < t.size := by simpa using h
  simp only [List.getElem_map, List.getElem_range, List.getElem_zipIdx, Array.getElem_toList, zero_add]
  rw [stored_isFinal, isFinal, stateAt_of_lt inside]
  rfl

theorem stored_script : t.stored.script = t.script := by
  have states : (List.range t.stored.size).map
      (fun (s : Nat) => (t.stored.isFinal s).map Rows.stateLine) =
      (t.states.toList.map stateLine).map .ok := by
    rw [stored_size, map_range_isFinal fun _ final => final.map Rows.stateLine, List.map_map]
    refine List.ext_getElem (by simp) fun s _ _ => ?_
    simp only [List.getElem_map, List.getElem_zipIdx, Function.comp]
    rfl
  have start :
      (if t.states.isEmpty then [] else [.ok s!"start {t.stored.start}"] : List (Except Fault _)) =
        (if t.states.isEmpty then [] else [s!"start {t.start}"]).map .ok := by
    split <;> rfl
  have edges : t.stored.edges.map Rows.edgeLine = t.edges.map edgeLine := by
    rw [stored_edges, List.map_map]
    exact List.map_congr_left fun e _ => stored_edgeLine e
  have lines : [.ok "new"] ++ (t.states.toList.map stateLine).map .ok ++
      (if t.states.isEmpty then [] else [s!"start {t.start}"]).map .ok =
      (t.stateLines.map .ok : List (Except Fault String)) := by
    simp [stateLines]
  rw [Rows.script, states, stored_isEmpty, start, edges, lines, Rows.written, writable_append]
  rfl

theorem mapM_eq_ok {α β : Type} {f : α → Except Fault β} {xs : List α} {ys : List β}
    (each : xs.map f = ys.map .ok) : xs.mapM f = .ok ys := by
  induction xs generalizing ys with
  | nil =>
      obtain rfl : ys = [] := by simpa using each.symm
      rfl
  | cons x xs ih =>
      obtain ⟨y, ys, rfl, first, others⟩ := List.map_eq_cons_iff.1 each.symm
      rw [List.mapM_cons, ← first, ih others.symm]
      rfl

theorem stored_dotEdge (e : Nat × Edge) :
    Rows.dotEdge (e.1, e.2.predicate, ↑e.2.dest) = dotEdge e := rfl

theorem stored_dot : t.stored.dot = .ok t.dot := by
  have states : (List.range t.stored.size).mapM (m := Except Fault)
      (fun (s : Nat) => (t.stored.isFinal s).map (Rows.dotState s)) =
      .ok (t.states.toList.zipIdx.map dotState) := by
    refine mapM_eq_ok ?_
    rw [stored_size, map_range_isFinal fun s final => final.map (Rows.dotState s), List.map_map]
    rfl
  have start : (if t.states.isEmpty then [] else [s!"\t\"\" -> {t.stored.start};"]) =
      if t.states.isEmpty then [] else [s!"\t\"\" -> {t.start};"] := by
    split <;> rfl
  have edges : t.stored.edges.map Rows.dotEdge = t.edges.map dotEdge := by
    rw [stored_edges, List.map_map]
    exact List.map_congr_left fun e _ => stored_dotEdge e
  rw [Rows.dot, states, stored_isEmpty, start, edges]
  simp only [bind, Except.bind, List.filterMap_map]
  rfl

end Table

end Acceptor
