import Acceptor.Proofs.Table.Same

namespace Acceptor

def State.bare (s : State) : State := { s with edges := [] }

namespace Table

variable {t : Table}

def bare (t : Table) : Table := { t with states := t.states.map State.bare }

def attach (t : Table) (e : Nat × Edge) : Table :=
  { t with states := t.states.modify e.1 fun st => { st with edges := st.edges ++ [e.2] } }

def graft (t : Table) (es : List (Nat × Edge)) : Table := es.foldl attach t

@[simp] theorem graft_cons (e : Nat × Edge) (es : List (Nat × Edge)) :
    t.graft (e :: es) = (t.attach e).graft es := rfl

theorem attach_states (e : Nat × Edge) (i : Nat) :
    (t.attach e).states[i]? = t.states[i]?.map fun st =>
      { st with edges := st.edges ++ if e.1 = i then [e.2] else [] } := by
  simp only [attach, Array.getElem?_modify]
  split
  · rfl
  · simp

theorem graft_states (es : List (Nat × Edge)) (i : Nat) :
    (t.graft es).states[i]? = t.states[i]?.map fun st =>
      { st with edges := st.edges ++ (es.filter fun e => e.1 = i).map Prod.snd } := by
  induction es generalizing t with
  | nil => simp [graft]
  | cons e es ih =>
      rw [graft_cons, ih, attach_states, Option.map_map]
      by_cases here : e.1 = i
      · simp [here, Function.comp_def]
      · simp [here, Function.comp_def]

theorem graft_eq (es : List (Nat × Edge)) : t.graft es = { t with states := (t.graft es).states } := by
  induction es generalizing t with
  | nil => rfl
  | cons e es ih =>
      rw [graft_cons, ih]
      rfl

theorem graft_withStack (es : List (Nat × Edge)) (capacity : Int) (strict : Bool) :
    (t.withStack capacity strict).graft es = (t.graft es).withStack capacity strict := by
  induction es generalizing t with
  | nil => rfl
  | cons e es ih =>
      rw [graft_cons, graft_cons, ← ih]
      rfl

theorem filter_zipIdx (states : List State) (first i : Nat) :
    ((states.zipIdx first).flatMap fun (st, j) => st.edges.map (j, ·)).filter (fun e => e.1 = i) =
      if first ≤ i then ((states[i - first]?.map State.edges).getD []).map (i, ·) else [] := by
  induction states generalizing first with
  | nil => simp
  | cons st states ih =>
      rw [List.zipIdx_cons, List.flatMap_cons, List.filter_append, ih]
      simp only
      -- state `i` is among the later ones, is this one, or was passed
      rcases Nat.lt_trichotomy first i with less | same | more
      · have other : (st.edges.map (first, ·)).filter (fun e => e.1 = i) = [] := by
          simp [List.filter_eq_nil_iff]
          omega
        obtain ⟨k, hk⟩ := Nat.exists_eq_add_of_lt less
        rw [other, if_pos (by omega), if_pos (by omega), show i - first = k + 1 by omega,
          show i - (first + 1) = k by omega]
        rfl
      · subst same
        have all : (st.edges.map (first, ·)).filter (fun e => e.1 = first) =
            st.edges.map (first, ·) := List.filter_eq_self.2 (by simp)
        rw [all, if_neg (by omega)]
        simp
      · have other : (st.edges.map (first, ·)).filter (fun e => e.1 = i) = [] := by
          simp [List.filter_eq_nil_iff]
          omega
        rw [other, if_neg (by omega), if_neg (by omega)]
        rfl

theorem filter_edges (i : Nat) :
    (t.edges.filter fun e => e.1 = i) = ((t.states[i]?.map State.edges).getD []).map (i, ·) := by
  unfold edges
  rw [filter_zipIdx]
  simp

theorem edges_of (i : Nat) :
    (t.edges.filter fun e => e.1 = i).map Prod.snd = (t.states[i]?.map State.edges).getD [] := by
  rw [filter_edges]
  simp [Function.comp_def]

theorem graft_edges : t.bare.graft t.edges = t := by
  have states : (t.bare.graft t.edges).states = t.states := by
    apply Array.ext_getElem?
    intro i
    rw [graft_states, edges_of]
    simp only [bare, Array.getElem?_map, Option.map_map]
    cases t.states[i]? with
    | none => rfl
    | some st => simp [State.bare]
  rw [graft_eq, states]
  rfl

def IsSorted (es : List (Nat × Edge)) : Prop := es.Pairwise fun e f => e.1 ≤ f.1

theorem isSorted_edges : IsSorted t.edges := by
  unfold edges
  apply List.pairwise_flatMap.2
  constructor
  · intro st _
    rw [List.pairwise_map]
    exact List.pairwise_of_forall fun _ _ => Nat.le_refl _
  · have places : (t.states.toList.zipIdx.map Prod.snd).Pairwise (· < ·) := by
      rw [List.zipIdx_map_snd]
      exact List.pairwise_lt_range' 1
    refine (List.pairwise_map.1 places).imp fun {a b} less e he f hf => ?_
    obtain ⟨_, -, rfl⟩ := List.mem_map.1 he
    obtain ⟨_, -, rfl⟩ := List.mem_map.1 hf
    exact Nat.le_of_lt less

theorem source_le_of_mem {e f : Nat × Edge} {es : List (Nat × Edge)} (sorted : IsSorted (e :: es))
    (h : f ∈ e :: es) : e.1 ≤ f.1 := by
  rcases List.mem_cons.1 h with rfl | later
  · exact Nat.le_refl _
  · exact List.rel_of_pairwise_cons sorted later

theorem mem_iff_of_filter_eq {es fs : List (Nat × Edge)}
    (same : ∀ i, (es.filter fun e => e.1 = i) = fs.filter fun e => e.1 = i) (g : Nat × Edge) :
    g ∈ es ↔ g ∈ fs := by
  have := congrArg (g ∈ ·) (same g.1)
  simpa [List.mem_filter] using this

theorem eq_of_filter_eq {es fs : List (Nat × Edge)} (sortedE : IsSorted es) (sortedF : IsSorted fs)
    (same : ∀ i, (es.filter fun e => e.1 = i) = fs.filter fun e => e.1 = i) : es = fs := by
  induction es generalizing fs with
  | nil =>
      cases fs with
      | nil => rfl
      | cons f fs => simpa using mem_iff_of_filter_eq same f
  | cons e es ih =>
      cases fs with
      | nil => simpa using mem_iff_of_filter_eq same e
      | cons f fs =>
          have source : e.1 = f.1 := by
            apply Nat.le_antisymm
            · exact source_le_of_mem sortedE ((mem_iff_of_filter_eq same f).2 List.mem_cons_self)
            · exact source_le_of_mem sortedF ((mem_iff_of_filter_eq same e).1 List.mem_cons_self)
          have first := same e.1
          simp only [List.filter_cons, source, decide_true, if_true, List.cons.injEq] at first
          obtain ⟨rfl, -⟩ := first
          refine congrArg (e :: ·) (ih sortedE.of_cons sortedF.of_cons fun i => ?_)
          have here := same i
          simp only [List.filter_cons] at here
          split at here
          · exact (List.cons.inj here).2
          · exact here

theorem edges_graft {es : List (Nat × Edge)} (sorted : IsSorted es)
    (inside : ∀ e ∈ es, e.1 < t.size) : (t.bare.graft es).edges = es := by
  apply eq_of_filter_eq isSorted_edges sorted
  intro i
  rw [filter_edges, graft_states, bare, Array.getElem?_map]
  cases found : t.states[i]? with
  | none =>
      have none : (es.filter fun e => e.1 = i) = [] := by
        rw [List.filter_eq_nil_iff]
        intro e he here
        have outside := Array.getElem?_eq_none_iff.1 found
        have := inside e he
        simp only [decide_eq_true_eq] at here
        unfold size at this
        omega
      rw [none]
      rfl
  | some st =>
      simp only [Option.map_some, Option.getD_some, State.bare, List.nil_append, List.map_map]
      rw [List.map_congr_left (g := id), List.map_id]
      intro e he
      have source : e.1 = i := by simpa using (List.mem_filter.1 he).2
      simp only [Function.comp, id, ← source]

end Table

end Acceptor
