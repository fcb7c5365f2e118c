import Mathlib.Data.List.Basic
import Acceptor.Files.Place

namespace Acceptor

section Except

variable {ε α β : Type} {x : Except ε α} {f : α → Except ε β} {b : β} {e : ε}

theorem bind_eq_ok : x >>= f = .ok b ↔ ∃ a, x = .ok a ∧ f a = .ok b := by
  cases x <;> simp [bind, Except.bind]

theorem throw_ne_ok : (throw e : Except ε β) ≠ .ok b := by
  simp [throw, throwThe, MonadExceptOf.throw]

theorem guard_eq_ok {c : Prop} [Decidable c] {k : PUnit → Except ε β} {y : Except ε β} :
    (if c then throw e >>= k else y) = .ok b ↔ ¬ c ∧ y = .ok b := by
  by_cases h : c
  · simp only [h, not_true, false_and, iff_false]
    exact throw_ne_ok
  · simp [h]

theorem foldlM_kept {f : α → β → Except ε α} {I : α → Prop} {xs : List β} {a a' : α}
    (step : ∀ a b a', I a → f a b = .ok a' → I a') (h : I a) (done : xs.foldlM f a = .ok a') :
    I a' := by
  induction xs generalizing a with
  | nil => exact Except.ok.inj done ▸ h
  | cons b xs ih =>
      rw [List.foldlM_cons] at done
      obtain ⟨next, first, rest⟩ := bind_eq_ok.1 done
      exact ih (step a b next h first) rest

end Except

namespace Disk

variable {d : Disk} {p q : Path} {n : Node}

theorem lookup_putIn (nodes : List (Path × Node)) :
    (putIn p n nodes).lookup q = if q = p then some n else nodes.lookup q := by
  induction nodes with
  | nil =>
      by_cases h : q = p
      · simp [putIn, h]
      · simp [putIn, List.lookup_cons, beq_false_of_ne h, h]
  | cons entry rest ih =>
      obtain ⟨r, m⟩ := entry
      by_cases same : r = p
      · subst same
        by_cases h : q = r
        · simp [putIn, h]
        · simp [putIn, List.lookup_cons, beq_false_of_ne h, h]
      · by_cases h : q = r
        · subst h
          simp [putIn, same]
        · simp [putIn, List.lookup_cons, same, beq_false_of_ne h, ih]

theorem node?_put (h : p ≠ []) : (d.put p n).node? q = if q = p then some n else d.node? q := by
  unfold node? put
  by_cases root : q = []
  · subst root
    simp [h.symm]
  · simp [root, lookup_putIn]

theorem text_put (h : p ≠ []) (text : String) : (d.put p (.file text)).text p = text := by
  simp [Disk.text, node?_put h]

theorem filter_putIn {nodes : List (Path × Node)} (new : nodes.lookup p = none) :
    (putIn p n nodes).filter (fun entry => entry.1 ≠ p) = nodes := by
  induction nodes with
  | nil => simp [putIn]
  | cons entry rest ih =>
      obtain ⟨q, m⟩ := entry
      rw [List.lookup_cons] at new
      by_cases same : p = q
      · simp [same] at new
      · rw [beq_false_of_ne same] at new
        have kept : (q, m) :: rest = ((q, m) :: putIn p n rest).filter fun entry => entry.1 ≠ p := by
          rw [List.filter_cons_of_pos (by simpa using Ne.symm same), ih new]
        rw [putIn, if_neg (Ne.symm same), ← kept]

theorem remove_put (new : d.node? p = none) : (d.put p n).remove p = d := by
  have nonempty : p ≠ [] := by
    rintro rfl
    cases new
  rw [node?, if_neg nonempty] at new
  rw [remove, put, filter_putIn new]

theorem lookup_filter_ne (nodes : List (Path × Node)) (different : q ≠ p) :
    (nodes.filter fun entry => entry.1 ≠ p).lookup q = nodes.lookup q := by
  induction nodes with
  | nil => rfl
  | cons entry rest ih =>
      obtain ⟨r, m⟩ := entry
      by_cases same : r = p
      · rw [List.filter_cons_of_neg (by simpa using same), ih, List.lookup_cons,
          beq_false_of_ne (same ▸ different)]
      · rw [List.filter_cons_of_pos (by simpa using same), List.lookup_cons, List.lookup_cons, ih]

theorem node?_remove (different : q ≠ p) : (d.remove p).node? q = d.node? q := by
  simp only [node?, remove, lookup_filter_ne d.nodes different]

theorem follow_of_plain (plain : ∀ dest, d.node? p ≠ some (.link dest)) (links : Nat) :
    d.follow links p = some p := by
  cases links with
  | zero =>
      rw [follow]
      split
      · exact absurd ‹_› (plain _)
      · rfl
  | succ links =>
      rw [follow]
      split
      · exact absurd ‹_› (plain _)
      · rfl

theorem plain_of_follow {links : Nat} (h : d.follow links p = some q) :
    ∀ dest, d.node? q ≠ some (.link dest) := by
  induction links generalizing p with
  | zero =>
      rw [follow] at h
      split at h
      · cases h
      · rename_i plain
        obtain rfl := Option.some.inj h
        exact plain
  | succ links ih =>
      rw [follow] at h
      split at h
      · exact ih h
      · rename_i plain
        obtain rfl := Option.some.inj h
        exact plain

theorem isSome_of_follow {links : Nat} (h : d.follow links p = some q)
    (there : (d.node? q).isSome = true) : (d.node? p).isSome = true := by
  cases node : d.node? p with
  | some n => rfl
  | none =>
      rw [follow_of_plain (by simp [node])] at h
      obtain rfl := Option.some.inj h
      rw [node] at there
      cases there

/-- A file may be written there: the folder exists, and at the path is at most a file. -/
structure Writable (d : Disk) (path : Path) : Prop where
  notFolder : d.node? path ≠ some .folder
  notLink : ∀ dest, d.node? path ≠ some (.link dest)
  parent : d.node? path.dropLast = some .folder

namespace Writable

variable {path : Path}

theorem ne_nil (h : d.Writable path) : path ≠ [] := by
  rintro rfl
  exact h.notFolder rfl

theorem node? (h : d.Writable path) :
    d.node? path = none ∨ ∃ text, d.node? path = some (.file text) := by
  cases node : d.node? path with
  | none => exact .inl rfl
  | some n =>
      cases n with
      | folder => exact absurd node h.notFolder
      | file text => exact .inr ⟨text, rfl⟩
      | link dest => exact absurd node (h.notLink dest)

theorem isFolder_put (h : d.Writable path) (isFolder : d.node? q = some .folder) :
    (d.put path n).node? q = some .folder := by
  rw [node?_put h.ne_nil, if_neg, isFolder]
  rintro rfl
  exact h.notFolder isFolder

theorem isSome_put (h : d.Writable path) (there : (d.node? q).isSome = true) :
    ((d.put path n).node? q).isSome = true := by
  rw [node?_put h.ne_nil]
  split
  · rfl
  · exact there

theorem put (h : d.Writable path) (text : String) : (d.put path (.file text)).Writable path where
  notFolder := by simp [node?_put h.ne_nil]
  notLink := by simp [node?_put h.ne_nil]
  parent := h.isFolder_put h.parent

theorem follow_put (h : d.Writable path) (text : String) (links : Nat) :
    (d.put path (.file text)).follow links p = d.follow links p := by
  induction links generalizing p with
  | zero =>
      by_cases own : p = path
      · rw [own, follow_of_plain (h.put text).notLink, follow_of_plain h.notLink]
      · rw [follow, follow, node?_put h.ne_nil, if_neg own]
  | succ links ih =>
      by_cases own : p = path
      · rw [own, follow_of_plain (h.put text).notLink, follow_of_plain h.notLink]
      · rw [follow, follow, node?_put h.ne_nil, if_neg own]
        split
        · exact ih
        · rfl

end Writable

end Disk

namespace Place

variable {p : Place} {d : Disk} {here there path entry : Path} {name part : String} {n : Node}

theorem entry_eq_ok (h : p.entry name = .ok entry) :
    ∃ start parent last, p.root name = .ok start ∧ (parts name).getLast? = some last ∧
      (parts name).dropLast.foldlM (enter p.disk) start = .ok parent ∧
      (last ≠ "." ∧ last ≠ "..") ∧ p.disk.node? parent = some .folder ∧
      asksFolder name = false ∧ last.utf8ByteSize ≤ maxPart ∧ entry = parent ++ [last] := by
  unfold Place.entry at h
  obtain ⟨start, root, h⟩ := bind_eq_ok.1 h
  cases isLast : (parts name).getLast? with
  | none => simp [isLast, throw_ne_ok] at h
  | some last =>
      simp only [isLast] at h
      obtain ⟨parent, above, h⟩ := bind_eq_ok.1 h
      split at h
      · obtain ⟨_, _, h⟩ := bind_eq_ok.1 h
        exact absurd h throw_ne_ok
      · rename_i named
        simp only [Bool.or_eq_true, decide_eq_true_eq, not_or] at named
        cases node : p.disk.node? parent with
        | none => simp [node, throw_ne_ok] at h
        | some n =>
            cases n with
            | file | link => simp [node, throw_ne_ok] at h
            | folder =>
                simp only [node, guard_eq_ok, Nat.not_lt, Bool.not_eq_true] at h
                obtain ⟨plain, short, h⟩ := h
                exact ⟨start, parent, last, root, rfl, above, named, node, plain, short,
                  (Except.ok.inj h).symm⟩

theorem target_eq_ok (h : p.target name = .ok path) :
    ∃ entry, p.entry name = .ok entry ∧ p.disk.follow Disk.maxLinks entry = some path ∧
      p.disk.Writable path := by
  unfold target at h
  obtain ⟨entry, isEntry, h⟩ := bind_eq_ok.1 h
  cases follows : p.disk.follow Disk.maxLinks entry with
  | none => simp [follows, throw_ne_ok] at h
  | some found =>
      simp only [follows, guard_eq_ok] at h
      obtain ⟨notFolder, h⟩ := h
      cases parent : p.disk.node? found.dropLast with
      | none => simp [parent, throw_ne_ok] at h
      | some n =>
          cases n with
          | file | link => simp [parent, throw_ne_ok] at h
          | folder =>
              simp only [parent] at h
              obtain rfl := Except.ok.inj h
              exact ⟨entry, isEntry, follows, notFolder, Disk.plain_of_follow follows, parent⟩

theorem target_of_entry (isEntry : p.entry name = .ok entry)
    (follows : p.disk.follow Disk.maxLinks entry = some path) (writable : p.disk.Writable path) :
    p.target name = .ok path := by
  simp [target, isEntry, bind, Except.bind, follows, writable.notFolder, writable.parent, pure,
    Except.pure]

theorem enter_of_folder (folder : d.node? here = some .folder) (down : part ≠ "." ∧ part ≠ "..")
    (short : part.utf8ByteSize ≤ maxPart) (follows : d.follow Disk.maxLinks (here ++ [part]) = some there) :
    enter d here part = if (d.node? there).isSome then .ok there else .error .notFound := by
  rw [enter, folder]
  simp only [if_neg down.1, if_neg down.2, if_neg (Nat.not_lt.2 short), follows]

theorem enter_put (h : enter d here part = .ok there) (writable : d.Writable path) (text : String) :
    enter (d.put path (.file text)) here part = .ok there := by
  unfold enter at h ⊢
  cases node : d.node? here with
  | none => simp [node] at h
  | some m =>
      cases m with
      | file | link => simp [node] at h
      | folder =>
          rw [writable.isFolder_put node]
          simp only [node] at h ⊢
          rw [writable.follow_put]
          split at h
          · rename_i dot
            rwa [if_pos dot]
          · rename_i dot
            rw [if_neg dot]
            split at h
            · rename_i up
              rwa [if_pos up]
            · rename_i up
              rw [if_neg up]
              split at h
              · cases h
              · rename_i long
                rw [if_neg long]
                cases follows : d.follow Disk.maxLinks (here ++ [part]) with
                | none =>
                    rw [follows] at h
                    cases h
                | some found =>
                    simp only [follows] at h ⊢
                    split at h
                    · rename_i isThere
                      rwa [if_pos (writable.isSome_put isThere)]
                    · cases h

theorem foldlM_enter_put {names : List String} (h : names.foldlM (enter d) here = .ok there)
    (writable : d.Writable path) (text : String) :
    names.foldlM (enter (d.put path (.file text))) here = .ok there := by
  induction names generalizing here with
  | nil => exact h
  | cons part names ih =>
      rw [List.foldlM_cons] at h ⊢
      obtain ⟨next, first, rest⟩ := bind_eq_ok.1 h
      exact bind_eq_ok.2 ⟨next, enter_put first writable text, ih rest⟩

theorem entry_put (h : p.entry name = .ok entry) (writable : p.disk.Writable path) (text : String) :
    ({ p with disk := p.disk.put path (.file text) } : Place).entry name = .ok entry := by
  obtain ⟨start, parent, last, root, isLast, above, down, node, plain, short, rfl⟩ := entry_eq_ok h
  have root' : ({ p with disk := p.disk.put path (.file text) } : Place).root name = .ok start := root
  have above' := foldlM_enter_put above writable text
  have node' : (p.disk.put path (.file text)).node? parent = some .folder := writable.isFolder_put node
  simp [Place.entry, root', isLast, bind, Except.bind, above', down, node', plain, Nat.not_lt.2 short,
    pure, Except.pure]

theorem target_put (h : p.target name = .ok path) (text : String) :
    ({ p with disk := p.disk.put path (.file text) } : Place).target name = .ok path := by
  obtain ⟨entry, isEntry, follows, writable⟩ := target_eq_ok h
  exact target_of_entry (entry_put isEntry writable text) ((writable.follow_put text _).trans follows)
    (writable.put text)

theorem locate_of_target (h : p.target name = .ok path) :
    p.locate name = if (p.disk.node? path).isSome then .ok path else .error .notFound := by
  obtain ⟨entry, isEntry, follows, -⟩ := target_eq_ok h
  obtain ⟨start, parent, last, root, isLast, above, down, node, plain, short, rfl⟩ :=
    entry_eq_ok isEntry
  have split : parts name = (parts name).dropLast ++ [last] :=
    (List.dropLast_append_getLast? last isLast).symm
  have entered := enter_of_folder node down short follows
  have located : (parts name).foldlM (enter p.disk) start =
      if (p.disk.node? path).isSome then .ok path else .error .notFound := by
    rw [split, List.foldlM_append, above]
    simp only [bind, Except.bind, List.foldlM_cons, List.foldlM_nil, entered]
    cases (p.disk.node? path).isSome <;> rfl
  unfold locate
  simp only [root, bind, Except.bind, located]
  cases (p.disk.node? path).isSome <;> simp [plain, pure, Except.pure]

theorem isThere_of_target (h : p.target name = .ok path) :
    p.isThere name = (p.disk.node? path).isSome := by
  rw [isThere, locate_of_target h]
  cases (p.disk.node? path).isSome <;> rfl

theorem file_put (h : p.target name = .ok path) (text : String) :
    ({ p with disk := p.disk.put path (.file text) } : Place).file name = .ok path := by
  obtain ⟨-, -, -, writable⟩ := target_eq_ok h
  have there : (p.disk.put path (.file text)).node? path = some (.file text) := by
    rw [Disk.node?_put writable.ne_nil, if_pos rfl]
  have located := locate_of_target (target_put h text)
  rw [if_pos (by rw [there]; rfl)] at located
  simp only [file, located, bind, Except.bind, there, pure, Except.pure]

theorem notMem_withoutLastSlashes {home : String} {c : Char} (absent : c ∉ home.toList) :
    c ∉ withoutLastSlashes home := by
  intro mem
  rw [withoutLastSlashes, List.mem_reverse] at mem
  exact absent (List.mem_reverse.1 ((List.dropWhile_sublist _).subset mem))

variable [Host]

theorem expandHome_cases (name : String) :
    (∃ name', expandHome name = .ok name' ∧ holdsNul name' = holdsNul name) ∨
      expandHome name = .error .nulInName ∧ holdsNul name = true := by
  unfold expandHome
  split
  · rename_i cs isHome
    simp only
    split
    · rename_i nul
      refine .inr ⟨rfl, ?_⟩
      simp only [List.contains_eq_mem, decide_eq_true_eq] at nul
      simp [holdsNul, isHome, (List.takeWhile_subset _) nul]
    · rename_i noNul
      split
      · exact .inl ⟨_, rfl, rfl⟩
      · rename_i home found
        refine .inl ⟨_, rfl, ?_⟩
        -- neither the user nor the home holds it, so it is in what follows, or nowhere
        have homeNoNul := notMem_withoutLastSlashes (Host.noNul _ _ found)
        simp only [List.contains_eq_mem, decide_eq_true_eq] at noNul
        have whole : ('\x00' ∈ cs) ↔ '\x00' ∈ cs.dropWhile (· ≠ '/') := by
          rw [← List.takeWhile_append_dropWhile (p := (· ≠ '/')) (l := cs), List.mem_append]
          simp only [List.takeWhile_append_dropWhile, noNul, false_or]
        simp only [holdsNul, isHome, List.contains_eq_mem, List.mem_cons, whole]
        split
        · rename_i empty
          simp only [List.isEmpty_iff, List.append_eq_nil_iff] at empty
          rw [empty.2]
          rfl
        · simp [homeNoNul]
  · exact .inl ⟨_, rfl, rfl⟩

theorem holdsNul_expandHome {name name' : String} (expanded : expandHome name = .ok name') :
    holdsNul name' = holdsNul name := by
  rcases expandHome_cases name with ⟨other, expanded', same⟩ | ⟨expanded', -⟩
  · rw [expanded] at expanded'
    obtain rfl := Except.ok.inj expanded'
    exact same
  · rw [expanded] at expanded'
    cases expanded'

end Place

end Acceptor
