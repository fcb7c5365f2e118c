import Mathlib.Data.List.Nodup
import Acceptor.Proofs.Files.Place
import Acceptor.Proofs.Text.Words

namespace Acceptor

structure IsFileName (name : String) : Prop where
  nonempty : name ≠ ""
  whole : ∀ c ∈ name.toList, c ≠ '/' ∧ c ≠ '\x00'
  down : name ≠ "." ∧ name ≠ ".."
  short : name.utf8ByteSize ≤ Place.maxPart

instance (name : String) : Decidable (IsFileName name) :=
  decidable_of_iff (name ≠ "" ∧ (name.toList.all fun c => c != '/' && c != '\x00') = true ∧
      (name ≠ "." ∧ name ≠ "..") ∧ name.utf8ByteSize ≤ Place.maxPart)
    ⟨fun ⟨nonempty, whole, down, short⟩ => ⟨nonempty, by simpa using whole, down, short⟩,
      fun ⟨nonempty, whole, down, short⟩ => ⟨nonempty, by simpa using whole, down, short⟩⟩

namespace Disk

def dest : Node → Path
  | .link dest => dest
  | .folder | .file _ => []

structure WellFormed (d : Disk) : Prop where
  distinct : (d.nodes.map Prod.fst).Nodup
  named : ∀ path ∈ d.nodes.map Prod.fst, ∀ name ∈ path, IsFileName name
  dests : ∀ node ∈ d.nodes.map Prod.snd, ∀ name ∈ dest node, IsFileName name

variable {d : Disk} {p q : Path} {n : Node} {name : String}

theorem isSome_lookup (nodes : List (Path × Node)) :
    (nodes.lookup p).isSome = true ↔ p ∈ nodes.map Prod.fst := by
  induction nodes with
  | nil => simp
  | cons entry nodes ih =>
      obtain ⟨q, m⟩ := entry
      by_cases same : p = q
      · simp [same]
      · simp [List.lookup_cons, beq_false_of_ne same, same, ih]

theorem isSome_node? (nonempty : p ≠ []) :
    (d.node? p).isSome = true ↔ p ∈ d.nodes.map Prod.fst := by
  rw [node?, if_neg nonempty, isSome_lookup]

theorem childName?_eq_some : childName? p q = some name ↔ q = p ++ [name] := by
  rcases List.eq_nil_or_concat q with rfl | ⟨parent, last, rfl⟩
  · simp [childName?]
  · simp only [childName?, List.concat_eq_append, List.getLast?_concat, List.dropLast_concat]
    split <;> simp [*]

theorem names_eq (d : Disk) (p : Path) :
    d.names p = (d.nodes.map Prod.fst).filterMap (childName? p) := by
  rw [names, List.filterMap_map]
  rfl

theorem mem_names : name ∈ d.names p ↔ (d.node? (p ++ [name])).isSome = true := by
  simp [isSome_node?, names_eq, childName?_eq_some]

theorem WellFormed.isFileName (h : d.WellFormed) (there : (d.node? p).isSome = true)
    (mem : name ∈ p) : IsFileName name :=
  h.named p ((isSome_node? (List.ne_nil_of_mem mem)).1 there) name mem

theorem WellFormed.isFileName_of_mem_names (h : d.WellFormed) (mem : name ∈ d.names p) :
    IsFileName name := h.isFileName (mem_names.1 mem) (by simp)

theorem WellFormed.nodup_names (h : d.WellFormed) (p : Path) : (d.names p).Nodup := by
  rw [names_eq]
  refine h.distinct.filterMap fun q q' name here here' => ?_
  rw [Option.mem_def, childName?_eq_some] at here here'
  rw [here, here']

theorem paths_putIn (nodes : List (Path × Node)) :
    (putIn p n nodes).map Prod.fst = nodes.map Prod.fst ∨
      p ∉ nodes.map Prod.fst ∧ (putIn p n nodes).map Prod.fst = nodes.map Prod.fst ++ [p] := by
  induction nodes with
  | nil => simp [putIn]
  | cons entry nodes ih =>
      obtain ⟨q, m⟩ := entry
      by_cases same : q = p
      · simp [putIn, same]
      · rcases ih with old | ⟨new, added⟩
        · exact .inl (by simp [putIn, same, old])
        · exact .inr ⟨by simpa [Ne.symm same] using new, by simp [putIn, same, added]⟩

theorem mem_nodes_putIn {nodes : List (Path × Node)} {node : Node}
    (mem : node ∈ (putIn p n nodes).map Prod.snd) : node = n ∨ node ∈ nodes.map Prod.snd := by
  induction nodes with
  | nil => exact .inl (by simpa [putIn] using mem)
  | cons entry nodes ih =>
      obtain ⟨q, m⟩ := entry
      unfold putIn at mem
      split at mem
      · rcases List.mem_cons.1 mem with new | old
        · exact .inl new
        · exact .inr (List.mem_cons_of_mem _ old)
      · rcases List.mem_cons.1 mem with first | rest
        · exact .inr (first ▸ List.mem_cons_self)
        · exact (ih rest).imp_right (List.mem_cons_of_mem _)

theorem wellFormed_put (h : d.WellFormed) (named : ∀ name ∈ p, IsFileName name) (text : String) :
    (d.put p (.file text)).WellFormed := by
  have dests : ∀ node ∈ (d.put p (.file text)).nodes.map Prod.snd, ∀ name ∈ dest node,
      IsFileName name := by
    intro node mem
    rcases mem_nodes_putIn mem with rfl | old
    · exact nofun
    · exact h.dests node old
  unfold put at dests ⊢
  rcases paths_putIn (p := p) (n := .file text) d.nodes with old | ⟨new, added⟩
  · exact ⟨by rw [old]; exact h.distinct, by rw [old]; exact h.named, dests⟩
  · refine ⟨?_, ?_, dests⟩
    · rw [added]
      exact h.distinct.append (List.nodup_singleton p) (by simpa using new)
    · rw [added]
      intro path mem
      rcases List.mem_append.1 mem with old | here
      · exact h.named path old
      · rw [List.mem_singleton.1 here]
        exact named

theorem wellFormed_remove (h : d.WellFormed) (p : Path) : (d.remove p).WellFormed where
  distinct := h.distinct.sublist (List.filter_sublist.map _)
  named path mem := h.named path ((List.filter_sublist.map _).subset mem)
  dests node mem := h.dests node ((List.filter_sublist.map _).subset mem)

theorem isFileName_of_follow (h : d.WellFormed) {links : Nat}
    (named : ∀ name ∈ p, IsFileName name) (follows : d.follow links p = some q) :
    ∀ name ∈ q, IsFileName name := by
  induction links generalizing p with
  | zero =>
      rw [follow] at follows
      split at follows
      · cases follows
      · exact Option.some.inj follows ▸ named
  | succ links ih =>
      rw [follow] at follows
      split at follows
      · rename_i dest link
        have nonempty : p ≠ [] := by
          rintro rfl
          cases link
        rw [node?, if_neg nonempty] at link
        have mem : (p, Node.link dest) ∈ d.nodes := by
          obtain ⟨before, after, split, -⟩ := List.lookup_eq_some_iff.1 link
          simp [split]
        exact ih (h.dests _ (List.mem_map_of_mem mem)) follows
      · exact Option.some.inj follows ▸ named

end Disk

namespace Place
open Text

variable {p : Place} {here there found folder : Path} {name part front e : String}

structure WellFormed (p : Place) : Prop where
  disk : p.disk.WellFormed
  folder : p.disk.node? p.folder = some .folder

theorem whole_of_isFileName (h : IsFileName name) :
    ∀ c ∈ name.toList, decide (c = '/') = false :=
  fun c mem => decide_eq_false (h.whole c mem).1

theorem toList_ne_nil (h : IsFileName name) : name.toList ≠ [] := by simpa using h.nonempty

theorem getLast?_ne_slash (h : asksFolder name = false) : name.toList.getLast? ≠ some '/' := by
  simpa [asksFolder] using h

theorem parts_of_isFileName (h : IsFileName name) : parts name = [name] := by
  rw [parts, partsBetween_of_whole (whole_of_isFileName h) (.inr (toList_ne_nil h))]
  simp

theorem parts_append (e name : String) : parts (e ++ "/" ++ name) = parts e ++ parts name := by
  simp only [parts, String.toList_append, String.reduceToList, List.append_assoc,
    List.singleton_append]
  exact partsBetween_append [] _ _ (by simp)

theorem parts_slash (e : String) : parts (e ++ "/") = parts e := by
  simpa [parts, partsBetween] using parts_append e ""

theorem not_asksFolder_append (h : IsFileName name) (front : String) :
    asksFolder (front ++ name) = false := by
  obtain ⟨init, last, isConcat⟩ := (List.eq_nil_or_concat name.toList).resolve_left (toList_ne_nil h)
  have mem : last ∈ name.toList := by simp [isConcat]
  simpa [asksFolder, isConcat] using (h.whole last mem).1

theorem root_eq_ok {start : Path} : p.root name = .ok start ↔
    (name ≠ "" ∧ name.utf8ByteSize ≤ maxName) ∧ start = if isAbsolute name then [] else p.folder := by
  unfold root
  split
  · simp [*]
  · split
    · rename_i long
      simp [Nat.not_le.2 long]
    · rename_i nonempty fits
      simp only [Except.ok.injEq, ne_eq, nonempty, not_false_eq_true, Nat.not_lt.1 fits, true_and]
      exact eq_comm

theorem locate_eq_ok : p.locate name = .ok found ↔
    ∃ start, p.root name = .ok start ∧ (parts name).foldlM (enter p.disk) start = .ok found ∧
      (asksFolder name = true → p.disk.node? found = some .folder) := by
  unfold locate
  simp only [bind_eq_ok, guard_eq_ok, Bool.and_eq_true, bne_iff_ne, not_and, ne_eq, not_not, pure,
    Except.pure, Except.ok.injEq]
  constructor
  · rintro ⟨start, root, _, reached, asked, rfl⟩
    exact ⟨start, root, reached, asked⟩
  · rintro ⟨start, root, reached, asked⟩
    exact ⟨start, root, found, reached, asked, rfl⟩

theorem enter_eq_ok {d : Disk} (h : enter d here part = .ok there) :
    part = "." ∨ part = ".." ∨ (d.node? (here ++ [part])).isSome = true := by
  unfold enter at h
  split at h
  · cases h
  · split at h
    · exact .inl ‹_›
    · split at h
      · exact .inr (.inl ‹_›)
      · split at h
        · cases h
        · split at h
          · cases h
          · rename_i follows
            split at h
            · exact .inr (.inr (Disk.isSome_of_follow follows ‹_›))
            · cases h
  · cases h

theorem noNul_of_enter {d : Disk} (tree : d.WellFormed) (h : enter d here part = .ok there) :
    '\x00' ∉ part.toList := by
  rcases enter_eq_ok h with rfl | rfl | isThere
  · decide
  · decide
  · intro mem
    exact ((tree.isFileName isThere (by simp)).whole _ mem).2 rfl

theorem noNul_of_foldlM_enter {d : Disk} (tree : d.WellFormed) {names : List String}
    (h : names.foldlM (enter d) here = .ok there) : ∀ part ∈ names, '\x00' ∉ part.toList := by
  induction names generalizing here with
  | nil => simp
  | cons first names ih =>
      rw [List.foldlM_cons] at h
      obtain ⟨next, entered, others⟩ := bind_eq_ok.1 h
      exact List.forall_mem_cons.2 ⟨noNul_of_enter tree entered, ih others⟩

theorem holdsNul_of_locate (tree : p.disk.WellFormed) (h : p.locate name = .ok found) :
    holdsNul name = false := by
  obtain ⟨start, -, reached, -⟩ := locate_eq_ok.1 h
  simp only [holdsNul, List.contains_eq_mem, decide_eq_false_iff_not]
  intro nul
  obtain ⟨part, mem, here⟩ : ∃ part ∈ parts name, '\x00' ∈ part.toList :=
    mem_part_of_mem _ (.inr nul) rfl
  exact noNul_of_foldlM_enter tree reached part mem here

/-- What stands in a word before the last name: nothing, or the name of a folder and a slash. -/
inductive Front (p : Place) : String → Path → Prop
  | here : Front p "" p.folder
  | folder {e : String} {found : Path} (nonempty : e ≠ "") (single : asksFolder e = false)
      (located : p.locate (e ++ "/") = .ok found) : Front p (e ++ "/") found

theorem isAbsolute_append (h : e ≠ "") (name : String) :
    isAbsolute (e ++ name) = isAbsolute e := by
  have nonempty : e.toList ≠ [] := by simpa using h
  simp [isAbsolute, List.head?_append_of_ne_nil _ nonempty]

theorem Front.node? (h : p.Front front folder) (wf : p.WellFormed) :
    p.disk.node? folder = some .folder := by
  cases h with
  | here => exact wf.folder
  | folder nonempty single located =>
      obtain ⟨_, _, _, asked⟩ := locate_eq_ok.1 located
      exact asked (by simp [asksFolder])

theorem Front.exists_start (h : p.Front front folder) :
    ∃ start, (parts front).foldlM (enter p.disk) start = .ok folder ∧
      ∀ name, IsFileName name → parts (front ++ name) = parts front ++ [name] ∧
        p.root (front ++ name) =
          if maxName < (front ++ name).utf8ByteSize then .error .nameTooLong else .ok start := by
  cases h with
  | here =>
      refine ⟨p.folder, rfl, fun name named => ?_⟩
      have relative : isAbsolute name = false := by
        simp only [isAbsolute, beq_eq_false_iff_ne, ne_eq]
        exact fun first => (named.whole _ (List.mem_of_head? first)).1 rfl
      simp [parts_of_isFileName named, root, named.nonempty, relative, show parts "" = [] from rfl]
  | folder nonempty single located =>
      obtain ⟨start, root', reached, -⟩ := locate_eq_ok.1 located
      refine ⟨start, reached, fun name named => ⟨?_, ?_⟩⟩
      · rw [parts_append, parts_of_isFileName named, parts_slash]
      · obtain ⟨-, rfl⟩ := root_eq_ok.1 root'
        rw [root, if_neg (by simp), String.append_assoc, isAbsolute_append nonempty,
          isAbsolute_append nonempty]

theorem enter_of_mem_names (wf : p.WellFormed) (isFolder : p.disk.node? folder = some .folder)
    (mem : name ∈ p.disk.names folder) :
    enter p.disk folder name =
      match p.disk.follow Disk.maxLinks (folder ++ [name]) with
      | none => .error .tooManyLinks
      | some there => if (p.disk.node? there).isSome then .ok there else .error .notFound := by
  have named := wf.disk.isFileName_of_mem_names mem
  rw [enter, isFolder]
  cases p.disk.follow Disk.maxLinks (folder ++ [name]) <;>
    simp only [if_neg named.down.1, if_neg named.down.2, if_neg (Nat.not_lt.2 named.short)]

theorem Front.isFolder_append (h : p.Front front folder) (wf : p.WellFormed)
    (mem : name ∈ p.disk.names folder) :
    p.isFolder (front ++ name) =
      (p.disk.isFolder (folder ++ [name]) && (front ++ name).utf8ByteSize ≤ maxName) := by
  have named := wf.disk.isFileName_of_mem_names mem
  have single := not_asksFolder_append named front
  obtain ⟨start, reached, names⟩ := h.exists_start
  obtain ⟨through, root⟩ := names name named
  have located : (parts (front ++ name)).foldlM (enter p.disk) start =
      enter p.disk folder name := by
    rw [through, List.foldlM_append, reached]
    simp only [bind, Except.bind, List.foldlM_cons, List.foldlM_nil]
    cases enter p.disk folder name <;> rfl
  by_cases long : maxName < (front ++ name).utf8ByteSize
  · rw [if_pos long] at root
    rw [decide_eq_false (Nat.not_le.2 long), Bool.and_false]
    simp [Place.isFolder, locate, root, bind, Except.bind]
  · rw [if_neg long] at root
    rw [decide_eq_true (Nat.not_lt.1 long), Bool.and_true, Disk.isFolder]
    rw [enter_of_mem_names wf (h.node? wf) mem] at located
    cases follows : p.disk.follow Disk.maxLinks (folder ++ [name]) with
    | none => simp [Place.isFolder, locate, root, located, follows, bind, Except.bind]
    | some there =>
        cases node : p.disk.node? there <;>
          simp [Place.isFolder, locate, root, located, follows, node, single, bind, Except.bind,
            pure, Except.pure]

theorem namesIn_here (wf : p.WellFormed) : p.namesIn "." = p.disk.names p.folder := by
  have located : p.locate "." = .ok p.folder := by
    refine locate_eq_ok.2 ⟨p.folder, rfl, ?_, by simp [asksFolder]⟩
    simp [parts, partsBetween, enter, wf.folder, bind, Except.bind, pure, Except.pure]
  simp [namesIn, located, wf.folder]

theorem namesIn_of_slash (nonempty : e ≠ "") (single : asksFolder e = false)
    (located : p.locate (e ++ "/") = .ok found) : p.namesIn e = p.disk.names found := by
  obtain ⟨start, root, reached, asked⟩ := locate_eq_ok.1 located
  obtain ⟨⟨-, short⟩, rfl⟩ := root_eq_ok.1 root
  rw [isAbsolute_append nonempty, parts_slash] at reached
  have short' : e.utf8ByteSize ≤ maxName := by
    rw [String.utf8ByteSize_append] at short
    omega
  have located' : p.locate e = .ok found :=
    locate_eq_ok.2 ⟨_, root_eq_ok.2 ⟨⟨nonempty, short'⟩, rfl⟩, reached, by simp [single]⟩
  simp [namesIn, located', asked (by simp [asksFolder])]

end Place

end Acceptor
