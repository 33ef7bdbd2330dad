import AvroBindings.Path

/-!
# Joining paths

A path with names joined to it, one after another or all at once, and what lies between its
slashes.

## Main Definitions

* `Path.IsName` — a text that can be one name of a path.
* `Path.Leads` — names lead from one path to another.

## Main Statements

* `Path.foldl_join` — names are joined one after another as they are all at once.
* `Path.pieces_join` — what lies between the slashes of a path with names joined to it.
* `Path.join_injective` — different relative texts give different paths.
* `Path.Leads.unique` — no other names lead to the same path.
-/

namespace AvroBindings.Path

/-- A text can be a name in a path: it is not empty and has no slash. -/
def IsName (name : String) : Prop := name ≠ "" ∧ '/' ∉ name.toList

theorem IsName.exists_cons {name : String} (h : IsName name) :
    ∃ c rest, name.toList = c :: rest ∧ c ≠ '/' := by
  cases hchars : name.toList with
  | nil => exact absurd (String.toList_eq_nil_iff.1 hchars) h.1
  | cons c rest =>
      refine ⟨c, rest, rfl, ?_⟩
      rintro rfl
      exact h.2 (hchars ▸ List.mem_cons_self)

theorem IsName.getLast?_ne {name : String} (h : IsName name) :
    name.toList.getLast? ≠ some '/' :=
  fun hlast => h.2 (List.mem_of_getLast? hlast)

/-- Names in a row do not start with a slash. -/
theorem head?_intercalate_ne {names : List String} (h : ∀ name ∈ names, IsName name) :
    ("/".intercalate names).toList.head? ≠ some '/' := by
  rw [String.toList_intercalate]
  cases names with
  | nil => simp
  | cons name rest =>
      obtain ⟨c, chars, hchars, hc⟩ := (h name List.mem_cons_self).exists_cons
      cases rest with
      | nil => simpa [hchars] using hc
      | cons other rest =>
          rw [List.map_cons, List.map_cons, List.intercalate_cons_cons, hchars]
          simpa using hc

/-! ## Joining -/

section Join

variable {root : Path} {segment : String}

/-- What is put between a path and a relative text that is joined to it. -/
def gap (root : Path) : String :=
  if root.text.isEmpty || root.text.toList.getLast? == some '/' then "" else "/"

/-- A relative text is put behind the path. -/
theorem join_of_relative (h : segment.toList.head? ≠ some '/') :
    root.join segment = ⟨root.text ++ root.gap ++ segment⟩ := by
  unfold join gap
  rw [if_neg (by simpa using h)]
  split
  · rw [String.append_empty]
  · rfl

theorem gap_join (hsegment : IsName segment) : (root.join segment).gap = "/" := by
  have hhead : segment.toList.head? ≠ some '/' := by
    obtain ⟨c, rest, hchars, hc⟩ := hsegment.exists_cons
    simpa [hchars] using hc
  have hne : segment.toList ≠ [] := by
    obtain ⟨c, rest, hchars, -⟩ := hsegment.exists_cons
    simp [hchars]
  rw [join_of_relative hhead, gap, if_neg]
  rw [Bool.or_eq_true, not_or]
  constructor
  · rw [String.isEmpty_iff, ← String.toList_eq_nil_iff]
    simp [hne]
  · rw [String.toList_append, List.getLast?_append, beq_iff_eq]
    cases hlast : segment.toList.getLast? with
    | none => exact absurd (List.getLast?_eq_none_iff.1 hlast) hne
    | some c =>
        rw [Option.some_or, ← hlast]
        exact hsegment.getLast?_ne

/-- A name and a relative text are joined one after another as they are all at once. -/
theorem join_join {more : String} (hsegment : IsName segment)
    (hmore : more.toList.head? ≠ some '/') :
    (root.join segment).join more = root.join (segment ++ "/" ++ more) := by
  obtain ⟨c, rest, hchars, hc⟩ := hsegment.exists_cons
  have hhead : segment.toList.head? ≠ some '/' := by simpa [hchars] using hc
  have hhead' : (segment ++ "/" ++ more).toList.head? ≠ some '/' := by simpa [hchars] using hc
  rw [join_of_relative hmore, gap_join hsegment, join_of_relative hhead,
    join_of_relative hhead']
  simp only [String.append_assoc]

/-- **Names are joined one after another as they are all at once.** -/
theorem foldl_join {names : List String} (hnames : ∀ name ∈ names, IsName name)
    (hsegment : IsName segment) :
    (names.foldl join root).join segment =
      root.join ("/".intercalate (names ++ [segment])) := by
  induction names generalizing root with
  | nil => rw [List.foldl_nil, List.nil_append, String.intercalate_singleton]
  | cons name rest ih =>
      rw [List.forall_mem_cons] at hnames
      have hrest : ∀ other ∈ rest ++ [segment], IsName other :=
        List.forall_mem_append.2 ⟨hnames.2, List.forall_mem_singleton.2 hsegment⟩
      rw [List.foldl_cons, ih hnames.2, join_join hnames.1 (head?_intercalate_ne hrest)]
      congr 1
      rw [← String.toList_inj, String.toList_append, String.toList_append,
        String.toList_intercalate, String.toList_intercalate, List.cons_append, List.map_cons,
        List.intercalate_cons_of_ne_nil (by simp)]

/-- Names are joined one after another as they are all at once, if there are any. -/
theorem foldl_join_eq {names : List String} (hnames : ∀ name ∈ names, IsName name)
    (hne : names ≠ []) :
    names.foldl join root = root.join ("/".intercalate names) := by
  have hsplit := List.dropLast_concat_getLast hne
  rw [← hsplit, List.forall_mem_append, List.forall_mem_singleton] at hnames
  rw [← hsplit, List.foldl_append]
  exact foldl_join hnames.1 hnames.2

/-- Different relative texts give different paths. -/
theorem join_injective {other : String} (h : segment.toList.head? ≠ some '/')
    (h' : other.toList.head? ≠ some '/') :
    root.join segment = root.join other ↔ segment = other := by
  rw [join_of_relative h, join_of_relative h',
    Path.mk.injEq, ← String.toList_inj, ← String.toList_inj]
  simp

/-! ## Pieces -/

/-- What lies between the slashes of two texts with a slash between them. -/
theorem pieces_slash (text more : String) :
    (Path.mk (text ++ "/" ++ more)).pieces = (Path.mk text).pieces ++
      (Path.mk more).pieces := by
  have hchars : (text ++ "/" ++ more).toList = text.toList ++ '/' :: more.toList := by simp
  rw [pieces, hchars, List.splitOnP_append_cons _ _ (by simp), List.map_append]
  rfl

/-- What lies between the slashes of texts in a row are the texts. -/
theorem pieces_intercalate {names : List String} (h : ∀ name ∈ names, '/' ∉ name.toList)
    (hne : names ≠ []) :
    (Path.mk ("/".intercalate names)).pieces = names := by
  have hslash : ∀ chars ∈ names.map String.toList, '/' ∉ chars := List.forall_mem_map.2 h
  rw [pieces, String.toList_intercalate, ← List.splitOn_eq_splitOnP]
  show List.map String.ofList (List.splitOn '/' (['/'].intercalate (names.map String.toList))) =
    names
  rw [List.splitOn_intercalate _ hslash (by simpa using hne), List.map_map]
  simp

/-- **What lies between the slashes of a path with names joined to it** is what lies between
those of the path, without an empty text at its end, and then the names. -/
theorem pieces_join (root : Path) {names : List String} (h : ∀ name ∈ names, IsName name)
    (hne : names ≠ []) :
    ∃ before ending, root.pieces = before ++ ending ∧ (ending = [] ∨ ending = [""]) ∧
      (root.join ("/".intercalate names)).pieces = before ++ names := by
  have hnames := pieces_intercalate (fun name hname => (h name hname).2) hne
  rw [join_of_relative (head?_intercalate_ne h)]
  obtain ⟨text⟩ := root
  unfold gap
  split
  next hgap =>
    rw [String.append_empty]
    rw [Bool.or_eq_true, String.isEmpty_iff, beq_iff_eq] at hgap
    rcases hgap with rfl | hlast
    · exact ⟨[], [""], rfl, .inr rfl, by rwa [String.empty_append]⟩
    · obtain ⟨chars, hchars⟩ := List.getLast?_eq_some_iff.1 hlast
      obtain rfl : text = String.ofList chars ++ "/" := by
        rw [← String.toList_inj, hchars]
        simp
      refine ⟨(Path.mk (String.ofList chars)).pieces, [""], ?_, .inr rfl, ?_⟩
      · have hslash := pieces_slash (String.ofList chars) ""
        rwa [String.append_empty] at hslash
      · rw [pieces_slash, hnames]
  next => exact ⟨_, [], (List.append_nil _).symm, .inl rfl, by rw [pieces_slash, hnames]⟩

end Join

/-! ## The way to a path -/

/-- **Names lead from one path to another**, each a directory in the one before, and the last of
them in the last directory. -/
structure Leads (root : Path) (names : List String) (path : Path) : Prop where
  isName : ∀ name ∈ names, IsName name
  nonempty : names ≠ []
  path_eq : path = root.join ("/".intercalate names)

/-- The names that lead to a path are what lies between the slashes behind the root. -/
theorem Leads.unique {root path : Path} {names others : List String} (h : root.Leads names path)
    (h' : root.Leads others path) : names = others := by
  have hjoin : "/".intercalate names = "/".intercalate others :=
    (join_injective (head?_intercalate_ne h.isName) (head?_intercalate_ne h'.isName)).1
      (h.path_eq.symm.trans h'.path_eq)
  rw [← pieces_intercalate (fun name hname => (h.isName name hname).2) h.nonempty, hjoin,
    pieces_intercalate (fun name hname => (h'.isName name hname).2) h'.nonempty]

/-! ## Pieces of a path -/

theorem notMem_of_mem_splitOnP {p : Char → Bool} {chars piece : List Char}
    (h : piece ∈ chars.splitOnP p) :
    ∀ c ∈ piece, p c = false := by
  induction chars generalizing piece with
  | nil =>
      obtain rfl := List.mem_singleton.1 (List.splitOnP_nil ▸ h)
      simp
  | cons c rest ih =>
      rw [List.splitOnP_cons_eq_if_modifyHead] at h
      split at h
      next =>
        rcases List.mem_cons.1 h with rfl | h
        · simp
        · exact ih h
      next hc =>
        cases hpieces : rest.splitOnP p with
        | nil => exact absurd hpieces (List.splitOnP_ne_nil _ _)
        | cons first others =>
            rw [hpieces, List.modifyHead_cons, List.mem_cons] at h
            have hrest : ∀ piece ∈ first :: others, ∀ c ∈ piece, p c = false :=
              fun piece hpiece => ih (hpieces ▸ hpiece)
            rcases h with rfl | h
            · exact List.forall_mem_cons.2 ⟨Bool.not_eq_true _ ▸ hc,
                hrest first List.mem_cons_self⟩
            · exact hrest piece (List.mem_cons_of_mem _ h)

/-- No slash lies between slashes. -/
theorem slash_notMem_of_mem_pieces (path : Path) :
    ∀ piece ∈ path.pieces, '/' ∉ piece.toList := by
  intro piece hpiece hslash
  obtain ⟨chars, hchars, rfl⟩ := List.mem_map.1 hpiece
  rw [String.toList_ofList] at hslash
  exact absurd (notMem_of_mem_splitOnP hchars _ hslash) (by simp)

/-- A path is its pieces with slashes between them. -/
theorem text_eq_intercalate (path : Path) : path.text = "/".intercalate path.pieces := by
  have hpieces : path.pieces.map String.toList = path.text.toList.splitOn '/' := by
    rw [pieces, List.map_map, List.splitOn_eq_splitOnP]
    simp
  rw [← String.toList_inj, String.toList_intercalate, hpieces]
  exact (List.intercalate_splitOn '/').symm

/-! ## Parents -/

/-- A piece of a path is idle: it leads nowhere else. -/
def IsIdle (piece : String) : Prop := piece = "" ∨ piece = "."

instance (piece : String) : Decidable (IsIdle piece) :=
  inferInstanceAs (Decidable (piece = "" ∨ piece = "."))

theorem isEmpty_or_dot_iff {piece : String} :
    (piece.isEmpty || piece == ".") = true ↔ IsIdle piece := by
  rw [Bool.or_eq_true, String.isEmpty_iff, beq_iff_eq, IsIdle]

theorem dropIdle_cons {piece : String} (h : ¬IsIdle piece) (rest : List String) :
    dropIdle (piece :: rest) = piece :: rest := by
  cases rest with
  | nil => rw [dropIdle, if_neg (by simpa using fun hempty => h (.inl hempty))]
  | cons other rest => rw [dropIdle, if_neg (mt isEmpty_or_dot_iff.1 h)]; simp

/-- Only idle pieces are dropped.  What is left begins with a piece that is not idle, unless it
is nothing or a dot alone. -/
theorem dropIdle_spec (pieces : List String) :
    ∃ idle, (∀ piece ∈ idle, IsIdle piece) ∧ pieces = idle ++ dropIdle pieces ∧
      (dropIdle pieces = [] ∨ dropIdle pieces = ["."] ∨
        ∃ piece rest, dropIdle pieces = piece :: rest ∧ ¬IsIdle piece) := by
  induction pieces with
  | nil => exact ⟨[], by simp, rfl, .inl rfl⟩
  | cons piece rest ih =>
      by_cases hidle : IsIdle piece
      · cases rest with
        | nil =>
            rcases hidle with rfl | rfl
            · exact ⟨[""], List.forall_mem_singleton.2 (.inl rfl), rfl, .inl rfl⟩
            · exact ⟨[], by simp, rfl, .inr (.inl rfl)⟩
        | cons other rest =>
            obtain ⟨idle, hdropped, hrest, hkept⟩ := ih
            have hdrop : dropIdle (piece :: other :: rest) = dropIdle (other :: rest) := by
              rw [dropIdle, if_pos (isEmpty_or_dot_iff.2 hidle)]
              simp
            rw [hdrop]
            exact ⟨piece :: idle, List.forall_mem_cons.2 ⟨hidle, hdropped⟩,
              by rw [List.cons_append, ← hrest], hkept⟩
      · exact ⟨[], by simp, (dropIdle_cons hidle rest).symm,
          .inr (.inr ⟨piece, rest, dropIdle_cons hidle rest, hidle⟩)⟩

/-- A path has no idle pieces at its end that could be left out. -/
def IsTrimmed (path : Path) : Prop :=
  path.text = "." ∨ ∃ init name, path.pieces = init ++ [name] ∧ ¬IsIdle name

/-- **The path above a name**: the other pieces without the idle ones at their end, or the start
of the path. -/
theorem exists_parent {path : Path} {init : List String} {name : String}
    (h : path.pieces = init ++ [name]) (hname : ¬IsIdle name) :
    ∃ parent, path.parent? = some parent ∧
      ((∀ piece ∈ init, IsIdle piece) ∧ parent.text = (if path.isAbsolute then "/" else "") ∨
        ∃ idle more, (∀ piece ∈ idle, IsIdle piece) ∧ init = parent.pieces ++ idle ∧
          parent.IsTrimmed ∧ path.text = parent.text ++ "/" ++ more) := by
  obtain ⟨idle, hidle, hinit, hkept⟩ := dropIdle_spec init.reverse
  obtain ⟨kept, hkeep⟩ : ∃ kept : List String, dropIdle init.reverse = kept.reverse :=
    ⟨_, (List.reverse_reverse _).symm⟩
  rw [hkeep] at hinit hkept
  have hsplit : init = kept ++ idle.reverse := by
    rw [← List.reverse_inj, hinit, List.reverse_append, List.reverse_reverse]
  have hidle' : ∀ piece ∈ idle.reverse, IsIdle piece :=
    fun piece hpiece => hidle piece (List.mem_reverse.1 hpiece)
  unfold parent?
  rw [h, List.reverse_append, List.reverse_singleton, List.singleton_append,
    dropIdle_cons hname]
  dsimp only
  rw [hkeep, List.reverse_reverse]
  cases kept with
  | nil => exact ⟨_, rfl, .inl ⟨hsplit ▸ hidle', rfl⟩⟩
  | cons first rest =>
      have hpieces : (Path.mk ("/".intercalate (first :: rest))).pieces = first :: rest := by
        refine pieces_intercalate (fun piece hpiece => slash_notMem_of_mem_pieces path piece ?_)
          (by simp)
        rw [h, hsplit]
        exact List.mem_append_left _ (List.mem_append_left _ hpiece)
      refine ⟨_, rfl,
        .inr ⟨idle.reverse, "/".intercalate (idle.reverse ++ [name]), hidle', ?_, ?_, ?_⟩⟩
      · rw [hpieces, hsplit]
      · rcases hkept with hnil | hdot | ⟨piece, others, hothers, hpiece⟩
        · simp at hnil
        · refine .inl ?_
          rw [List.reverse_eq_iff.1 hdot, List.reverse_singleton, String.intercalate_singleton]
        · refine .inr ⟨others.reverse, piece, ?_, hpiece⟩
          rw [hpieces, List.reverse_eq_iff.1 hothers, List.reverse_cons]
      · rw [text_eq_intercalate, h, hsplit, List.append_assoc,
          String.intercalate_append_of_ne_nil (by simp) (by simp)]

end AvroBindings.Path
