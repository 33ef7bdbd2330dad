import AvroBindings.Proofs.FileTree.Walk

/-!
# Looking up and entering

What stands where a path leads, and when an operation can put something there.

## Main Definitions

* `FileTree.placeOf`, `FileTree.wayTo` — the place that a path leads to, and those that it
  passes.
* `FileTree.Follows` — a path can be followed.

## Main Statements

* `FileTree.find_eq_ok_iff`, `FileTree.isDirectory_iff`, `FileTree.readText_eq_ok_iff` — what is
  found where.
* `FileTree.makeDirectory_eq_ok_iff`, `FileTree.writeText_eq_ok_iff` — when an entry is made.
* `FileTree.placeOf_join`, `FileTree.mem_wayTo_join` — where a path with names joined to it
  leads, and what it passes.
* `FileTree.target_error_eq_notFound` — why a new entry has no place, where no file is in the
  way.
-/

namespace AvroBindings

open AvroBindings.Path (IsIdle)

namespace FileTree

variable {tree tree' : FileTree} {path : Path} {place : Place} {init : List String}
  {name : String}

/-! ## Where paths start -/

theorem isGround_startOf (path : Path) : isGround (startOf path) = true := by
  unfold startOf
  split
  · rfl
  · rfl

theorem startOf_of_text {parent : Path} {more : String} (h : path.text = parent.text ++ more)
    (hne : parent.text ≠ "") :
    startOf path = startOf parent := by
  have hhead : path.text.toList.head? = parent.text.toList.head? := by
    rw [h, String.toList_append,
      List.head?_append_of_ne_nil _ (mt String.toList_eq_nil_iff.1 hne)]
  rw [startOf, startOf, Path.isAbsolute, Path.isAbsolute, hhead]

/-! ## Looking up -/

/-- The place that a path leads to. -/
def placeOf (path : Path) : Place := destination (startOf path) path.pieces

/-- The places that a path passes. -/
def wayTo (path : Path) : List Place := walked (startOf path) path.pieces

/-- **A path can be followed**: it is a path, no name in it is too long, and it passes
directories only. -/
structure Follows (tree : FileTree) (path : Path) : Prop where
  valid : checkPath path = .ok ()
  fits : ∀ piece ∈ path.pieces, piece.utf8ByteSize ≤ nameLimit
  passes : ∀ place ∈ wayTo path, tree.get? place = some .directory

theorem resolve_eq_ok_iff :
    tree.resolve path = .ok place ↔ tree.Follows path ∧ place = placeOf path := by
  rw [resolve, seq_eq_ok_iff, follow_eq_ok_iff]
  constructor
  · rintro ⟨hvalid, hpasses, hfits, hplace⟩
    exact ⟨⟨hvalid, hfits, hpasses⟩, hplace⟩
  · rintro ⟨⟨hvalid, hfits, hpasses⟩, hplace⟩
    exact ⟨hvalid, hpasses, hfits, hplace⟩

theorem find_eq_ok_iff {entry : FileEntry} :
    tree.find path = .ok (place, entry) ↔
      tree.Follows path ∧ place = placeOf path ∧ tree.get? (placeOf path) = some entry := by
  rw [find, bind_eq_ok_iff]
  simp only [resolve_eq_ok_iff]
  constructor
  · rintro ⟨_, ⟨hfollows, rfl⟩, hentry⟩
    split at hentry
    next found hfound =>
      obtain ⟨rfl, rfl⟩ := Prod.mk.inj (Except.ok.inj hentry)
      exact ⟨hfollows, rfl, hfound⟩
    next => contradiction
  · rintro ⟨hfollows, rfl, hentry⟩
    exact ⟨_, ⟨hfollows, rfl⟩, by rw [hentry]⟩

/-- A path leads to a directory exactly if it can be followed and there is one. -/
theorem isDirectory_iff :
    tree.isDirectory path = true ↔
      tree.Follows path ∧ tree.get? (placeOf path) = some .directory := by
  unfold isDirectory
  constructor
  · intro h
    split at h
    next found hfound =>
      obtain ⟨hfollows, -, hentry⟩ := find_eq_ok_iff.1 hfound
      exact ⟨hfollows, hentry⟩
    next => contradiction
  · rintro ⟨hfollows, hentry⟩
    rw [find_eq_ok_iff.2 ⟨hfollows, rfl, hentry⟩]

/-- A text is read where a path leads to a file with it. -/
theorem readText_eq_ok_iff {text : String} :
    tree.readText path = .ok text ↔
      tree.Follows path ∧ tree.get? (placeOf path) = some (.file (.text text)) := by
  rw [readText, bind_eq_ok_iff]
  constructor
  · rintro ⟨⟨found, entry⟩, hfound, htext⟩
    obtain ⟨hfollows, -, hentry⟩ := find_eq_ok_iff.1 hfound
    cases entry with
    | directory => contradiction
    | file content =>
        cases content with
        | text value =>
            obtain rfl := Except.ok.inj htext
            exact ⟨hfollows, hentry⟩
        | bytes value => contradiction
  · rintro ⟨hfollows, hentry⟩
    exact ⟨_, find_eq_ok_iff.2 ⟨hfollows, rfl, hentry⟩, rfl⟩

/-! ## New entries -/

/-- Where a path ends in a piece that is not idle, a new entry has this name; two dots name no
new entry. -/
theorem target_eq (h : path.pieces = init ++ [name]) (hname : ¬IsIdle name) :
    tree.target path = (do
      checkPath path
      let parent ← tree.follow (startOf path) init
      tree.requireDirectory parent
      return if name = ".." then none else some ⟨parent, name, false⟩) := by
  have hnonempty : name.isEmpty = false := by simpa using fun hempty => hname (.inl hempty)
  have hdot : (name == ".") = false := by simpa using fun hdot => hname (.inr hdot)
  have hreverse : path.pieces.reverse = name :: init.reverse := by
    rw [h, List.reverse_append, List.reverse_singleton, List.singleton_append]
  unfold target
  rw [hreverse]
  dsimp only
  rw [List.dropWhile_cons_of_neg (by simp [hnonempty])]
  dsimp only
  rw [List.reverse_reverse]
  refine congrArg _
    (funext fun _ => congrArg _ (funext fun parent => congrArg _ (funext fun _ => ?_)))
  by_cases hup : name = ".."
  · rw [if_pos hup, if_pos (by simp [hup])]
  · rw [if_neg hup, if_neg (by simp [hup, hdot]), List.head?_cons, Option.any_some, hnonempty]

theorem target_eq_ok_iff (h : path.pieces = init ++ [name]) (hname : ¬IsIdle name)
    {target : Option Target} :
    tree.target path = .ok target ↔
      (checkPath path = .ok () ∧ (∀ piece ∈ init, piece.utf8ByteSize ≤ nameLimit) ∧
        ∀ place ∈ wayTo path, tree.get? place = some .directory) ∧
      target = if name = ".." then none
        else some ⟨destination (startOf path) init, name, false⟩ := by
  rw [target_eq h hname, seq_eq_ok_iff, bind_eq_ok_iff, wayTo, h, walked_concat]
  simp only [seq_eq_ok_iff, follow_eq_ok_iff, requireDirectory_eq_ok_iff, reached,
    List.forall_mem_append, List.forall_mem_singleton]
  constructor
  · rintro ⟨hvalid, _, ⟨hpassed, hfits, rfl⟩, hparent, htarget⟩
    exact ⟨⟨hvalid, hfits, hpassed, hparent⟩, (Except.ok.inj htarget).symm⟩
  · rintro ⟨⟨hvalid, hfits, hpassed, hparent⟩, rfl⟩
    exact ⟨hvalid, _, ⟨hpassed, hfits, rfl⟩, hparent, rfl⟩

/-- Without files on the way only a missing directory keeps a new entry from having a place. -/
theorem target_error_eq_notFound (h : path.pieces = init ++ [name]) (hname : ¬IsIdle name)
    (hvalid : checkPath path = .ok ()) (hfits : ∀ piece ∈ init, piece.utf8ByteSize ≤ nameLimit)
    (hfiles : ∀ place ∈ wayTo path, ∀ content, tree.get? place ≠ some (.file content))
    {cause : FileError} (hrefused : tree.target path = .error cause) : cause = .notFound := by
  rw [wayTo, h, walked_concat, reached, List.forall_mem_append, List.forall_mem_singleton]
    at hfiles
  rw [target_eq h hname, hvalid] at hrefused
  cases hfollow : tree.follow (startOf path) init with
  | error cause' =>
      rw [hfollow] at hrefused
      obtain rfl : cause' = cause := Except.error.inj hrefused
      exact follow_error_eq_notFound hfiles.1 hfits hfollow
  | ok parent =>
      obtain ⟨-, -, rfl⟩ := follow_eq_ok_iff.1 hfollow
      rw [hfollow] at hrefused
      change (tree.requireDirectory (destination (startOf path) init) >>= _) = _ at hrefused
      rw [requireDirectory] at hrefused
      cases hentry : tree.get? (destination (startOf path) init) with
      | none =>
          rw [hentry] at hrefused
          exact (Except.error.inj hrefused).symm
      | some entry =>
          rw [hentry] at hrefused
          cases entry with
          | directory => contradiction
          | file content => exact absurd hentry (hfiles.2 content)

/-- The last piece of a path is a name that a new entry can have. -/
theorem placeOf_eq (h : path.pieces = init ++ [name]) (hname : ¬IsIdle name)
    (hup : name ≠ "..") :
    placeOf path = destination (startOf path) init ++ [name] := by
  rw [placeOf, h, destination_concat, step_of_plain hname hup]

/-- A new place is none of those that need no entry. -/
theorem isGround_placeOf (h : path.pieces = init ++ [name]) (hname : ¬IsIdle name)
    (hup : name ≠ "..") :
    isGround (placeOf path) = false := by
  have hslash : name ≠ "/" := by
    rintro rfl
    exact Path.slash_notMem_of_mem_pieces path "/"
      (h ▸ List.mem_append_right _ (List.mem_singleton_self _)) (by decide)
  rw [placeOf_eq h hname hup, isGround, Bool.or_eq_false_iff, List.all_append]
  refine ⟨by simp [hup], ?_⟩
  cases destination (startOf path) init with
  | nil => simpa using hslash
  | cons first rest => simp

/-- What stands at the end of a path does not keep a new entry from having a place. -/
theorem target_ne_exists (h : path.pieces = init ++ [name]) (hname : ¬IsIdle name) :
    tree.target path ≠ .error .exists := by
  rw [target_eq h hname]
  refine bind_ne_error ?_ fun _ => bind_ne_error follow_ne_exists fun parent =>
    bind_ne_error requireDirectory_ne_exists fun _ => by simp [pure, Except.pure]
  unfold checkPath
  split_ifs <;> simp

/-- **An operation that enters a new name** succeeds, or finds the name taken, exactly if the
path can be followed and this is what comes of entering at its place. -/
theorem enter_eq_iff (h : path.pieces = init ++ [name]) (hname : ¬IsIdle name)
    (operation : Option Target → Except FileError FileTree)
    (enter : Place → Except FileError FileTree) {outcome : Except FileError FileTree}
    (houtcome : ∀ cause, outcome = .error cause → cause = .exists)
    (hnone : operation none ≠ outcome)
    (hsome : ∀ parent name,
      operation (some ⟨parent, name, false⟩) = (below parent name >>= enter)) :
    (tree.target path >>= operation) = outcome ↔
      tree.Follows path ∧ name ≠ ".." ∧ enter (placeOf path) = outcome := by
  have hfits : (∀ piece ∈ path.pieces, piece.utf8ByteSize ≤ nameLimit) ↔
      (∀ piece ∈ init, piece.utf8ByteSize ≤ nameLimit) ∧ name.utf8ByteSize ≤ nameLimit := by
    rw [h, List.forall_mem_append, List.forall_mem_singleton]
  constructor
  · intro henter
    cases htarget : tree.target path with
    | error cause =>
        rw [htarget] at henter
        obtain rfl := houtcome cause henter.symm
        exact absurd htarget (target_ne_exists h hname)
    | ok target =>
        obtain ⟨⟨hvalid, hinit, hpasses⟩, rfl⟩ := (target_eq_ok_iff h hname).1 htarget
        rw [htarget] at henter
        change operation _ = outcome at henter
        by_cases hup : name = ".."
        · rw [if_pos hup] at henter
          exact absurd henter hnone
        · rw [if_neg hup, hsome] at henter
          by_cases hshort : name.utf8ByteSize ≤ nameLimit
          · rw [below_eq_ok_iff.2 ⟨hshort, rfl⟩, ← placeOf_eq h hname hup] at henter
            exact ⟨⟨hvalid, hfits.2 ⟨hinit, hshort⟩, hpasses⟩, hup, henter⟩
          · rw [below, if_pos (Nat.not_le.1 hshort)] at henter
            exact absurd (houtcome _ henter.symm) (by simp)
  · rintro ⟨⟨hvalid, hall, hpasses⟩, hup, henter⟩
    obtain ⟨hinit, hshort⟩ := hfits.1 hall
    rw [(target_eq_ok_iff h hname).2 ⟨⟨hvalid, hinit, hpasses⟩, rfl⟩, if_neg hup]
    change operation _ = outcome
    rw [hsome, below_eq_ok_iff.2 ⟨hshort, rfl⟩, ← placeOf_eq h hname hup]
    exact henter

/-- A directory is made where a path can be followed and nothing stands. -/
theorem makeDirectory_eq_ok_iff (h : path.pieces = init ++ [name]) (hname : ¬IsIdle name) :
    tree.makeDirectory path = .ok tree' ↔
      tree.Follows path ∧ name ≠ ".." ∧ tree.get? (placeOf path) = none ∧
        tree' = tree.set (placeOf path) .directory := by
  unfold makeDirectory
  refine (enter_eq_iff h hname _ _ (by simp) (by simp [throw, throwThe, MonadExceptOf.throw])
    fun _ _ => rfl).trans ?_
  cases tree.get? (placeOf path) with
  | none => simp [pure, Except.pure, eq_comm]
  | some entry => simp [throw, throwThe, MonadExceptOf.throw]

/-- A directory is refused where something stands. -/
theorem makeDirectory_eq_exists (h : path.pieces = init ++ [name]) (hname : ¬IsIdle name)
    (hfollows : tree.Follows path) {entry : FileEntry}
    (hentry : tree.get? (placeOf path) = some entry) :
    tree.makeDirectory path = .error .exists := by
  have hfits := hfollows.fits
  rw [h, List.forall_mem_append, List.forall_mem_singleton] at hfits
  rw [makeDirectory,
    (target_eq_ok_iff h hname).2 ⟨⟨hfollows.valid, hfits.1, hfollows.passes⟩, rfl⟩]
  by_cases hup : name = ".."
  · rw [if_pos hup]
    rfl
  · rw [if_neg hup]
    change (below (destination (startOf path) init) name >>= _) = _
    rw [below_eq_ok_iff.2 ⟨hfits.2, rfl⟩, ← placeOf_eq h hname hup]
    simp [Bind.bind, Except.bind, hentry, throw, throwThe, MonadExceptOf.throw]

/-- A file is written where a path can be followed and no directory stands. -/
theorem writeText_eq_ok_iff (h : path.pieces = init ++ [name]) (hname : ¬IsIdle name)
    {text : String} :
    tree.writeText path text = .ok tree' ↔
      tree.Follows path ∧ name ≠ ".." ∧ tree.get? (placeOf path) ≠ some .directory ∧
        tree' = tree.set (placeOf path) (.file (.text text)) := by
  unfold writeText
  refine (enter_eq_iff h hname _ _ (by simp) (by simp [throw, throwThe, MonadExceptOf.throw])
    fun _ _ => rfl).trans ?_
  cases tree.get? (placeOf path) with
  | none => simp [pure, Except.pure, eq_comm]
  | some entry =>
      cases entry <;> simp [throw, throwThe, MonadExceptOf.throw, pure, Except.pure, eq_comm]

/-- An empty file is created where a path can be followed and nothing stands. -/
theorem createEmpty_eq_ok_iff (h : path.pieces = init ++ [name]) (hname : ¬IsIdle name) :
    tree.createEmpty path = .ok tree' ↔
      tree.Follows path ∧ name ≠ ".." ∧ tree.get? (placeOf path) = none ∧
        tree' = tree.set (placeOf path) (.file (.text "")) := by
  unfold createEmpty
  refine (enter_eq_iff h hname _ _ (by simp) (by simp [throw, throwThe, MonadExceptOf.throw])
    fun _ _ => rfl).trans ?_
  cases tree.get? (placeOf path) with
  | none => simp [pure, Except.pure, eq_comm]
  | some entry => simp [throw, throwThe, MonadExceptOf.throw]

/-- An empty file is left out because of what stands in its place. -/
theorem createEmpty_eq_exists_iff (h : path.pieces = init ++ [name]) (hname : ¬IsIdle name) :
    tree.createEmpty path = .error .exists ↔
      tree.Follows path ∧ name ≠ ".." ∧ ∃ entry, tree.get? (placeOf path) = some entry := by
  unfold createEmpty
  refine (enter_eq_iff h hname _ _ (by simp) (by simp [throw, throwThe, MonadExceptOf.throw])
    fun _ _ => rfl).trans ?_
  cases tree.get? (placeOf path) with
  | none => simp [pure, Except.pure]
  | some entry => simp [throw, throwThe, MonadExceptOf.throw]

/-! ## Joined names -/

/-- A path ends in a name that a file can have. -/
def EndsInName (path : Path) : Prop :=
  ∃ init name, path.pieces = init ++ [name] ∧ ¬IsIdle name ∧ name ≠ ".."

theorem EndsInName.isGround (h : EndsInName path) : isGround (placeOf path) = false := by
  obtain ⟨init, name, hpieces, hidle, hup⟩ := h
  exact isGround_placeOf hpieces hidle hup

/-- A new entry that need not be a directory has the last name of the path. -/
theorem endsInName_of_target {parent : Place} {name : String}
    (h : tree.target path = .ok (some ⟨parent, name, false⟩)) : EndsInName path := by
  obtain ⟨-, h⟩ := seq_eq_ok_iff.1 h
  dsimp only at h
  split at h
  next => simp [pure, Except.pure] at h
  next last parents hdrop =>
    obtain ⟨parent', -, h⟩ := bind_eq_ok_iff.1 h
    obtain ⟨-, h⟩ := seq_eq_ok_iff.1 h
    split at h
    next => simp [pure, Except.pure] at h
    next hplain =>
      simp only [pure, Except.pure, Except.ok.injEq, Option.some.injEq, Target.mk.injEq] at h
      obtain ⟨rfl, rfl, hslashed⟩ := h
      cases hpieces : path.pieces.reverse with
      | nil =>
          rw [hpieces] at hdrop
          contradiction
      | cons first rest =>
          have hfirst : first.isEmpty = false := by simpa [hpieces] using hslashed
          rw [hpieces, List.dropWhile_cons_of_neg (by simp [hfirst])] at hdrop
          obtain ⟨rfl, rfl⟩ := List.cons.inj hdrop
          have hne : first ≠ "" := by simpa using hfirst
          simp only [Bool.or_eq_true, beq_iff_eq, not_or] at hplain
          exact ⟨rest.reverse, first, List.reverse_eq_cons_iff.1 hpieces,
            fun h => h.elim hne hplain.1, hplain.2⟩

/-- A file is written only under a path that ends in a name. -/
theorem endsInName_of_writeText {text : String} (h : tree.writeText path text = .ok tree') :
    EndsInName path := by
  obtain ⟨target, htarget, h⟩ := bind_eq_ok_iff.1 h
  split at h
  next => contradiction
  next => contradiction
  next parent name => exact endsInName_of_target htarget

theorem destination_of_plain {here : Place} {names : List String}
    (h : ∀ name ∈ names, ¬IsIdle name ∧ name ≠ "..") :
    destination here names = here ++ names := by
  induction names generalizing here with
  | nil => exact (List.append_nil here).symm
  | cons name rest ih =>
      rw [List.forall_mem_cons] at h
      rw [destination, List.foldl_cons, step_of_plain h.1.1 h.1.2]
      exact (ih h.2).trans (by rw [List.append_assoc, List.singleton_append])

variable {root : Path} {names : List String}

theorem startOf_join (h : ∀ name ∈ names, Path.IsName name) :
    startOf (root.join ("/".intercalate names)) = startOf root := by
  have hhead := Path.head?_intercalate_ne h
  rw [Path.join_of_relative hhead]
  by_cases hroot : root.text = ""
  · have hgap : root.gap = "" := by simp [Path.gap, hroot]
    rw [startOf, startOf, Path.isAbsolute, Path.isAbsolute, hroot, hgap, String.empty_append,
      String.empty_append, if_neg (by simpa using hhead)]
    rfl
  · exact startOf_of_text String.append_assoc hroot

/-- **A path with names joined to it leads to the place below by these names.** -/
theorem placeOf_join (h : ∀ name ∈ names, Path.IsName name)
    (hplain : ∀ name ∈ names, ¬IsIdle name ∧ name ≠ "..") (hne : names ≠ []) :
    placeOf (root.join ("/".intercalate names)) = placeOf root ++ names := by
  obtain ⟨before, ending, hroot, hending, hpieces⟩ := Path.pieces_join root h hne
  have hidle : ∀ piece ∈ ending, IsIdle piece := by
    rcases hending with rfl | rfl
    · simp
    · exact List.forall_mem_singleton.2 (.inl rfl)
  rw [placeOf, placeOf, startOf_join h, hpieces, hroot, destination_append, destination_append,
    destination_of_idle hidle, destination_of_plain hplain]

/-- A path with one name joined to it leads to the place below by this name. -/
theorem placeOf_join_name (root : Path) {name : String} (h : Path.IsName name)
    (hplain : ¬IsIdle name ∧ name ≠ "..") :
    placeOf (root.join name) = placeOf root ++ [name] := by
  have hplace : placeOf (root.join ("/".intercalate [name])) = placeOf root ++ [name] :=
    placeOf_join (List.forall_mem_singleton.2 h) (List.forall_mem_singleton.2 hplain)
      (List.cons_ne_nil _ _)
  rwa [String.intercalate_singleton] at hplace

/-- Names that lead downwards reach the places below where they start. -/
theorem mem_reached_of_plain {here : Place} {names : List String}
    (h : ∀ name ∈ names, ¬IsIdle name ∧ name ≠ "..") :
    place ∈ reached here names ↔ ∃ inner, inner <+: names ∧ place = here ++ inner := by
  induction names using List.reverseRecOn with
  | nil => simp [reached, walked, destination]
  | append_singleton names name ih =>
      rw [List.forall_mem_append, List.forall_mem_singleton] at h
      rw [mem_reached_concat, ih h.1, destination_of_plain h.1, step_of_plain h.2.1 h.2.2,
        List.append_assoc]
      simp only [List.prefix_concat_iff]
      constructor
      · rintro (⟨inner, hinner, rfl⟩ | rfl)
        · exact ⟨inner, .inr hinner, rfl⟩
        · exact ⟨_, .inl rfl, rfl⟩
      · rintro ⟨inner, rfl | hinner, rfl⟩
        · exact .inr rfl
        · exact .inl ⟨inner, hinner, rfl⟩

/-- **A path with names joined to it passes** the places that the path itself passes, and those
from its own down to the directory around the last of the names. -/
theorem mem_wayTo_join {last : String} (h : ∀ name ∈ names ++ [last], Path.IsName name)
    (hplain : ∀ name ∈ names, ¬IsIdle name ∧ name ≠ "..") :
    place ∈ wayTo (root.join ("/".intercalate (names ++ [last]))) ↔
      place ∈ wayTo root ∨ ∃ inner, inner <+: names ∧ place = placeOf root ++ inner := by
  obtain ⟨before, ending, hroot, hending, hpieces⟩ := Path.pieces_join root h (by simp)
  have hidle : ∀ piece ∈ ending, IsIdle piece := by
    rcases hending with rfl | rfl
    · simp
    · exact List.forall_mem_singleton.2 (.inl rfl)
  have hplace : placeOf root = destination (startOf root) before := by
    rw [placeOf, hroot, destination_append, destination_of_idle hidle]
  rw [wayTo, startOf_join h, hpieces, ← List.append_assoc, walked_concat, reached_append,
    List.mem_append, mem_reached_of_plain hplain, ← hplace, wayTo, hroot,
    walked_append, ← hplace, List.mem_append]
  constructor
  · rintro (hway | hbelow)
    · exact .inl (.inl hway)
    · exact .inr hbelow
  · rintro ((hway | hend) | hbelow)
    · exact .inl hway
    · have hreached : place ∈ reached (placeOf root) ending := mem_reached.2 (.inl hend)
      exact .inr ⟨[], List.nil_prefix,
        by rw [(mem_reached_of_idle hidle).1 hreached, List.append_nil]⟩
    · exact .inr hbelow

/-- A path with one name joined to it passes the place of the path. -/
theorem placeOf_mem_wayTo_join_name (root : Path) {name : String} (h : Path.IsName name) :
    placeOf root ∈ wayTo (root.join name) := by
  have hway : placeOf root ∈ wayTo (root.join ("/".intercalate ([] ++ [name]))) :=
    (mem_wayTo_join (List.forall_mem_singleton.2 h) (by simp)).2
      (.inr ⟨[], List.nil_prefix, (List.append_nil _).symm⟩)
  rwa [List.nil_append, String.intercalate_singleton] at hway

theorem endsInName_join (h : ∀ name ∈ names, Path.IsName name)
    (hplain : ∀ name ∈ names, ¬IsIdle name ∧ name ≠ "..") (hne : names ≠ []) :
    EndsInName (root.join ("/".intercalate names)) := by
  obtain ⟨before, ending, -, -, hpieces⟩ := Path.pieces_join root h hne
  refine ⟨before ++ names.dropLast, names.getLast hne, ?_, hplain _ (List.getLast_mem hne)⟩
  rw [hpieces, List.append_assoc, List.dropLast_concat_getLast]

end FileTree

end AvroBindings
