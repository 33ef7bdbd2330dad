import AvroBindings.Proofs.FileTree.Entering

/-!
# Making directories

Directories are made where a path passes and none stands.  The places on the way decide whether
this is done, and nothing else is changed.

## Main Definitions

* `FileTree.Admits` — the directories of a path can be made.
* `FileTree.Opened` — a tree with the directories of a path made.
* `FileTree.Makes` — they are made exactly if they can be.

## Main Statements

* `FileTree.exists_above` — what the path above a path reaches.
* `FileTree.makes_of_above` — one directory, after those above it.
* `FileTree.makes_makeDirectories` — all directories of a path.
* `FileTree.makeDirectories_eq_self` — the same where they are there.

## Design Notes

A directory is tried first at the end of a path and then further up, so the recursion is on the
paths above a path.  They are the path without its last pieces, and the places that each reaches
are those that the next passes.
-/

namespace AvroBindings

open AvroBindings.Path (IsIdle)

namespace FileTree

variable {tree tree' : FileTree} {path : Path} {place : Place} {init : List String}
  {name : String}

/-! ## Paths above a path -/

theorem checkPath_eq_ok_iff :
    checkPath path = .ok () ↔
      '\x00' ∉ path.text.toList ∧ path.text ≠ "" ∧ path.text.utf8ByteSize ≤ pathLimit := by
  unfold checkPath
  by_cases hnul : '\x00' ∈ path.text.toList
  · simp [hnul]
  · by_cases hempty : path.text = ""
    · simp [hempty]
    · by_cases hlong : path.text.utf8ByteSize > pathLimit
      · simp [hnul, hempty, hlong]
      · simp [hnul, hempty, hlong, Nat.not_lt.1 hlong]

/-- **What stands before a slash of a path that can be followed leads to a directory.** -/
theorem Follows.isDirectory_of_slash {outer : Path} {more : String}
    (hfollows : tree.Follows path) (htext : path.text = outer.text ++ "/" ++ more)
    (hne : outer.text ≠ "") : tree.isDirectory outer = true := by
  have hpieces : path.pieces = outer.pieces ++ (Path.mk more).pieces := by
    obtain ⟨text⟩ := path
    obtain rfl : text = outer.text ++ "/" ++ more := htext
    exact Path.pieces_slash _ _
  have hstart : startOf path = startOf outer :=
    startOf_of_text (htext.trans String.append_assoc) hne
  obtain ⟨hvalid, hfits, hpasses⟩ := hfollows
  rw [hpieces, List.forall_mem_append] at hfits
  rw [wayTo, hpieces, hstart, walked_append, List.forall_mem_append] at hpasses
  refine isDirectory_iff.2 ⟨⟨checkPath_eq_ok_iff.2 ?_, hfits.1, hpasses.1⟩, ?_⟩
  · rw [checkPath_eq_ok_iff, htext] at hvalid
    obtain ⟨hnul, -, hlong⟩ := hvalid
    refine ⟨fun hmem => hnul (by simp [hmem]), hne, ?_⟩
    simp only [String.utf8ByteSize_append] at hlong
    omega
  · -- There is a piece behind the slash, so the place before it is passed.
    have hbehind : (Path.mk more).pieces ≠ [] :=
      mt List.map_eq_nil_iff.1 (List.splitOnP_ne_nil _ _)
    obtain ⟨first, rest, hmore⟩ := List.exists_cons_of_ne_nil hbehind
    rw [hmore] at hpasses
    exact hpasses.2 _ List.mem_cons_self

theorem text_ne_empty_of_isTrimmed (h : path.IsTrimmed) : path.text ≠ "" := by
  intro hempty
  obtain ⟨text⟩ := path
  obtain rfl : text = "" := hempty
  rcases h with hdot | ⟨init, name, hpieces, hname⟩
  · simp at hdot
  · have hpieces' : [""] = init ++ [name] := hpieces
    obtain ⟨-, hlast⟩ := List.append_inj' (show [] ++ [""] = init ++ [name] from hpieces') rfl
    exact hname (.inl (List.singleton_inj.1 hlast).symm)

theorem size_le_of_isIdle {piece : String} (h : IsIdle piece) :
    piece.utf8ByteSize ≤ nameLimit := by
  rcases h with rfl | rfl <;> decide

/-- The directories of a path are made within some tries: it is the start of paths, or it has
few pieces and none to be left out at its end. -/
def Settles (path : Path) (limit : Nat) : Prop :=
  (path.text = "" ∨ path.text = "/") ∧ 0 < limit ∨ path.IsTrimmed ∧ path.pieces.length < limit

/-- **What the path above a path reaches is what the path passes.** -/
theorem exists_above (h : path.pieces = init ++ [name]) (hname : ¬IsIdle name) :
    ∃ parent, path.parent? = some parent ∧
      (∀ limit, path.pieces.length ≤ limit → Settles parent limit) ∧
      (∀ place, place ∈ reached (startOf parent) parent.pieces ↔ place ∈ wayTo path) ∧
      ((∀ piece ∈ parent.pieces, piece.utf8ByteSize ≤ nameLimit) ↔
        ∀ piece ∈ init, piece.utf8ByteSize ≤ nameLimit) ∧
      (checkPath path = .ok () → parent.text = "" ∨ checkPath parent = .ok ()) := by
  obtain ⟨parent, hparent, hkind⟩ := Path.exists_parent h hname
  refine ⟨parent, hparent, ?_⟩
  rw [wayTo, h, walked_concat, List.length_append, List.length_singleton]
  rcases hkind with ⟨hidle, htext⟩ | ⟨idle, more, hidle, hinit, htrimmed, htext⟩
  · -- Nothing but the start of the path is left.
    have hstart : (parent.text = "" ∨ parent.text = "/") ∧ startOf parent = startOf path ∧
        (∀ piece ∈ parent.pieces, IsIdle piece) ∧
        (parent.text = "" ∨ checkPath parent = .ok ()) := by
      obtain ⟨text⟩ := parent
      rw [startOf, startOf]
      cases habsolute : path.isAbsolute with
      | true =>
          obtain rfl : text = "/" := by simpa [habsolute] using htext
          exact ⟨.inr rfl, rfl,
            List.forall_mem_cons.2 ⟨.inl rfl, List.forall_mem_singleton.2 (.inl rfl)⟩, .inr rfl⟩
      | false =>
          obtain rfl : text = "" := by simpa [habsolute] using htext
          exact ⟨.inl rfl, rfl, List.forall_mem_singleton.2 (.inl rfl), .inl rfl⟩
    obtain ⟨htext', hsame, hpieces, hvalid⟩ := hstart
    refine ⟨fun limit hlimit => .inl ⟨htext', by omega⟩, fun place => ?_, ?_, fun _ => hvalid⟩
    · rw [hsame, mem_reached_of_idle hpieces, mem_reached_of_idle hidle]
    · exact iff_of_true (fun piece hpiece => size_le_of_isIdle (hpieces piece hpiece))
        (fun piece hpiece => size_le_of_isIdle (hidle piece hpiece))
  · have hsame : startOf path = startOf parent :=
      startOf_of_text (htext.trans String.append_assoc) (text_ne_empty_of_isTrimmed htrimmed)
    refine ⟨fun limit hlimit => .inr ⟨htrimmed, ?_⟩, fun place => ?_, ?_, fun hvalid => .inr ?_⟩
    · rw [hinit, List.length_append] at hlimit
      omega
    · rw [hinit, mem_reached_append_idle hidle, hsame]
    · rw [hinit, List.forall_mem_append]
      exact ⟨fun hfits => ⟨hfits, fun piece hpiece => size_le_of_isIdle (hidle piece hpiece)⟩,
        fun hfits => hfits.1⟩
    · rw [checkPath_eq_ok_iff] at hvalid ⊢
      rw [htext] at hvalid
      obtain ⟨hnul, -, hlong⟩ := hvalid
      refine ⟨fun hmem => hnul ?_, text_ne_empty_of_isTrimmed htrimmed, ?_⟩
      · simp [hmem]
      · simp only [String.utf8ByteSize_append] at hlong
        omega

/-! ## All directories -/

/-- **The directories of a path can be made**: it is a path, no name in it is too long, and no
file stands on it. -/
structure Admits (tree : FileTree) (path : Path) : Prop where
  valid : path.text = "" ∨ checkPath path = .ok ()
  fits : ∀ piece ∈ path.pieces, piece.utf8ByteSize ≤ nameLimit
  clear : ∀ place ∈ reached (startOf path) path.pieces, ∀ content,
    tree.get? place ≠ some (.file content)

/-- **A tree with the directories of a path made**: what stood elsewhere stands there still. -/
def Opened (tree : FileTree) (path : Path) (tree' : FileTree) : Prop :=
  ∀ place, tree'.get? place =
    if place ∈ reached (startOf path) path.pieces then some .directory else tree.get? place

/-- Where directories stand on the way and no file at the end, a directory is refused only if it
is there. -/
theorem isDirectory_of_makeDirectory (h : path.pieces = init ++ [name]) (hname : ¬IsIdle name)
    (hfollows : tree.Follows path)
    (hclear : ∀ content, tree.get? (placeOf path) ≠ some (.file content)) {cause : FileError}
    (hrefused : tree.makeDirectory path = .error cause) : tree.isDirectory path = true := by
  refine isDirectory_iff.2 ⟨hfollows, ?_⟩
  by_cases hup : name = ".."
  · have hpasses := hfollows.passes
    rw [wayTo, h, walked_concat] at hpasses
    have habove := get?_above (isGround_startOf path) hpasses
    rwa [placeOf, h, destination_concat, hup]
  · cases hentry : tree.get? (placeOf path) with
    | none =>
        have hmade := (makeDirectory_eq_ok_iff h hname).2 ⟨hfollows, hup, hentry, rfl⟩
        rw [hrefused] at hmade
        contradiction
    | some entry =>
        cases entry with
        | directory => rfl
        | file content => exact absurd hentry (hclear content)

/-- Without files on the way a directory is refused only if one above it is missing, or if it is
there. -/
theorem notFound_or_isDirectory_of_makeDirectory (h : path.pieces = init ++ [name])
    (hname : ¬IsIdle name) (hadmits : tree.Admits path) {cause : FileError}
    (hrefused : tree.makeDirectory path = .error cause) :
    cause = .notFound ∨ tree.isDirectory path = true := by
  have hvalid :=
    hadmits.valid.resolve_left (text_ne_empty_of_isTrimmed (.inr ⟨init, name, h, hname⟩))
  obtain ⟨hpassed, hlast⟩ := List.forall_mem_append.1 hadmits.clear
  have hinit : ∀ piece ∈ init, piece.utf8ByteSize ≤ nameLimit := by
    intro piece hpiece
    exact hadmits.fits piece (h ▸ List.mem_append_left _ hpiece)
  cases htarget : tree.target path with
  | error cause' =>
      rw [makeDirectory, htarget] at hrefused
      obtain rfl : cause' = cause := Except.error.inj hrefused
      exact .inl (target_error_eq_notFound h hname hvalid hinit hpassed htarget)
  | ok target =>
      obtain ⟨⟨-, -, hpasses⟩, -⟩ := (target_eq_ok_iff h hname).1 htarget
      refine .inr
        (isDirectory_of_makeDirectory h hname ⟨hvalid, hadmits.fits, hpasses⟩ ?_ hrefused)
      exact hlast _ (List.mem_singleton_self _)

/-- What making directories gives: they are made exactly if that is admitted, and nothing else
is changed. -/
def Makes (tree : FileTree) (path : Path) (outcome : Option FileError × FileTree) : Prop :=
  (outcome.1 = none ↔ tree.Admits path) ∧ (outcome.1 = none → tree.Opened path outcome.2)

/-- Where a path starts there is a directory. -/
theorem makes_of_start (hpath : path.text = "" ∨ path.text = "/" ∨ path.text = ".")
    (parents : List Path) :
    tree.Makes path (makeFirst (path :: parents) tree) := by
  obtain ⟨text⟩ := path
  have hmake : makeFirst (⟨text⟩ :: parents) tree = (none, tree) := by
    rcases hpath with rfl | rfl | rfl <;> rfl
  have hidle : (text = "" ∨ checkPath ⟨text⟩ = .ok ()) ∧
      ∀ piece ∈ (Path.mk text).pieces, IsIdle piece := by
    rcases hpath with rfl | rfl | rfl
    · exact ⟨.inl rfl, List.forall_mem_singleton.2 (.inl rfl)⟩
    · exact ⟨.inr rfl,
        List.forall_mem_cons.2 ⟨.inl rfl, List.forall_mem_singleton.2 (.inl rfl)⟩⟩
    · exact ⟨.inr rfl, List.forall_mem_singleton.2 (.inr rfl)⟩
  have hground : ∀ place ∈ reached (startOf ⟨text⟩) (Path.mk text).pieces,
      tree.get? place = some .directory := by
    intro place hplace
    rw [(mem_reached_of_idle hidle.2).1 hplace]
    exact get?_of_isGround (isGround_startOf _)
  rw [hmake]
  refine ⟨iff_of_true rfl ⟨hidle.1,
    fun piece hpiece => size_le_of_isIdle (hidle.2 piece hpiece), ?_⟩, fun _ place => ?_⟩
  · intro place hplace content
    rw [hground place hplace]
    simp
  · split
    next hplace => exact hground place hplace
    next => rfl

/-- A directory that is refused may be there. -/
theorem makes_of_refused (hthere : tree.Admits path → tree.isDirectory path = true)
    (cause : FileError) :
    tree.Makes path (tree.unlessThere path cause, tree) := by
  have hnone : tree.unlessThere path cause = none ↔ tree.isDirectory path = true := by
    unfold unlessThere
    split
    next h => exact iff_of_true rfl h
    next h => exact iff_of_false (by simp) h
  have hreached : tree.isDirectory path = true →
      ∀ place ∈ reached (startOf path) path.pieces, tree.get? place = some .directory := by
    intro h
    obtain ⟨hfollows, hplace⟩ := isDirectory_iff.1 h
    exact List.forall_mem_append.2 ⟨hfollows.passes, List.forall_mem_singleton.2 hplace⟩
  refine ⟨hnone.trans ⟨fun h => ?_, hthere⟩, fun h place => ?_⟩
  · obtain ⟨hfollows, -⟩ := isDirectory_iff.1 h
    refine ⟨.inr hfollows.valid, hfollows.fits, fun place hplace content => ?_⟩
    rw [hreached h place hplace]
    simp
  · split
    next hplace => exact hreached (hnone.1 h) place hplace
    next => rfl

/-- The last directory is made where there are directories on the way. -/
theorem makes_of_passes (h : path.pieces = init ++ [name]) (hname : ¬IsIdle name)
    (hpasses : ∀ place ∈ wayTo path, tree.get? place = some .directory) :
    tree.Makes path (match tree.makeDirectory path with
      | .ok tree => (none, tree)
      | .error cause => (tree.unlessThere path cause, tree)) := by
  cases hmake : tree.makeDirectory path with
  | ok tree' =>
      obtain ⟨hfollows, hup, hnone, rfl⟩ := (makeDirectory_eq_ok_iff h hname).1 hmake
      refine ⟨iff_of_true rfl ⟨.inr hfollows.valid, hfollows.fits, ?_⟩, fun _ place => ?_⟩
      · intro place hplace content
        rcases List.mem_append.1 hplace with hplace | hplace
        · rw [hpasses place hplace]
          simp
        · have hplace' : place = placeOf path := List.mem_singleton.1 hplace
          rw [hplace', hnone]
          simp
      · rw [get?_set (isGround_placeOf h hname hup)]
        by_cases hlast : place = placeOf path
        · rw [if_pos hlast, if_pos (mem_reached.2 (.inr hlast))]
        · rw [if_neg hlast]
          split
          next hplace => exact hpasses place ((mem_reached.1 hplace).resolve_right hlast)
          next => rfl
  | error cause =>
      refine makes_of_refused (fun hadmits => ?_) cause
      have hvalid :=
        hadmits.valid.resolve_left (text_ne_empty_of_isTrimmed (.inr ⟨init, name, h, hname⟩))
      refine isDirectory_of_makeDirectory h hname ⟨hvalid, hadmits.fits, hpasses⟩ ?_ hmake
      exact hadmits.clear _ (List.mem_append_right _ (List.mem_singleton_self _))

/-- Directories that are made on the way take the place of nothing else. -/
theorem makes_of_passed {between : FileTree} {outcome : Option FileError × FileTree}
    (hcleared : ∀ place ∈ wayTo path, ∀ content, tree.get? place ≠ some (.file content))
    (hpasses : ∀ place ∈ wayTo path, between.get? place = some .directory)
    (hkept : ∀ place, place ∉ wayTo path → between.get? place = tree.get? place)
    (h : between.Makes path outcome) :
    tree.Makes path outcome := by
  obtain ⟨hadmits, hopened⟩ := h
  refine ⟨hadmits.trans ⟨?_, ?_⟩, fun hnone place => ?_⟩
  · rintro ⟨hvalid, hfits, hclear⟩
    refine ⟨hvalid, hfits, fun place hplace => ?_⟩
    by_cases hway : place ∈ wayTo path
    · exact hcleared place hway
    · exact hkept place hway ▸ hclear place hplace
  · rintro ⟨hvalid, hfits, hclear⟩
    refine ⟨hvalid, hfits, fun place hplace content => ?_⟩
    by_cases hway : place ∈ wayTo path
    · rw [hpasses place hway]
      simp
    · exact hkept place hway ▸ hclear place hplace content
  · rw [hopened hnone place]
    split
    next => rfl
    next hplace => exact hkept place fun hway => hplace (mem_reached.2 (.inl hway))

/-- **A directory is made after those above it.** -/
theorem makes_of_above (h : path.pieces = init ++ [name]) (hname : ¬IsIdle name) {parent : Path}
    {parents : List Path}
    (hreached : ∀ place, place ∈ reached (startOf parent) parent.pieces ↔ place ∈ wayTo path)
    (hfits : (∀ piece ∈ parent.pieces, piece.utf8ByteSize ≤ nameLimit) ↔
      ∀ piece ∈ init, piece.utf8ByteSize ≤ nameLimit)
    (hvalid : checkPath path = .ok () → parent.text = "" ∨ checkPath parent = .ok ())
    (hparents : tree.Makes parent (makeFirst parents tree)) :
    tree.Makes path (makeFirst (path :: parents) tree) := by
  have htext : path.text ≠ "" := text_ne_empty_of_isTrimmed (.inr ⟨init, name, h, hname⟩)
  have hparent : tree.Admits path → tree.Admits parent := by
    intro hadmits
    refine ⟨hvalid (hadmits.valid.resolve_left htext), hfits.2 fun piece hpiece => ?_,
      fun place hplace => ?_⟩
    · exact hadmits.fits piece (h ▸ List.mem_append_left _ hpiece)
    · exact hadmits.clear place (List.mem_append_left _ ((hreached place).1 hplace))
  rw [makeFirst, if_neg (by simpa using htext)]
  cases hmake : tree.makeDirectory path with
  | ok tree' =>
      obtain ⟨hfollows, -⟩ := (makeDirectory_eq_ok_iff h hname).1 hmake
      have hmakes := makes_of_passes h hname hfollows.passes
      rwa [hmake] at hmakes
  | error cause =>
      have hrefused :=
        fun hadmits => notFound_or_isDirectory_of_makeDirectory h hname hadmits hmake
      cases cause with
      | notFound =>
          dsimp only
          generalize makeFirst parents tree = outcome at hparents
          obtain ⟨_ | cause, between⟩ := outcome
          · -- The directory is tried once more, now that those above it are there.
            have hopened := hparents.2 rfl
            have hcleared : ∀ place ∈ wayTo path, ∀ content,
                tree.get? place ≠ some (.file content) :=
              fun place hplace => (hparents.1.1 rfl).clear place ((hreached place).2 hplace)
            have hpasses : ∀ place ∈ wayTo path, between.get? place = some .directory := by
              intro place hplace
              rw [hopened place, if_pos ((hreached place).2 hplace)]
            have hkept : ∀ place, place ∉ wayTo path →
                between.get? place = tree.get? place := by
              intro place hplace
              rw [hopened place, if_neg (mt (hreached place).1 hplace)]
            exact makes_of_passed hcleared hpasses hkept (makes_of_passes h hname hpasses)
          · refine ⟨iff_of_false (by simp) fun hadmits => ?_, fun hnone => by simp at hnone⟩
            have hnone := hparents.1.2 (hparent hadmits)
            simp at hnone
      | _ => exact makes_of_refused (fun hadmits => (hrefused hadmits).resolve_left (by simp)) _

theorem makes_ancestorsWithin {limit : Nat} (h : Settles path limit) :
    tree.Makes path (makeFirst (path.ancestorsWithin limit) tree) := by
  induction limit generalizing path with
  | zero => rcases h with ⟨-, h⟩ | ⟨-, h⟩ <;> exact absurd h (Nat.not_lt_zero _)
  | succ limit ih =>
      rw [Path.ancestorsWithin]
      rcases h with ⟨htext, -⟩ | ⟨hdot | ⟨init, name, hpieces, hname⟩, hlimit⟩
      · exact makes_of_start (htext.imp_right .inl) _
      · exact makes_of_start (.inr (.inr hdot)) _
      · obtain ⟨parent, hparent, hsettles, hreached, hfits, hvalid⟩ :=
          exists_above hpieces hname
        rw [hparent]
        exact makes_of_above hpieces hname hreached hfits hvalid
          (ih (hsettles limit (Nat.le_of_lt_succ hlimit)))

/-- **What making the directories of a path does.** -/
theorem makes_makeDirectories (h : (path.text = "" ∨ path.text = "/") ∨ path.IsTrimmed) :
    tree.Makes path (tree.makeDirectories path) := by
  refine makes_ancestorsWithin ?_
  rcases h with h | h
  · exact .inl ⟨h, Nat.succ_pos _⟩
  · exact .inr ⟨h, Nat.lt_succ_self _⟩

/-- **Where all directories of a path are there, making them changes nothing.** -/
theorem makeDirectories_eq_self (h : (path.text = "" ∨ path.text = "/") ∨ path.IsTrimmed)
    (hadmits : tree.Admits path)
    (hthere : ∀ place ∈ reached (startOf path) path.pieces, tree.get? place = some .directory) :
    tree.makeDirectories path = (none, tree) := by
  obtain ⟨parents, hancestors⟩ : ∃ parents, path.ancestors = path :: parents := ⟨_, rfl⟩
  rw [makeDirectories, hancestors]
  rcases h with htext | hdot | ⟨init, name, hpieces, hname⟩
  · obtain ⟨text⟩ := path
    rcases htext with rfl | rfl <;> rfl
  · obtain ⟨text⟩ := path
    obtain rfl : text = "." := hdot
    rfl
  · have htext := text_ne_empty_of_isTrimmed (.inr ⟨init, name, hpieces, hname⟩)
    rw [reached, List.forall_mem_append, List.forall_mem_singleton] at hthere
    have hfollows : tree.Follows path :=
      ⟨hadmits.valid.resolve_left htext, hadmits.fits, hthere.1⟩
    rw [makeFirst, if_neg (by simpa using htext),
      makeDirectory_eq_exists hpieces hname hfollows hthere.2]
    dsimp only
    rw [unlessThere, if_pos (isDirectory_iff.2 ⟨hfollows, hthere.2⟩)]

end FileTree

end AvroBindings
