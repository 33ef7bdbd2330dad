import AvroBindings.Proofs.Name

/-!
# Stripped names

What a leading text leaves of a full name: which names become one, whether a full name is left,
and where the file, the module and the package of what is left lie.

## Main Statements

* `Name.stripPrefix_eq_iff` — which two names become one.
* `Name.isFull_stripPrefix` — a full name without a leading text that ends in a dot is full.
* `Name.IsTame.stripPrefix` — without any other leading text it has the same characters still.
* `Name.stripPrefix_cases` — what is left of a full name has no gap, or is a full name behind a
  dot.
* `Name.stripped_filePath` — where the file of a stripped name lies, and whether its module and
  its package lead there.

## Design Notes

A leading text may end anywhere in a name.  Inside a segment it leaves a first segment that is
shorter; behind a dot it leaves whole segments.  Before a dot it leaves a name that starts with
an empty segment.  The path of the file leaves that segment out.  The module keeps it, so its
text is that of a relative import, and of the segments of the namespace only the first is asked
for the package, so there is none.
-/

namespace AvroBindings.Name

variable {lead name other : String}

/-! ## Names that become one -/

theorem stripPrefix_empty (name : String) : stripPrefix "" name = name := String.ofList_toList

theorem stripPrefix_append (lead name : String) : stripPrefix lead (lead ++ name) = name := by
  have hstart : lead.toList.isPrefixOf? (lead ++ name).toList = some name.toList :=
    List.isPrefixOf?_eq_some_iff_append_eq.2 String.toList_append.symm
  rw [stripPrefix, hstart]
  exact String.ofList_toList

theorem stripPrefix_of_not_prefix (h : ¬lead.toList <+: name.toList) :
    stripPrefix lead name = name := by
  unfold stripPrefix
  split
  next rest hrest => exact absurd ⟨rest, List.isPrefixOf?_eq_some_iff_append_eq.1 hrest⟩ h
  next => rfl

/-- A name starts with the leading text, or is left as it is. -/
theorem eq_append_or_not_prefix (lead name : String) :
    name = lead ++ stripPrefix lead name ∨ ¬lead.toList <+: name.toList ∧
    stripPrefix lead name = name := by
  by_cases hstart : lead.toList <+: name.toList
  · obtain ⟨rest, hrest⟩ := hstart
    obtain rfl : name = lead ++ String.ofList rest := by
      rw [← String.toList_inj, String.toList_append, String.toList_ofList, hrest]
    rw [stripPrefix_append]
    exact .inl rfl
  · exact .inr ⟨hstart, stripPrefix_of_not_prefix hstart⟩

/-- **Two names become one** exactly if one of them is the other with the leading text in front,
and the other does not start with it. -/
theorem stripPrefix_eq_iff :
    stripPrefix lead name = stripPrefix lead other ↔
      name = other ∨ name = lead ++ other ∧ ¬lead.toList <+: other.toList ∨
        other = lead ++ name ∧ ¬lead.toList <+: name.toList := by
  constructor
  · intro heq
    rcases eq_append_or_not_prefix lead name with hname | ⟨hname, hkept⟩
    · rcases eq_append_or_not_prefix lead other with hother | ⟨hother, hkept'⟩
      · exact .inl (by rw [hname, hother, heq])
      · exact .inr (.inl ⟨by rw [← hkept', ← heq, ← hname], hother⟩)
    · rcases eq_append_or_not_prefix lead other with hother | ⟨hother, hkept'⟩
      · exact .inr (.inr ⟨by rw [← hkept, heq, ← hother], hname⟩)
      · exact .inl (by rw [← hkept, heq, hkept'])
  · rintro (rfl | ⟨rfl, hother⟩ | ⟨rfl, hname⟩)
    · rfl
    · rw [stripPrefix_append, stripPrefix_of_not_prefix hother]
    · rw [stripPrefix_append, stripPrefix_of_not_prefix hname]

/-! ## What is left of a name -/

/-- What is left without a leading text has no other characters. -/
theorem IsTame.stripPrefix (h : IsTame name) (lead : String) :
    IsTame (stripPrefix lead name) := by
  rcases eq_append_or_not_prefix lead name with hname | ⟨-, hkept⟩
  · intro c hc
    refine h c ?_
    rw [hname, String.toList_append]
    exact List.mem_append_right _ hc
  · rwa [hkept]

/-- **A full name without a leading text is full** if the leading text ends in a dot. -/
theorem isFull_stripPrefix (h : isFull name = true)
    (hlead : lead = "" ∨ lead.toList.getLast? = some '.') :
    isFull (stripPrefix lead name) = true := by
  rcases hlead with rfl | hlead
  · rwa [stripPrefix_empty]
  rcases eq_append_or_not_prefix lead name with hname | ⟨-, hkept⟩
  · obtain ⟨before, hbefore⟩ := List.getLast?_eq_some_iff.1 hlead
    obtain rfl : lead = String.ofList before ++ "." := by
      rw [← String.toList_inj, hbefore]
      simp
    rw [hname, isFull_dot_iff] at h
    exact h.2
  · rwa [hkept]

/-- A text with a dot is what stands before its first dot, and what stands behind it. -/
theorem exists_of_isDotted (h : isDotted name = true) :
    ∃ first rest, name = first ++ "." ++ rest ∧ '.' ∉ first.toList := by
  obtain ⟨c, hc, hdot⟩ := List.any_eq_true.1 h
  obtain rfl := eq_of_beq hdot
  obtain ⟨first, rest, hsplit, hfirst⟩ := List.eq_append_cons_of_mem hc
  refine ⟨String.ofList first, String.ofList rest, ?_, by rwa [String.toList_ofList]⟩
  rw [← String.toList_inj, hsplit]
  simp

theorem segments_of_notMem (h : '.' ∉ name.toList) : segments name = [name.toList] :=
  List.splitOnP_eq_singleton fun _ hc => beq_false_of_ne fun hdot => h (hdot ▸ hc)

theorem segments_of_not_isDotted (h : isDotted name = false) :
    segments name = [name.toList] := by
  refine segments_of_notMem fun hdot => ?_
  rw [isDotted, List.any_eq_false] at h
  exact h _ hdot rfl

/-- **What is left of a full name has no gap, or is a full name behind a dot.** -/
theorem stripPrefix_cases (h : isFull name = true) (lead : String) :
    IsGapless (stripPrefix lead name) ∨
      ∃ rest, name = lead ++ "." ++ rest ∧ isFull rest = true ∧
      stripPrefix lead name = "." ++ rest := by
  rcases eq_append_or_not_prefix lead name with hname | ⟨-, hkept⟩
  · generalize stripPrefix lead name = left at hname ⊢
    subst hname
    cases hdotted : isDotted left with
    | false => exact .inl (isGapless_of_ne_nil (by simp [segments_of_not_isDotted hdotted]))
    | true =>
        obtain ⟨first, rest, rfl, hfirst⟩ := exists_of_isDotted hdotted
        rw [← String.append_assoc, ← String.append_assoc, isFull_dot_iff] at h
        -- The leading text ends right before a dot, or inside a segment that keeps some of its
        -- characters.
        rcases eq_or_ne first "" with rfl | hne
        · exact .inr ⟨rest, by rw [String.empty_append, String.append_assoc], h.2,
            by rw [String.empty_append]⟩
        · refine .inl (isGapless_of_ne_nil fun piece hpiece => ?_)
          have hmem := List.dropLast_subset _ hpiece
          rw [segments_dot, segments_of_notMem hfirst, List.singleton_append, List.mem_cons]
            at hmem
          rcases hmem with rfl | hmem
          · exact mt String.toList_eq_nil_iff.1 hne
          · exact (isPart_of_mem_segments h.2 hmem).1
  · rw [hkept]
    exact .inl (isGapless_of_isFull h)

/-! ## Names behind a dot -/

theorem segments_cons_dot (name : String) : segments ("." ++ name) = [] :: segments name := by
  rw [← String.empty_append (s := "."), segments_dot]
  rfl

theorem dropLast_segments_cons_dot (name : String) :
    (segments ("." ++ name)).dropLast = [] :: (segments name).dropLast := by
  rw [segments_cons_dot, List.dropLast_cons_of_ne_nil (segments_ne_nil name)]

theorem packages_cons_dot (name : String) : packages ("." ++ name) = packages name := by
  rw [packages_eq_filter, packages_eq_filter, dropLast_segments_cons_dot]
  rfl

theorem fileStem_cons_dot (name : String) : fileStem ("." ++ name) = fileStem name := by
  have hlast : last ("." ++ name) = last name := by
    rw [← String.toList_inj, toList_last, toList_last]
    simp only [segments_cons_dot]
    rw [List.getLast_cons (segments_ne_nil name)]
  rw [fileStem, hlast, fileStem]

/-- The dot in front of a name is left out of the path of its file. -/
theorem filePath_cons_dot (root : Path) (extension name : String) :
    filePath root extension ("." ++ name) = filePath root extension name := by
  rw [filePath, packages_cons_dot, fileStem_cons_dot, filePath]

section Dotted

variable (h : isDotted name = true)

include h

theorem dropLast_segments_ne_nil : (segments name).dropLast ≠ [] := by
  obtain ⟨first, rest, rfl, hfirst⟩ := exists_of_isDotted h
  rw [segments_dot, segments_of_notMem hfirst, List.singleton_append,
    List.dropLast_cons_of_ne_nil (segments_ne_nil rest)]
  exact List.cons_ne_nil _ _

/-- A name behind a dot keeps the dot in front of its namespace. -/
theorem space_cons_dot : space ("." ++ name) = "." ++ space name := by
  rw [← String.toList_inj, String.toList_append, toList_space, toList_space,
    dropLast_segments_cons_dot, List.intercalate_cons_of_ne_nil (dropLast_segments_ne_nil h)]
  rfl

/-- **The dot in front of a name stands in front of its module.** -/
theorem modulePath_cons_dot (hfull : isFull name = true) :
    modulePath ("." ++ name) = "." ++ modulePath name := by
  have hpackages : packages name ≠ [] := by
    rw [packages_eq hfull]
    exact mt List.map_eq_nil_iff.1 (dropLast_segments_ne_nil h)
  have hspace :=
    mt ((isGapless_of_isFull hfull).space_isEmpty_iff (isTame_of_isFull hfull)).1 hpackages
  have hspace' : ¬("." ++ space name).isEmpty = true := by
    rw [String.isEmpty_iff, String.append_eq_empty_iff]
    exact fun hempty => absurd hempty.1 (by decide)
  rw [modulePath, space_cons_dot h, if_neg hspace', modulePath, if_neg hspace,
    fileStem_cons_dot]
  simp only [String.append_assoc]

/-- **A name behind a dot has no package**, whatever its namespace. -/
theorem packageRoot?_cons_dot : packageRoot? ("." ++ name) = none := by
  rw [packageRoot?, space_cons_dot h, segments_cons_dot]
  rfl

end Dotted

/-! ## Files of stripped names -/

/-- A name without a gap has its file where its module is looked for, below the directory of its
package if it has one and in the root itself if not. -/
theorem IsGapless.leads (h : IsGapless name) (htame : IsTame name) (root : Path) :
    ∃ names, root.Leads names (filePath root "py" name) ∧
      slashed (modulePath name) ++ ".py" = "/".intercalate names ∧
      packageRoot? name = names.dropLast.head? := by
  refine ⟨_, leads_filePath root htame (by decide), ?_, ?_⟩
  · rw [← h.slashed_modulePath htame, String.append_assoc]
    rfl
  · rw [h.packageRoot?_eq htame, fileNames, List.dropLast_concat]

/-- A single segment behind a dot leaves no gap: it has no namespace. -/
theorem isGapless_cons_dot (h : isDotted name = false) : IsGapless ("." ++ name) := by
  rw [IsGapless, packages_eq_filter, ← String.toList_inj, toList_space,
    dropLast_segments_cons_dot, segments_of_not_isDotted h]
  rfl

/-- A full name behind a dot has its file below a directory, where the module of the full name
is looked for and its package is; but its own module has the dot in front, and it has no package
itself. -/
theorem leads_cons_dot (hfull : isFull name = true) (h : isDotted name = true) (root : Path) :
    ∃ names, root.Leads names (filePath root "py" ("." ++ name)) ∧
      slashed (modulePath name) ++ ".py" = "/".intercalate names ∧
      packageRoot? name = names.dropLast.head? ∧
      names.dropLast ≠ [] ∧ modulePath ("." ++ name) = "." ++ modulePath name ∧
      packageRoot? ("." ++ name) = none := by
  have htame := isTame_of_isFull hfull
  obtain ⟨names, hleads, hmodule, hpackage⟩ := (isGapless_of_isFull hfull).leads htame root
  have hnames : names = fileNames "py" name :=
    hleads.unique (leads_filePath root htame (by decide))
  have hbelow : names.dropLast ≠ [] := by
    rw [hnames, fileNames, List.dropLast_concat, packages_eq hfull]
    exact mt List.map_eq_nil_iff.1 (dropLast_segments_ne_nil h)
  refine ⟨names, ?_, hmodule, hpackage, hbelow, modulePath_cons_dot h hfull,
    packageRoot?_cons_dot h⟩
  rwa [filePath_cons_dot]

/-- **Where the file of a stripped name lies.**  Unless the leading text ends right before a dot
that is not the last one of the name, the file lies at the path of the module of what is left,
and the package of what is left is the first directory on the way there; there is none if the
file lies in the root.  If the leading text does end so, what is left is a full name behind a
dot.  The file lies where that full name has its file, which is at the path of the module of the
full name and below the directory of its package.  But the module of what is left has the dot in
front, and what is left has no package although there is a directory on the way. -/
theorem stripped_filePath {full : String} (hfull : isFull full = true) (lead : String)
    (root : Path) :
    ∃ names, root.Leads names (filePath root "py" (stripPrefix lead full)) ∧
      ((∀ rest, full = lead ++ "." ++ rest → isDotted rest = false) →
        slashed (modulePath (stripPrefix lead full)) ++ ".py" = "/".intercalate names ∧
        filePath root "py" (stripPrefix lead full) =
          root.join (slashed (modulePath (stripPrefix lead full)) ++ ".py") ∧
        packageRoot? (stripPrefix lead full) = names.dropLast.head?) ∧
      ∀ rest, full = lead ++ "." ++ rest → isDotted rest = true →
        isFull rest = true ∧ stripPrefix lead full = "." ++ rest ∧
        filePath root "py" (stripPrefix lead full) = filePath root "py" rest ∧
        slashed (modulePath rest) ++ ".py" = "/".intercalate names ∧
        packageRoot? rest = names.dropLast.head? ∧ names.dropLast ≠ [] ∧
        modulePath (stripPrefix lead full) = "." ++ modulePath rest ∧
        packageRoot? (stripPrefix lead full) = none := by
  have hcut : ∀ rest, full = lead ++ "." ++ rest → isFull rest = true ∧
      stripPrefix lead full = "." ++ rest := by
    rintro rest rfl
    exact ⟨(isFull_dot_iff.1 hfull).2, by rw [String.append_assoc, stripPrefix_append]⟩
  by_cases hinner : ∃ rest, full = lead ++ "." ++ rest ∧ isDotted rest = true
  · obtain ⟨rest, hrest, hdotted⟩ := hinner
    obtain ⟨hfull', hleft⟩ := hcut rest hrest
    obtain ⟨names, hleads, hbehind⟩ := leads_cons_dot hfull' hdotted root
    rw [hleft]
    refine ⟨names, hleads, fun hnone => ?_, fun rest' hrest' _ => ?_⟩
    · exact absurd hdotted (by rw [hnone rest hrest]; decide)
    · obtain rfl : rest' = rest := by
        rw [hrest'] at hrest
        simpa using hrest
      exact ⟨hfull', rfl, filePath_cons_dot root "py" _, hbehind⟩
  · have hgapless : IsGapless (stripPrefix lead full) := by
      rcases stripPrefix_cases hfull lead with hgapless | ⟨rest, hrest, -, hleft⟩
      · exact hgapless
      · rw [hleft]
        exact isGapless_cons_dot (eq_false_of_ne_true fun hdotted =>
          hinner ⟨rest, hrest, hdotted⟩)
    obtain ⟨names, hleads, hmodule, hpackage⟩ :=
      hgapless.leads ((isTame_of_isFull hfull).stripPrefix lead) root
    refine ⟨names, hleads, fun _ => ⟨hmodule, ?_, hpackage⟩, fun rest hrest hdotted => ?_⟩
    · rw [hmodule]
      exact hleads.path_eq
    · exact absurd ⟨rest, hrest, hdotted⟩ hinner

/-- Without its first segment and the dot behind that, the name of an item of an order has its
file where the module of what is left is looked for; without the segment alone, what is left has
the same file. -/
theorem stripped_filePath_item :
    isFull "shop.order.Item" = true ∧
      (∃ names,
        Path.Leads ⟨"out"⟩ names
          (filePath ⟨"out"⟩ "py" (stripPrefix "shop." "shop.order.Item")) ∧
        slashed (modulePath (stripPrefix "shop." "shop.order.Item")) ++ ".py" =
          "/".intercalate names ∧
        packageRoot? (stripPrefix "shop." "shop.order.Item") = names.dropLast.head?) ∧
      filePath ⟨"out"⟩ "py" (stripPrefix "shop" "shop.order.Item") =
        filePath ⟨"out"⟩ "py" "order.Item" ∧
      modulePath (stripPrefix "shop" "shop.order.Item") = "." ++ modulePath "order.Item" := by
  have hfull : isFull "shop.order.Item" = true := by decide
  obtain ⟨names, hleads, hwhole, -⟩ := stripped_filePath hfull "shop." ⟨"out"⟩
  obtain ⟨_, -, -, hcut⟩ := stripped_filePath hfull "shop" ⟨"out"⟩
  have hbehind : ∀ rest, "shop.order.Item" = "shop." ++ "." ++ rest →
      isDotted rest = false := by
    intro rest hrest
    have hchars := congrArg String.toList hrest
    simp at hchars
  obtain ⟨hmodule, -, hpackage⟩ := hwhole hbehind
  obtain ⟨-, -, hpath, -, -, -, hdot, -⟩ := hcut "order.Item" (by decide) (by decide)
  exact ⟨hfull, ⟨names, hleads, hmodule, hpackage⟩, hpath, hdot⟩

/-- Without the text before a dot that is not its last, the name of a record has its file below
a directory, but a module with a dot in front, which leads to no such file, and no package. -/
theorem stripped_filePath_record :
    isFull "p.q.R" = true ∧ stripPrefix "p" "p.q.R" = ".q.R" ∧
      filePath ⟨"out"⟩ "py" ".q.R" = ⟨"out/q/r.py"⟩ ∧ modulePath ".q.R" = ".q.r" ∧
      Path.join ⟨"out"⟩ (slashed (modulePath ".q.R") ++ ".py") ≠ ⟨"out/q/r.py"⟩ ∧
      packageRoot? ".q.R" = none := by
  decide +kernel

end AvroBindings.Name
