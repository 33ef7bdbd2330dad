import AvroBindings.Proofs.Declaration.Arrangement

/-!
# When comments stay comments

Where Python sees the ends of lines in a comment, and which documentation texts it takes for
nothing but comments.

## Main Definitions

* `Python.physicalLines` — the lines of a text as Python tells them apart.
* `Python.AfterReturns` — a property of what follows each carriage return of a text.
* `Python.commentText` — a documentation text as comments.

## Main Statements

* `Python.physicalLines_flatMap` — the physical lines of several lines are those of each.
* `Python.all_physicalLines_iff` — when the physical lines of a line all start alike.
* `Python.all_lines_iff` — what the lines of a text hold behind their carriage returns, in terms
  of the text.
* `Python.commentText_iff` — which texts stay comments.

## Design Notes

A text is cut into comment lines at its line feeds, and a carriage return before one goes with
it.  Every other carriage return stays inside a comment line, where it ends the physical line
unless it stands at the very end, and what follows it is on a physical line of its own.
-/

namespace AvroBindings.Python

/-! ## Physical lines -/

/-- The physical lines of a text: a line feed ends a line, a carriage return does, and a
carriage return with the line feed behind it does so once. -/
def physicalLines : List Char → List (List Char)
  | [] => []
  | '\r' :: '\n' :: text => [] :: physicalLines text
  | c :: text =>
    if c = '\n' ∨ c = '\r' then [] :: physicalLines text
    else
      match physicalLines text with
      | [] => [[c]]
      | line :: lines => (c :: line) :: lines

example : physicalLines "a\rb\r\n\nc".toList = ["a".toList, "b".toList, [], "c".toList] :=
  by decide

/-- A text is a row of pieces without a character, with the character between them. -/
theorem splitInduction {motive : List Char → Prop} (c : Char)
    (last : ∀ piece, c ∉ piece → motive piece)
    (more : ∀ piece rest, c ∉ piece → motive rest → motive (piece ++ c :: rest))
    (text : List Char) : motive text := by
  by_cases h : c ∈ text
  · obtain ⟨piece, rest, rfl, hpiece⟩ := List.eq_append_cons_of_mem h
    exact more piece rest hpiece (splitInduction c last more rest)
  · exact last text h
termination_by text.length
decreasing_by
  subst_vars
  simp only [List.length_append, List.length_cons]
  omega

/-- No character ends a line. -/
def Endless (piece : List Char) : Prop := ∀ c ∈ piece, ¬(c = '\n' ∨ c = '\r')

theorem Endless.feed_notMem {piece : List Char} (h : Endless piece) : '\n' ∉ piece :=
  fun hmem => h _ hmem (.inl rfl)

theorem Endless.return_notMem {piece : List Char} (h : Endless piece) : '\r' ∉ piece :=
  fun hmem => h _ hmem (.inr rfl)

/-- A line without line feeds is a row of pieces, with a carriage return between them and maybe
one at the end. -/
theorem lineInduction {motive : (line : List Char) → '\n' ∉ line → Prop}
    (piece : ∀ piece h, Endless piece → motive piece h)
    (ended : ∀ piece h, Endless piece → motive (piece ++ ['\r']) h)
    (more : ∀ piece rest h (hfeed : '\n' ∉ rest), Endless piece → rest ≠ [] →
      motive rest hfeed → motive (piece ++ '\r' :: rest) h)
    (line : List Char) (h : '\n' ∉ line) : motive line h := by
  have hendless : ∀ {first : List Char}, '\n' ∉ first → '\r' ∉ first → Endless first := by
    rintro first hfeed hreturn c hc (rfl | rfl)
    · exact hfeed hc
    · exact hreturn hc
  induction line using splitInduction '\r' with
  | last first hreturn => exact piece first h (hendless h hreturn)
  | more first rest hreturn ih =>
      obtain ⟨hfeed, hrest⟩ : '\n' ∉ first ∧ '\n' ∉ rest := by simpa [List.mem_append] using h
      by_cases hempty : rest = []
      · subst hempty
        exact ended first h (hendless hfeed hreturn)
      · exact more first rest h hrest (hendless hfeed hreturn) hempty (ih hrest)

theorem physicalLines_append {piece ending : List Char} {lines : List (List Char)}
    (h : Endless piece) (hending : physicalLines ending = [] :: lines) :
    physicalLines (piece ++ ending) = piece :: lines := by
  induction piece with
  | nil => exact hending
  | cons c piece ih =>
      obtain ⟨hc, hpiece⟩ := List.forall_mem_cons.1 h
      have hreturn : c ≠ '\r' := fun heq => hc (.inr heq)
      rw [List.cons_append, physicalLines.eq_3 _ _ (fun _ heq _ => hreturn heq), if_neg hc,
        ih hpiece]

theorem physicalLines_feed {piece : List Char} (h : Endless piece) (text : List Char) :
    physicalLines (piece ++ '\n' :: text) = piece :: physicalLines text := by
  refine physicalLines_append h ?_
  rw [physicalLines.eq_3 _ _ (by simp), if_pos (.inl rfl)]

theorem physicalLines_return_feed {piece : List Char} (h : Endless piece) (text : List Char) :
    physicalLines (piece ++ '\r' :: '\n' :: text) = piece :: physicalLines text :=
  physicalLines_append h rfl

theorem physicalLines_return {piece rest : List Char} (h : Endless piece) (hrest : rest ≠ [])
    (hfeed : '\n' ∉ rest) (text : List Char) :
    physicalLines (piece ++ '\r' :: (rest ++ text)) =
      piece :: physicalLines (rest ++ text) := by
  obtain ⟨c, rest, rfl⟩ := List.exists_cons_of_ne_nil hrest
  refine physicalLines_append h ?_
  rw [physicalLines.eq_3 _ _ (by rintro _ - heq; exact hfeed (by simp [(List.cons.inj heq).1])),
    if_pos (.inr rfl)]

/-- A line feed parts the physical lines of a text. -/
theorem physicalLines_line {line : List Char} (h : '\n' ∉ line) (text : List Char) :
    physicalLines (line ++ '\n' :: text) = physicalLines (line ++ ['\n']) ++
      physicalLines text := by
  induction line, h using lineInduction with
  | piece piece h hpiece =>
      rw [physicalLines_feed hpiece, physicalLines_feed hpiece]
      rfl
  | ended piece h hpiece =>
      simp only [List.append_assoc, List.cons_append, List.nil_append]
      rw [physicalLines_return_feed hpiece, physicalLines_return_feed hpiece]
      rfl
  | more piece rest h hfeed hpiece hrest ih =>
      simp only [List.append_assoc, List.cons_append]
      rw [physicalLines_return hpiece hrest hfeed, physicalLines_return hpiece hrest hfeed, ih]
      rfl

/-- **The physical lines of several lines** are those of each. -/
theorem physicalLines_flatMap {lines : List (List Char)} (h : ∀ line ∈ lines, '\n' ∉ line) :
    physicalLines (lines.flatMap (· ++ ['\n'])) = lines.flatMap fun line =>
      physicalLines (line ++ ['\n']) := by
  induction lines with
  | nil => rfl
  | cons line lines ih =>
      rw [List.forall_mem_cons] at h
      rw [List.flatMap_cons, List.append_assoc, List.singleton_append, physicalLines_line h.1,
        ih h.2, List.flatMap_cons]

/-! ## Carriage returns -/

/-- A property of what follows each carriage return of a text. -/
def AfterReturns (P : List Char → Prop) (text : List Char) : Prop :=
  ∀ after, '\r' :: after <:+ text → P after

variable {P Q : List Char → Prop}

theorem afterReturns_nil : AfterReturns P [] := by
  intro after h
  exact absurd (List.suffix_nil.1 h) (List.cons_ne_nil _ _)

theorem afterReturns_cons {c : Char} {text : List Char} :
    AfterReturns P (c :: text) ↔ (c = '\r' → P text) ∧ AfterReturns P text := by
  constructor
  · intro h
    refine ⟨?_, fun after hafter => h after (hafter.trans (List.suffix_cons _ _))⟩
    rintro rfl
    exact h text List.suffix_rfl
  · rintro ⟨hfirst, hrest⟩ after hafter
    rcases List.suffix_cons_iff.1 hafter with heq | hsuffix
    · obtain ⟨rfl, rfl⟩ := List.cons.inj heq
      exact hfirst rfl
    · exact hrest after hsuffix

theorem afterReturns_append {text more : List Char} :
    AfterReturns P (text ++ more) ↔ AfterReturns (fun after => P (after ++ more)) text ∧
    AfterReturns P more := by
  induction text with
  | nil => simp [afterReturns_nil]
  | cons c text ih => rw [List.cons_append, afterReturns_cons, ih, afterReturns_cons, and_assoc]

theorem afterReturns_of_notMem {text : List Char} (h : '\r' ∉ text) : AfterReturns P text :=
  fun _ hafter => absurd (hafter.subset List.mem_cons_self) h

theorem afterReturns_congr {text : List Char}
    (h : ∀ after, '\r' :: after <:+ text → (P after ↔ Q after)) :
    AfterReturns P text ↔ AfterReturns Q text :=
  forall_congr' fun after => forall_congr' fun hafter => h after hafter

/-! ## The start of a line -/

variable {lead : List Char}

theorem isPrefix_append_cons_iff {c : Char} (h : c ∉ lead) {piece rest : List Char} :
    lead <+: piece ++ c :: rest ↔ lead <+: piece := by
  constructor
  · intro hstart
    rcases List.prefix_or_prefix_of_prefix hstart (List.prefix_append piece _) with
      hpiece | ⟨more, rfl⟩
    · exact hpiece
    · rw [List.prefix_append_right_inj] at hstart
      cases more with
      | nil => exact (List.append_nil piece).symm ▸ List.prefix_rfl
      | cons d more =>
          obtain ⟨rfl, -⟩ := List.cons_prefix_cons.1 hstart
          exact absurd (List.mem_append_right _ List.mem_cons_self) h
  · exact fun hpiece => hpiece.trans (List.prefix_append _ _)

/-- What a line may hold behind a carriage return so that the physical line there starts with a
lead, if there is one. -/
def Resumes (lead after : List Char) : Prop := after = [] ∨ lead <+: after

theorem afterReturns_piece {piece : List Char} (h : Endless piece) {P : List Char → Prop}
    {rest : List Char} :
    AfterReturns P (piece ++ '\r' :: rest) ↔ P rest ∧ AfterReturns P rest := by
  rw [afterReturns_append, afterReturns_cons]
  simp [afterReturns_of_notMem h.return_notMem]

/-- **When the physical lines of a line all start alike.** -/
theorem all_physicalLines_iff (hlead : '\r' ∉ lead) {line : List Char} (h : '\n' ∉ line) :
    (∀ physical ∈ physicalLines (line ++ ['\n']), lead <+: physical) ↔
      lead <+: line ∧ AfterReturns (Resumes lead) line := by
  induction line, h using lineInduction with
  | piece piece h hpiece =>
      rw [physicalLines_feed hpiece, List.forall_mem_cons]
      simp [physicalLines, afterReturns_of_notMem hpiece.return_notMem]
  | ended piece h hpiece =>
      rw [List.append_assoc, List.singleton_append, physicalLines_return_feed hpiece,
        afterReturns_piece hpiece, isPrefix_append_cons_iff hlead, List.forall_mem_cons]
      simp [physicalLines, Resumes, afterReturns_nil]
  | more piece rest h hfeed hpiece hrest ih =>
      rw [List.append_assoc, List.cons_append, physicalLines_return hpiece hrest hfeed,
        List.forall_mem_cons, ih, afterReturns_piece hpiece, isPrefix_append_cons_iff hlead]
      simp [Resumes, hrest]

/-! ## Documentation texts -/

theorem lines_append {piece : List Char} (h : '\n' ∉ piece) (rest : List Char) :
    Text.lines (piece ++ '\n' :: rest) = Text.dropReturn piece :: Text.lines rest := by
  have hpieces : (piece ++ '\n' :: rest).splitOnP (· == '\n') =
      piece :: rest.splitOnP (· == '\n') :=
    List.splitOnP_append_cons_of_forall_mem (fun c hc =>
      beq_eq_false_iff_ne.2 (ne_of_mem_of_not_mem hc h)) '\n' rfl rest
  have hne := List.splitOnP_ne_nil (· == '\n') rest
  rw [Text.lines, Text.lines, hpieces, List.dropLast_cons_of_ne_nil hne,
    List.getLast?_cons_of_ne_nil hne]
  rfl

theorem lines_of_notMem {piece : List Char} (h : '\n' ∉ piece) :
    Text.lines piece = if piece.isEmpty then [] else [piece] := by
  have hpieces : piece.splitOnP (· == '\n') = [piece] :=
    List.splitOnP_eq_singleton fun c hc => beq_eq_false_iff_ne.2 (ne_of_mem_of_not_mem hc h)
  rw [Text.lines, hpieces]
  cases piece <;> rfl

/-- What a text may hold behind a carriage return: nothing, the end of its line, or the start of
a comment. -/
def Continues (lead after : List Char) : Prop :=
  after = [] ∨ ['\n'] <+: after ∨ ['\r', '\n'] <+: after ∨ lead <+: after

theorem continues_iff {after : List Char} (h : '\n' ∉ after) :
    Continues lead after ↔ Resumes lead after := by
  have hnone : ∀ {ending : List Char}, '\n' ∈ ending → ¬ending <+: after :=
    fun hmem hstart => h (hstart.subset hmem)
  simp [Continues, Resumes, hnone]

theorem continues_append_iff (hlead : '\n' ∉ lead) {after : List Char} (h : '\n' ∉ after)
    (rest : List Char) :
    Continues lead (after ++ '\n' :: rest) ↔ after = [] ∨ after = ['\r'] ∨ lead <+: after := by
  rw [Continues, isPrefix_append_cons_iff hlead]
  cases after with
  | nil => simp
  | cons c more =>
      have hc : c ≠ '\n' := fun heq => h (heq ▸ List.mem_cons_self)
      cases more with
      | nil => simp [List.cons_prefix_cons, hc.symm, eq_comm]
      | cons d more =>
          have hd : d ≠ '\n' := fun heq => h (heq ▸ List.mem_cons_of_mem _ List.mem_cons_self)
          simp [List.cons_prefix_cons, hc.symm, hd.symm]

theorem afterReturns_dropReturn (hlead : '\r' ∉ lead) (piece : List Char) :
    AfterReturns (Resumes lead) (Text.dropReturn piece) ↔
      AfterReturns (fun after => after = [] ∨ after = ['\r'] ∨ lead <+: after) piece := by
  unfold Text.dropReturn
  split
  -- the carriage return that goes with the line feed is the one that `['\r']` allows for
  next hlast =>
    obtain ⟨line, rfl⟩ := List.getLast?_eq_some_iff.1 hlast
    rw [List.dropLast_concat, afterReturns_append, afterReturns_cons]
    have hresumes : Resumes lead = fun after => after = [] ∨ lead <+: after := rfl
    simp [hresumes, afterReturns_nil, isPrefix_append_cons_iff hlead]
  next hlast =>
    refine afterReturns_congr fun after hafter => ?_
    have hne : after ≠ ['\r'] := by
      rintro rfl
      obtain ⟨before, rfl⟩ := hafter
      exact hlast (by simp)
    simp [Resumes, hne]

/-- **What the lines of a text hold behind their carriage returns**, in terms of the text. -/
theorem all_lines_iff (hfeed : '\n' ∉ lead) (hreturn : '\r' ∉ lead) (text : List Char) :
    (∀ line ∈ Text.lines text, AfterReturns (Resumes lead) line) ↔
      AfterReturns (Continues lead) text := by
  induction text using splitInduction '\n' with
  | last piece hpiece =>
      have hcongr : AfterReturns (Continues lead) piece ↔ AfterReturns (Resumes lead) piece :=
        afterReturns_congr fun after hafter => continues_iff fun hmem =>
          hpiece (hafter.subset (List.mem_cons_of_mem _ hmem))
      rw [lines_of_notMem hpiece, hcongr]
      cases piece with
      | nil => simp [afterReturns_nil]
      | cons c piece => simp
  | more piece rest hpiece ih =>
      have hcongr : AfterReturns (fun after => Continues lead (after ++ '\n' :: rest)) piece ↔
          AfterReturns (fun after => after = [] ∨ after = ['\r'] ∨ lead <+: after) piece :=
        afterReturns_congr fun after hafter => continues_append_iff hfeed (fun hmem =>
          hpiece (hafter.subset (List.mem_cons_of_mem _ hmem))) rest
      rw [lines_append hpiece, List.forall_mem_cons, ih, afterReturns_dropReturn hreturn,
        afterReturns_append, afterReturns_cons, hcongr]
      simp

theorem feed_notMem_of_mem_lines {text line : List Char} (h : line ∈ Text.lines text) :
    '\n' ∉ line := by
  induction text using splitInduction '\n' with
  | last piece hpiece =>
      rw [lines_of_notMem hpiece] at h
      cases piece with
      | nil => exact absurd h List.not_mem_nil
      | cons c piece =>
          obtain rfl := List.mem_singleton.1 h
          exact hpiece
  | more piece rest hpiece ih =>
      rw [lines_append hpiece] at h
      rcases List.mem_cons.1 h with rfl | hrest
      · intro hmem
        unfold Text.dropReturn at hmem
        split at hmem
        · exact hpiece (List.dropLast_subset _ hmem)
        · exact hpiece hmem
      · exact ih hrest

/-! ## Comments -/

/-- A documentation text as comments. -/
def commentText (indent doc : String) : List Char :=
  (String.join ((commentLines indent doc).map (· ++ "\n"))).toList

theorem toList_commentLine (indent : String) (line : List Char) :
    (commentLine indent line).toList =
      indent.toList ++ '#' :: if line.isEmpty then [] else ' ' :: line := by
  unfold commentLine
  split
  next => rw [String.toList_append]; rfl
  next => simp

theorem commentText_eq (indent doc : String) :
    commentText indent doc =
      ((Text.lines doc.toList).map fun line => (commentLine indent line).toList).flatMap
        (· ++ ['\n']) := by
  simp [commentText, commentLines, String.toList_join, List.flatMap_map]

theorem feed_notMem_commentLine {indent : String} (hindent : Endless indent.toList)
    {line : List Char} (h : '\n' ∉ line) : '\n' ∉ (commentLine indent line).toList := by
  rw [toList_commentLine]
  split
  · simpa using hindent.feed_notMem
  · simpa [h] using hindent.feed_notMem

/-- The physical lines of a comment line. -/
theorem all_physicalLines_commentLine_iff {indent : String} (hindent : Endless indent.toList)
    {line : List Char} (h : '\n' ∉ line) :
    (∀ physical ∈ physicalLines ((commentLine indent line).toList ++ ['\n']),
      indent.toList ++ ['#'] <+: physical) ↔
      AfterReturns (Resumes (indent.toList ++ ['#'])) line := by
  have hlead : '\r' ∉ indent.toList ++ ['#'] := by simpa using hindent.return_notMem
  have hstart : indent.toList ++ ['#'] <+: (commentLine indent line).toList := by
    rw [toList_commentLine, List.prefix_append_right_inj, List.cons_prefix_cons]
    exact ⟨rfl, List.nil_prefix⟩
  rw [all_physicalLines_iff hlead (feed_notMem_commentLine hindent h), and_iff_right hstart,
    toList_commentLine, afterReturns_append, afterReturns_cons,
    and_iff_right (afterReturns_of_notMem hindent.return_notMem)]
  cases line with
  | nil => simp
  | cons c line => simp [afterReturns_cons (c := ' ')]

/-- The physical lines of a documentation text as comments. -/
theorem all_physicalLines_commentText_iff {indent : String} (hindent : Endless indent.toList)
    (doc : String) :
    (∀ physical ∈ physicalLines (commentText indent doc), indent.toList ++ ['#'] <+: physical) ↔
      AfterReturns (Continues (indent.toList ++ ['#'])) doc.toList := by
  have hfeed : '\n' ∉ indent.toList ++ ['#'] := by simpa using hindent.feed_notMem
  have hreturn : '\r' ∉ indent.toList ++ ['#'] := by simpa using hindent.return_notMem
  have hlines :
      ∀ line ∈ (Text.lines doc.toList).map fun line => (commentLine indent line).toList,
        '\n' ∉ line := by
    rw [List.forall_mem_map]
    exact fun line hline => feed_notMem_commentLine hindent (feed_notMem_of_mem_lines hline)
  calc
    _ ↔ ∀ line ∈ Text.lines doc.toList,
      ∀ physical ∈ physicalLines ((commentLine indent line).toList ++ ['\n']),
        indent.toList ++ ['#'] <+: physical := by
      rw [commentText_eq, physicalLines_flatMap hlines, List.flatMap_map,
        List.forall_mem_flatMap]
    _ ↔ ∀ line ∈ Text.lines doc.toList, AfterReturns (Resumes (indent.toList ++ ['#'])) line :=
      forall₂_congr fun line hline =>
        all_physicalLines_commentLine_iff hindent (feed_notMem_of_mem_lines hline)
    _ ↔ AfterReturns (Continues (indent.toList ++ ['#'])) doc.toList :=
      all_lines_iff hfeed hreturn doc.toList

/-- **Which texts stay comments.**  Every physical line of the comments of a text starts with
the indent and a `#` exactly if behind each carriage return the text is at its end, ends its
line, or itself goes on with the indent and a `#`. -/
theorem commentText_iff (spaces : Nat) (doc : String) :
    (∀ physical ∈ physicalLines (commentText (String.ofList (List.replicate spaces ' ')) doc),
        List.replicate spaces ' ' ++ ['#'] <+: physical) ↔
      AfterReturns (Continues (List.replicate spaces ' ' ++ ['#'])) doc.toList := by
  have hindent : Endless (String.ofList (List.replicate spaces ' ')).toList := by
    rw [String.toList_ofList]
    intro c hc
    rw [List.eq_of_mem_replicate hc]
    decide
  have hiff := all_physicalLines_commentText_iff hindent doc
  rwa [String.toList_ofList] at hiff

/-- A record whose field has documentation with a carriage return in the middle. -/
def steppedRecord : Record :=
  ⟨"a.Step", [⟨"at", .primitive .integer, none, some "first\rimport os"⟩], none⟩

/-- Behind the carriage return a physical line starts that is no comment. -/
theorem commentText_steppedRecord :
    steppedRecord.source .dataclass =
        "from dataclasses import dataclass\n\n\n@dataclass\nclass Step:\n" ++
          String.ofList (commentText "    " "first\rimport os") ++ "    at: int\n" ∧
      physicalLines (commentText "    " "first\rimport os") =
        ["    # first".toList, "import os".toList] ∧
      ¬∀ physical ∈
        physicalLines (commentText (String.ofList (List.replicate 4 ' ')) "first\rimport os"),
        List.replicate 4 ' ' ++ ['#'] <+: physical := by
  have hlines : physicalLines (commentText "    " "first\rimport os") =
      ["    # first".toList, "import os".toList] := by
    decide +kernel
  refine ⟨by decide +kernel, hlines, fun hall => ?_⟩
  have hmem : "import os".toList ∈ physicalLines (commentText "    " "first\rimport os") := by
    rw [hlines]
    exact List.mem_cons_of_mem _ (List.mem_singleton_self _)
  exact absurd (hall _ hmem) (by decide)

end AvroBindings.Python
