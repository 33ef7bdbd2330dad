import AvroBindings.Proofs.Declaration.Literal

/-!
# What docstrings denote

A documentation text between triple quotes is a string of Python that ends at the closing quotes
and denotes the text.

## Main Definitions

* `Python.undo?` — the two escapes of a docstring undone.
* `Python.Fits` — when a run of quotes may go on as it began.

## Main Statements

* `Python.body?_escapeDoc` — an escaped text holds no quotes that would end the string.
* `Python.undo?_escapeDoc` — its escapes undone, it is the text.
* `Python.denoted?_of_undo?` — undoing the two escapes is how Python reads them.
* `Record.docstring_denotes` — the docstring in the source of a record.

## Design Notes

Whether the quotes of a run are escaped is decided at the first of them and then holds for the
whole run.  Of a run that is not escaped something is left behind every quote: at most one more
quote, and then another character.  So three quotes never stand together, neither inside the
text nor with those that end the string.
-/

namespace AvroBindings

namespace Python

/-! ## Undoing escapes -/

/-- A text with the escapes of backslashes and of quotes undone.  Nothing else may follow a
backslash. -/
def undo? : List Char → Option (List Char)
  | [] => some []
  | '\\' :: '\\' :: rest => (undo? rest).map ('\\' :: ·)
  | '\\' :: '"' :: rest => (undo? rest).map ('"' :: ·)
  | '\\' :: _ => none
  | c :: rest => (undo? rest).map (c :: ·)

theorem undo?_cons {c : Char} (h : c ≠ '\\') (rest : List Char) :
    undo? (c :: rest) = (undo? rest).map (c :: ·) :=
  undo?.eq_5 c rest (fun _ hc _ => h hc) (fun _ hc _ => h hc) h

/-- What undoing the two escapes gives is what Python reads. -/
theorem denoted?_of_undo? {body text : List Char} (h : undo? body = some text) :
    denoted? body = some text := by
  fun_induction undo? body generalizing text with
  | case1 => rwa [denoted?]
  | case2 rest ih =>
      obtain ⟨text, hrest, rfl⟩ := Option.map_eq_some_iff.1 h
      rw [denoted?_escape (escape?_letter rfl rest), ih hrest]
      rfl
  | case3 rest ih =>
      obtain ⟨text, hrest, rfl⟩ := Option.map_eq_some_iff.1 h
      rw [denoted?_escape (escape?_letter rfl rest), ih hrest]
      rfl
  | case4 => contradiction
  | case5 c rest _ _ hescape ih =>
      obtain ⟨text, hrest, rfl⟩ := Option.map_eq_some_iff.1 h
      rw [denoted?_cons hescape, ih hrest]
      rfl

/-! ## Runs of quotes -/

/-- A run of quotes is left as it is exactly if it has one or two and another character
follows. -/
theorem quotesEscaped_eq_false_iff {rest : List Char} :
    quotesEscaped ('"' :: rest) = false ↔
      ∃ c more, c ≠ '"' ∧ (rest = c :: more ∨ rest = '"' :: c :: more) := by
  cases rest with
  | nil => simp [quotesEscaped]
  | cons first rest =>
      by_cases hfirst : first = '"'
      · subst hfirst
        cases rest with
        | nil => simp [quotesEscaped]
        | cons second rest =>
            by_cases hsecond : second = '"'
            · subst hsecond
              refine iff_of_false (by simp [quotesEscaped]) ?_
              rintro ⟨c, more, hc, hrest | hrest⟩
              · exact hc (List.cons.inj hrest).1.symm
              · exact hc (List.cons.inj (List.cons.inj hrest).2).1.symm
            · exact iff_of_true (by simp [quotesEscaped, hsecond])
                ⟨second, rest, hsecond, .inr rfl⟩
      · simp [quotesEscaped, hfirst]

/-- A run of quotes that began without escapes may go on without. -/
def Fits (run : Option Bool) (text : List Char) : Prop :=
  run = some false → text.head? = some '"' → quotesEscaped text = false

theorem fits_none (text : List Char) : Fits none text := nofun

theorem fits_escaped (text : List Char) : Fits (some true) text := nofun

theorem Fits.rest {rest : List Char} (h : quotesEscaped ('"' :: rest) = false) :
    Fits (some false) rest := by
  intro _ hhead
  obtain ⟨c, more, hc, rfl | rfl⟩ := quotesEscaped_eq_false_iff.1 h
  · exact absurd (Option.some.inj hhead) hc
  · exact quotesEscaped_eq_false_iff.2 ⟨c, more, hc, .inl rfl⟩

/-- A quote that is left as it is belongs to a run that may be. -/
theorem Fits.getD_eq_false {run : Option Bool} {rest : List Char} (h : Fits run ('"' :: rest))
    (hrun : run.getD (quotesEscaped ('"' :: rest)) = false) :
    quotesEscaped ('"' :: rest) = false := by
  cases run with
  | none => exact hrun
  | some escaped =>
      obtain rfl : escaped = false := hrun
      exact h rfl rfl

/-! ## Escaped texts -/

theorem escapeDoc_quote (run : Option Bool) (rest : List Char) :
    escapeDoc run ('"' :: rest) =
      if run.getD (quotesEscaped ('"' :: rest)) then '\\' :: '"' :: escapeDoc (some true) rest
      else '"' :: escapeDoc (some false) rest := by
  rw [escapeDoc, if_pos rfl]
  cases run.getD (quotesEscaped ('"' :: rest)) <;> rfl

theorem escapeDoc_backslash (run : Option Bool) (rest : List Char) :
    escapeDoc run ('\\' :: rest) = '\\' :: '\\' :: escapeDoc none rest := rfl

theorem escapeDoc_cons {c : Char} (hquote : c ≠ '"') (hescape : c ≠ '\\') (run : Option Bool)
    (rest : List Char) :
    escapeDoc run (c :: rest) = c :: escapeDoc none rest := by
  rw [escapeDoc, if_neg hquote, if_neg hescape]
  rfl

/-- **The escapes of an escaped text, undone.** -/
theorem undo?_escapeDoc (run : Option Bool) (text : List Char) :
    undo? (escapeDoc run text) = some text := by
  induction text generalizing run with
  | nil => rfl
  | cons c rest ih =>
      by_cases hquote : c = '"'
      · subst hquote
        rw [escapeDoc_quote]
        split
        · rw [undo?, ih]
          rfl
        · rw [undo?_cons (by decide), ih]
          rfl
      · by_cases hescape : c = '\\'
        · subst hescape
          rw [escapeDoc_backslash, undo?, ih]
          rfl
        · rw [escapeDoc_cons hquote hescape, undo?_cons hescape, ih]
          rfl

/-- What does not start with a quote does not do so when escaped. -/
theorem exists_escapeDoc_eq_cons {c : Char} (h : c ≠ '"') (run : Option Bool)
    (rest : List Char) :
    ∃ first more, escapeDoc run (c :: rest) = first :: more ∧ first ≠ '"' := by
  by_cases hescape : c = '\\'
  · subst hescape
    exact ⟨'\\', _, escapeDoc_backslash run rest, by decide⟩
  · exact ⟨c, _, escapeDoc_cons h hescape run rest, h⟩

/-- A quote that is not escaped is not the first of three. -/
theorem not_triple_isPrefix_escapeDoc {rest : List Char}
    (h : quotesEscaped ('"' :: rest) = false) (after : List Char) :
    ¬Quoting.triple.quotes <+: '"' :: (escapeDoc (some false) rest ++ after) := by
  obtain ⟨c, more, hc, hrest⟩ := quotesEscaped_eq_false_iff.1 h
  obtain ⟨first, others, hmore, hfirst⟩ := exists_escapeDoc_eq_cons hc (some false) more
  -- `first` is behind this quote or behind the one more that the run has
  rcases hrest with rfl | rfl
  · rw [hmore]
    simp [Quoting.quotes, List.cons_prefix_cons, hfirst.symm]
  · rw [escapeDoc_quote, Option.getD_some, if_neg Bool.false_ne_true, hmore]
    simp [Quoting.quotes, List.cons_prefix_cons, hfirst.symm]

/-- **An escaped text holds no quotes that end the string**, and none that would do so with
those behind it. -/
theorem body?_escapeDoc {run : Option Bool} {text : List Char} (h : Fits run text)
    (after : List Char) :
    body? .triple (escapeDoc run text ++ (Quoting.triple.quotes ++ after)) =
      some (escapeDoc run text, after) := by
  -- a quote fixes `run` for the quotes that follow it, every other character frees it again
  induction text generalizing run with
  | nil => exact body?_quotes .triple after
  | cons c rest ih =>
      by_cases hquote : c = '"'
      · subst hquote
        rw [escapeDoc_quote]
        split
        next =>
          rw [List.cons_append, List.cons_append, body?_escape, ih (fits_escaped rest)]
          rfl
        next hrun =>
          have hshort := h.getD_eq_false (Bool.eq_false_iff.2 hrun)
          rw [List.cons_append, body?_cons (by decide) (not_triple_isPrefix_escapeDoc hshort _)
            nofun, ih (Fits.rest hshort)]
          rfl
      · by_cases hescape : c = '\\'
        · subst hescape
          rw [escapeDoc_backslash, List.cons_append, List.cons_append, body?_escape,
            ih (fits_none rest)]
          rfl
        · rw [escapeDoc_cons hquote hescape, List.cons_append,
            body?_cons hescape (not_quotes_isPrefix hquote .triple _) nofun,
            ih (fits_none rest)]
          rfl

/-- An escaped text between triple quotes is a literal of the text. -/
theorem literal?_escapeDoc (text after : List Char) :
    literal? (Quoting.triple.quotes ++
      (escapeDoc none text ++ (Quoting.triple.quotes ++ after))) =
      some (String.ofList text, after) := by
  have hquoting : quotingOf
      (Quoting.triple.quotes ++ (escapeDoc none text ++ (Quoting.triple.quotes ++ after))) =
      .triple := if_pos (List.prefix_append _ _)
  exact literal?_append hquoting (body?_escapeDoc (fits_none text) after)
    (denoted?_of_undo? (undo?_escapeDoc none text))

theorem toList_docstring (text : String) :
    (docstring text).toList = Quoting.triple.quotes ++
      (escapeDoc none text.toList ++ Quoting.triple.quotes) := by
  simp [docstring, Quoting.quotes]

end Python

/-! ## Records -/

/-- The docstring of a record stands behind the lines that open its class. -/
theorem Record.exists_source_eq_docstring {record : Record} {doc : String}
    (h : record.doc = some doc) (style : Style) :
    ∃ after, record.source style =
      sourceOf (record.imports style) (record.opening style) ++ bodyIndent ++
        Python.docstring doc ++ after := by
  have hdoc : record.docLines =
      (bodyIndent ++ Python.docstring doc) :: if record.fields.isEmpty then [] else [""] := by
    rw [docLines, h]
  have hbody : record.docLines ++ record.fieldSection style ≠ [] := by simp [hdoc]
  rw [source_eq, lines_eq_of_ne_nil hbody, sourceOf_append, hdoc, List.cons_append,
    List.map_cons, String.join_cons]
  simp only [String.append_assoc]
  exact ⟨_, rfl⟩

/-- **A docstring denotes its text and does not close early.**  Read from behind the opening
quotes, a string ends with the escaped text, at the closing quotes and whatever comes after
these; the two escapes undone, it is the text, and this is what Python reads.  In the source of
a record the docstring stands behind the lines that open the class. -/
theorem docstring_denotes (doc : String) :
    (∀ after,
      Python.body? .triple
        (Python.escapeDoc none doc.toList ++ (Python.Quoting.triple.quotes ++ after)) =
          some (Python.escapeDoc none doc.toList, after) ∧
        Python.literal? ((Python.docstring doc).toList ++ after) = some (doc, after)) ∧
      Python.undo? (Python.escapeDoc none doc.toList) = some doc.toList ∧
      ∀ record : Record, record.doc = some doc → ∀ style, ∃ after,
        record.source style =
          sourceOf (record.imports style) (record.opening style) ++ bodyIndent ++
            ("\"\"\"" ++ String.ofList (Python.escapeDoc none doc.toList) ++ "\"\"\"") ++
              after := by
  refine ⟨fun after => ⟨Python.body?_escapeDoc (Python.fits_none _) after, ?_⟩,
    Python.undo?_escapeDoc none doc.toList, fun record hdoc style =>
      Record.exists_source_eq_docstring hdoc style⟩
  have hliteral := Python.literal?_escapeDoc doc.toList after
  rw [String.ofList_toList] at hliteral
  rw [Python.toList_docstring, List.append_assoc, List.append_assoc]
  exact hliteral

/-- A record whose documentation has runs of quotes next to backslashes and at its end. -/
def quoteRecord : Record := ⟨"a.Quote", [], some "\"\"\\\"\"\" \"hi\"\"\\\""⟩

/-- Its docstring. -/
theorem docstring_denotes_quoteRecord :
    quoteRecord.doc = some "\"\"\\\"\"\" \"hi\"\"\\\"" ∧
      ∃ after, quoteRecord.source .dataclass =
        sourceOf (quoteRecord.imports .dataclass) (quoteRecord.opening .dataclass) ++
          bodyIndent ++ "\"\"\"\"\"\\\\\\\"\\\"\\\" \"hi\"\"\\\\\\\"\"\"\"" ++ after := by
  obtain ⟨-, -, hrecord⟩ := docstring_denotes "\"\"\\\"\"\" \"hi\"\"\\\""
  have hdoc : quoteRecord.doc = some "\"\"\\\"\"\" \"hi\"\"\\\"" := rfl
  have hescaped : "\"\"\"" ++
      String.ofList (Python.escapeDoc none "\"\"\\\"\"\" \"hi\"\"\\\"".toList) ++ "\"\"\"" =
      "\"\"\"\"\"\\\\\\\"\\\"\\\" \"hi\"\"\\\\\\\"\"\"\"" := by decide +kernel
  obtain ⟨after, hsource⟩ := hrecord quoteRecord hdoc .dataclass
  rw [hescaped] at hsource
  exact ⟨hdoc, after, hsource⟩

end AvroBindings
