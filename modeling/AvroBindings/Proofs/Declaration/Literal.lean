import AvroBindings.Json.Reader
import AvroBindings.Proofs.Declaration.Arrangement

/-!
# What string literals denote

The rules by which Python reads a string in double quotes, and the literals of declarations
under these rules.

## Main Definitions

* `Python.Quoting` — one quote on each side, or three.
* `Python.body?` — the characters of a string up to the quotes that end it.
* `Python.escape?`, `Python.denoted?` — what an escape denotes, and what all characters of a
  string denote.
* `Python.literal?` — a string literal at the start of a text.
* `Python.Spelling` — the spellings of a character in a literal.
* `Python.Denotes` — a literal on one line that is read as a text up to its last character.

## Main Statements

* `Python.spelling_escape` — every character is spelled by one of three forms.
* `Python.denotes_stringLiteral` — the literal of a text denotes the text.
* `literals_denote` — the string defaults of a record and the symbols of an enum.

## Design Notes

**Where a string ends.**  A backslash takes the next character with it, whatever it is, so that
the end of a string is found before any escape is looked at.  Three quotes open a string over
several lines even where two of them could be an empty string; therefore what follows a literal
may not be a quote.

**Partiality.**  A literal that Python refuses denotes nothing.  Nor do escapes by the name of a
character, whose names are not listed here, and escapes of a surrogate, which is no character.
Line ends are taken to be line feeds within escapes.
-/

namespace AvroBindings

namespace Python

/-! ## Strings -/

/-- The quotes on each side of a string: one, or three if the string may go over several
lines. -/
inductive Quoting where
  | single
  | triple
deriving DecidableEq

/-- The quotes on one side. -/
def Quoting.quotes : Quoting → List Char
  | .single => ['"']
  | .triple => ['"', '"', '"']

/-- The characters of a string up to the quotes that end it, and what follows these.  A
backslash takes the next character with it; with one quote on each side a string ends on its
line. -/
def body? (quoting : Quoting) : List Char → Option (List Char × List Char)
  | [] => none
  | '\\' :: c :: text => (body? quoting text).map fun (body, rest) => ('\\' :: c :: body, rest)
  | c :: text =>
    if quoting.quotes <+: c :: text then some ([], (c :: text).drop quoting.quotes.length)
    else if quoting = .single ∧ (c = '\n' ∨ c = '\r') then none
    else (body? quoting text).map fun (body, rest) => (c :: body, rest)

/-! ## Escapes -/

/-- The character of an escape of one letter. -/
def letterEscape? : Char → Option Char
  | '\\' => some '\\'
  | '\x27' => some '\x27'
  | '"' => some '"'
  | 'a' => some '\x07'
  | 'b' => some '\x08'
  | 'f' => some '\x0c'
  | 'n' => some '\n'
  | 'r' => some '\r'
  | 't' => some '\t'
  | 'v' => some '\x0b'
  | _ => none

/-- Whether a character is an octal digit. -/
def isOctal (c : Char) : Bool := '0' ≤ c && c ≤ '7'

/-- The number of a numeral. -/
def number? (base : Nat) (digits : List Char) : Option Nat :=
  digits.foldlM (fun n c => (Json.hexDigit? c).map (base * n + ·)) 0

/-- An escape of so many hexadecimal digits: what it denotes, and what follows it. -/
def codeEscape? (width : Nat) (text : List Char) : Option (List Char × List Char) :=
  if width ≤ text.length then
    (number? 16 (text.take width)).bind fun code =>
      if code.isValidChar then some ([Char.ofNat code], text.drop width) else none
  else none

/-- An escape of up to three octal digits. -/
def octalEscape? (text : List Char) : Option (List Char × List Char) :=
  let digits := (text.take 3).takeWhile isOctal
  (number? 8 digits).map fun code => ([Char.ofNat code], text.drop digits.length)

/-- An escape, from the character behind its backslash on: what it denotes, and what follows it.
A backslash at the end of a line joins the line with the next one, and before a character that
makes no escape it stands for itself. -/
def escape? : List Char → Option (List Char × List Char)
  | [] => none
  | '\n' :: rest => some ([], rest)
  | 'x' :: rest => codeEscape? 2 rest
  | 'u' :: rest => codeEscape? 4 rest
  | 'U' :: rest => codeEscape? 8 rest
  | 'N' :: _ => none
  | c :: rest =>
    match letterEscape? c with
    | some d => some ([d], rest)
    | none => if isOctal c then octalEscape? (c :: rest) else some (['\\', c], rest)

theorem length_le_of_codeEscape? {width : Nat} {text chars rest : List Char}
    (h : codeEscape? width text = some (chars, rest)) : rest.length ≤ text.length := by
  unfold codeEscape? at h
  split at h
  · obtain ⟨code, -, h⟩ := Option.bind_eq_some_iff.1 h
    split at h
    · cases h
      exact (List.drop_sublist _ _).length_le
    · contradiction
  · contradiction

theorem length_le_of_escape? {text chars rest : List Char}
    (h : escape? text = some (chars, rest)) :
    rest.length ≤ text.length := by
  unfold escape? at h
  split at h
  case h_1 => contradiction
  case h_2 => cases h; exact Nat.le_succ _
  case h_3 => exact Nat.le_succ_of_le (length_le_of_codeEscape? h)
  case h_4 => exact Nat.le_succ_of_le (length_le_of_codeEscape? h)
  case h_5 => exact Nat.le_succ_of_le (length_le_of_codeEscape? h)
  case h_6 => contradiction
  case h_7 =>
    split at h
    · cases h
      exact Nat.le_succ _
    · split at h
      · obtain ⟨code, -, h⟩ := Option.map_eq_some_iff.1 h
        cases h
        exact (List.drop_sublist _ _).length_le
      · cases h
        exact Nat.le_succ _

/-- The text that the characters of a string denote. -/
def denoted? : List Char → Option (List Char)
  | [] => some []
  | c :: rest =>
    if c = '\\' then
      match _h : escape? rest with
      | none => none
      | some (chars, after) => (denoted? after).map (chars ++ ·)
    else (denoted? rest).map (c :: ·)
termination_by text => text.length
decreasing_by
  · exact Nat.lt_succ_of_le (length_le_of_escape? ‹_›)
  · exact Nat.lt_succ_self _

/-- How the string at the start of a text is quoted. -/
def quotingOf (text : List Char) : Quoting :=
  if Quoting.triple.quotes <+: text then .triple else .single

/-- A string literal in double quotes at the start of a text: the text that it denotes, and what
follows it. -/
def literal? (text : List Char) : Option (String × List Char) :=
  let quoting := quotingOf text
  if quoting.quotes <+: text then
    (body? quoting (text.drop quoting.quotes.length)).bind fun (body, rest) =>
      (denoted? body).map fun denoted => (String.ofList denoted, rest)
  else none

example : literal? "\"\\x41\\102\\q\" + x".toList = some ("AB\\q", " + x".toList) := by cbv

/-! ### Character by character -/

/-- A character that is nothing but itself in a string, and does not end a line. -/
structure Inert (c : Char) : Prop where
  ne_quote : c ≠ '"'
  ne_escape : c ≠ '\\'
  ne_feed : c ≠ '\n'
  ne_return : c ≠ '\r'

theorem body?_escape (quoting : Quoting) (c : Char) (text : List Char) :
    body? quoting ('\\' :: c :: text) = (body? quoting text).map fun (body, rest) =>
      ('\\' :: c :: body, rest) := by
  rw [body?]

theorem body?_cons {quoting : Quoting} {c : Char} {text : List Char} (hescape : c ≠ '\\')
    (hopen : ¬quoting.quotes <+: c :: text) (hline : quoting = .single → c ≠ '\n' ∧ c ≠ '\r') :
    body? quoting (c :: text) = (body? quoting text).map fun (body, rest) =>
      (c :: body, rest) := by
  have hinside : ¬(quoting = .single ∧ (c = '\n' ∨ c = '\r')) := by
    rintro ⟨hsingle, hend⟩
    have hne := hline hsingle
    tauto
  rw [body?.eq_3 quoting c text (fun _ _ hc _ => hescape hc), if_neg hopen, if_neg hinside]

theorem not_quotes_isPrefix {c : Char} (h : c ≠ '"') (quoting : Quoting) (text : List Char) :
    ¬quoting.quotes <+: c :: text := by
  cases quoting <;> simp [Quoting.quotes, List.cons_prefix_cons, h.symm]

theorem body?_inert {chars : List Char} (h : ∀ c ∈ chars, Inert c) (quoting : Quoting)
    (text : List Char) :
    body? quoting (chars ++ text) = (body? quoting text).map fun (body, rest) =>
      (chars ++ body, rest) := by
  induction chars with
  | nil => simp
  | cons c chars ih =>
      rw [List.forall_mem_cons] at h
      rw [List.cons_append, body?_cons h.1.ne_escape (not_quotes_isPrefix h.1.ne_quote _ _)
        (fun _ => ⟨h.1.ne_feed, h.1.ne_return⟩), ih h.2]
      simp [Function.comp_def]

theorem body?_quotes (quoting : Quoting) (rest : List Char) :
    body? quoting (quoting.quotes ++ rest) = some ([], rest) := by
  cases quoting with
  | single => rfl
  | triple => rfl

theorem denoted?_cons {c : Char} (h : c ≠ '\\') (text : List Char) :
    denoted? (c :: text) = (denoted? text).map (c :: ·) := by
  rw [denoted?, if_neg h]

theorem denoted?_escape {text chars rest : List Char} (h : escape? text = some (chars, rest)) :
    denoted? ('\\' :: text) = (denoted? rest).map (chars ++ ·) := by
  rw [denoted?, if_pos rfl]
  split
  next hnone =>
    rw [h] at hnone
    contradiction
  next hsome =>
    rw [h] at hsome
    cases hsome
    rfl

theorem escape?_letter {c d : Char} (h : letterEscape? d = some c) (text : List Char) :
    escape? (d :: text) = some ([c], text) := by
  unfold letterEscape? at h
  split at h
  case h_11 => contradiction
  all_goals
    cases h
    rfl

theorem codeEscape?_append {digits : List Char} {c : Char}
    (h : number? 16 digits = some c.toNat) (text : List Char) :
    codeEscape? digits.length (digits ++ text) = some ([c], text) := by
  have hvalid : c.toNat.isValidChar := c.valid
  rw [codeEscape?, if_pos (by simp), List.take_left, h, Option.bind_some, if_pos hvalid,
    List.drop_left, Char.ofNat_toNat]

/-! ## Spellings -/

/-- How a character is spelled in a literal: by itself, by an escape of one letter, or by its
code. -/
inductive Spelling : Char → List Char → Prop where
  | plain {c : Char} (hquote : c ≠ '"') (hescape : c ≠ '\\') (hcontrol : ¬c.toNat < 0x20) :
      Spelling c [c]
  | letter {c d : Char} (h : letterEscape? d = some c) : Spelling c ['\\', d]
  | code {c : Char} (hcontrol : c.toNat < 0x20) :
      Spelling c ('\\' :: 'u' :: '0' :: '0' :: Json.hexPair c.toNat)

/-- Every character is spelled by one of the three forms. -/
theorem spelling_escape (c : Char) : Spelling c (Json.escape c) := by
  unfold Json.escape
  split
  next h =>
    subst h
    exact .letter rfl
  next hquote =>
    split
    next h =>
      subst h
      exact .letter rfl
    next hescape =>
      split
      next hcontrol =>
        have hc : Char.ofNat c.toNat = c := Char.ofNat_toNat c
        -- Five control characters have a letter of their own.
        split
        case h_6 => exact .code hcontrol
        all_goals
          rename_i hcode
          rw [hcode] at hc
          exact .letter (hc ▸ rfl)
      next hcontrol => exact .plain hquote hescape hcontrol

theorem inert_of_plain {c : Char} (hquote : c ≠ '"') (hescape : c ≠ '\\')
    (hcontrol : ¬c.toNat < 0x20) : Inert c where
  ne_quote := hquote
  ne_escape := hescape
  ne_feed := by
    rintro rfl
    exact hcontrol (by decide)
  ne_return := by
    rintro rfl
    exact hcontrol (by decide)

theorem inert_of_mem_hexPair {code : Nat} (h : code < 0x20) :
    ∀ d ∈ '0' :: '0' :: Json.hexPair code, Inert d := by
  have hall : ∀ code < 0x20, ('0' :: '0' :: Json.hexPair code).all
      (fun d => d != '"' && d != '\\' && d != '\n' && d != '\r') = true := by decide
  intro d hd
  have hd := List.all_eq_true.1 (hall code h) d hd
  simp only [Bool.and_eq_true, bne_iff_ne, and_assoc] at hd
  obtain ⟨hquote, hescape, hfeed, hreturn⟩ := hd
  exact ⟨hquote, hescape, hfeed, hreturn⟩

theorem number?_hexPair {code : Nat} (h : code < 0x20) :
    number? 16 ('0' :: '0' :: Json.hexPair code) = some code := by
  have hall : ∀ code < 0x20, number? 16 ('0' :: '0' :: Json.hexPair code) = some code := by
    decide
  exact hall code h

namespace Spelling

variable {c : Char} {chars : List Char}

/-- A string does not end within a spelling. -/
theorem body?_append (h : Spelling c chars) (text : List Char) :
    body? .single (chars ++ text) = (body? .single text).map fun (body, rest) =>
      (chars ++ body, rest) := by
  cases h with
  | plain hquote hescape hcontrol =>
      exact body?_inert (List.forall_mem_singleton.2 (inert_of_plain hquote hescape hcontrol)) _
        _
  | letter h => exact body?_escape _ _ _
  | code hcontrol =>
      rw [List.cons_append, List.cons_append, body?_escape,
        body?_inert (inert_of_mem_hexPair hcontrol)]
      simp [Function.comp_def]

/-- A spelling denotes the character. -/
theorem denoted?_append (h : Spelling c chars) (text : List Char) :
    denoted? (chars ++ text) = (denoted? text).map (c :: ·) := by
  cases h with
  | plain hquote hescape hcontrol => exact denoted?_cons hescape text
  | letter h => exact denoted?_escape (escape?_letter h text)
  | code hcontrol =>
      have hescape : escape? ('u' :: ('0' :: '0' :: Json.hexPair c.toNat ++ text)) =
          some ([c], text) :=
        codeEscape?_append (number?_hexPair hcontrol) text
      exact denoted?_escape hescape

/-- A spelling ends no line. -/
theorem onLine (h : Spelling c chars) : ∀ d ∈ chars, d ≠ '\n' ∧ d ≠ '\r' := by
  have hbackslash : '\\' ≠ '\n' ∧ '\\' ≠ '\r' := by decide
  cases h with
  | plain hquote hescape hcontrol =>
      have hinert := inert_of_plain hquote hescape hcontrol
      exact List.forall_mem_singleton.2 ⟨hinert.ne_feed, hinert.ne_return⟩
  | @letter d h =>
      have hfeed : d ≠ '\n' := by
        rintro rfl
        contradiction
      have hreturn : d ≠ '\r' := by
        rintro rfl
        contradiction
      exact List.forall_mem_cons.2 ⟨hbackslash, List.forall_mem_singleton.2 ⟨hfeed, hreturn⟩⟩
  | code hcontrol =>
      refine List.forall_mem_cons.2 ⟨hbackslash,
        List.forall_mem_cons.2 ⟨by decide, fun d hd => ?_⟩⟩
      have hinert := inert_of_mem_hexPair hcontrol d hd
      exact ⟨hinert.ne_feed, hinert.ne_return⟩

/-- A spelling does not start with a quote. -/
theorem exists_cons (h : Spelling c chars) :
    ∃ first more, chars = first :: more ∧ first ≠ '"' := by
  cases h with
  | plain hquote hescape hcontrol => exact ⟨c, [], rfl, hquote⟩
  | letter h => exact ⟨'\\', _, rfl, by decide⟩
  | code hcontrol => exact ⟨'\\', _, rfl, by decide⟩

end Spelling

/-! ## Literals -/

/-- A literal on one line that is read as a text up to its last character, whatever but a quote
follows. -/
structure Denotes (literal text : String) : Prop where
  feedless : '\n' ∉ literal.toList
  returnless : '\r' ∉ literal.toList
  reads : ∀ rest : List Char, rest.head? ≠ some '"' →
    literal? (literal.toList ++ rest) = some (text, rest)

theorem literal?_append {quoting : Quoting} {inside body rest denoted : List Char}
    (hquoting : quotingOf (quoting.quotes ++ inside) = quoting)
    (hbody : body? quoting inside = some (body, rest))
    (hdenoted : denoted? body = some denoted) :
    literal? (quoting.quotes ++ inside) = some (String.ofList denoted, rest) := by
  have hopen : quoting.quotes <+: quoting.quotes ++ inside := List.prefix_append _ _
  rw [literal?, hquoting, if_pos hopen, List.drop_left, hbody]
  simp only [Option.bind_some, hdenoted, Option.map_some]

theorem body?_flatMap_escape (text rest : List Char) :
    body? .single (text.flatMap Json.escape ++ '"' :: rest) =
      some (text.flatMap Json.escape, rest) := by
  induction text with
  | nil => exact body?_quotes .single rest
  | cons c text ih =>
      rw [List.flatMap_cons, List.append_assoc, (spelling_escape c).body?_append, ih]
      rfl

theorem denoted?_flatMap_escape (text : List Char) :
    denoted? (text.flatMap Json.escape) = some text := by
  induction text with
  | nil => rw [List.flatMap_nil, denoted?]
  | cons c text ih =>
      rw [List.flatMap_cons, (spelling_escape c).denoted?_append, ih]
      rfl

/-- A literal is not taken for the start of a string in three quotes. -/
theorem not_triple_isPrefix {text rest : List Char} (hrest : rest.head? ≠ some '"') :
    ¬Quoting.triple.quotes <+: Json.quoteChars text ++ rest := by
  intro hstart
  cases text with
  | nil =>
      -- The literal of the empty text is two quotes, and the third would be what follows.
      have hthird : ['"'] <+: rest := by simpa [Quoting.quotes, Json.quoteChars] using hstart
      obtain ⟨more, rfl⟩ := hthird
      exact hrest rfl
  | cons c text =>
      obtain ⟨first, more, hescape, hfirst⟩ := (spelling_escape c).exists_cons
      rw [Json.quoteChars, List.flatMap_cons, hescape] at hstart
      have hsecond : '"' = first :=
        (List.cons_prefix_cons.1 (List.cons_prefix_cons.1 hstart).2).1
      exact hfirst hsecond.symm

/-- A literal stands on one line. -/
theorem onLine_quoteChars (text : List Char) :
    ∀ c ∈ Json.quoteChars text, c ≠ '\n' ∧ c ≠ '\r' := by
  have hquote : '"' ≠ '\n' ∧ '"' ≠ '\r' := by decide
  intro c hc
  rw [Json.quoteChars, List.mem_cons, List.mem_append, List.mem_singleton, List.mem_flatMap]
    at hc
  rcases hc with rfl | ⟨d, -, hd⟩ | rfl
  · exact hquote
  · exact (spelling_escape d).onLine c hd
  · exact hquote

/-- **The literal of a text denotes the text.** -/
theorem denotes_stringLiteral (text : String) : Denotes (stringLiteral text) text := by
  have hchars : (stringLiteral text).toList = Json.quoteChars text.toList := by
    rw [stringLiteral, Json.quote, String.toList_ofList]
  refine ⟨?_, ?_, fun rest hrest => ?_⟩
  · rw [hchars]
    exact fun hfeed => (onLine_quoteChars _ _ hfeed).1 rfl
  · rw [hchars]
    exact fun hreturn => (onLine_quoteChars _ _ hreturn).2 rfl
  · have hquotes : Json.quoteChars text.toList ++ rest =
        Quoting.single.quotes ++ (text.toList.flatMap Json.escape ++ '"' :: rest) := by
      simp [Json.quoteChars, Quoting.quotes]
    have hquoting : quotingOf (Json.quoteChars text.toList ++ rest) = .single :=
      if_neg (not_triple_isPrefix hrest)
    rw [hquotes] at hquoting
    rw [hchars, hquotes, literal?_append hquoting (body?_flatMap_escape _ _)
      (denoted?_flatMap_escape _), String.ofList_toList]

end Python

/-! ## Declarations -/

/-- **The literals of a declaration denote the texts of the schema**: the literal of a string
default, which stands in the line that declares the field of a dataclass, and those of the
symbols of an enum, in their order. -/
theorem literals_denote (record : Record) (enum : Enumeration) :
    (record.source .dataclass = sourceOf (record.imports .dataclass) (record.lines .dataclass) ∧
      ∀ field ∈ record.fields, ∀ text, field.default = some (.string text) →
        ∃ literal, (∀ imports, defaultLiteral (.string text) imports = (literal, imports)) ∧
          Python.Denotes literal text ∧
          field.typed record.name ++ " = " ++ literal ∈ record.lines .dataclass) ∧
      ∃ literals, List.Forall₂ Python.Denotes literals enum.symbols ∧
        enum.source = sourceOf ((Imports.start enum.name).addTyping "Literal")
          ((enum.doc.map (Python.commentLines "")).getD [] ++
            [Name.className enum.name ++ " = Literal[" ++ ", ".intercalate literals ++
              "]"]) := by
  refine ⟨⟨record.source_eq .dataclass, fun field hfield text hdefault => ?_⟩,
    enum.symbols.map Python.stringLiteral, ?_, rfl⟩
  · have hline :=
      Record.mem_lines_of_mem_fieldSection (Record.mem_fieldSection_of_default hfield hdefault)
    have htext : (Json.string text).defaultText = Python.stringLiteral text := rfl
    rw [htext] at hline
    exact ⟨_, fun _ => rfl, Python.denotes_stringLiteral text, hline⟩
  · rw [List.forall₂_map_left_iff]
    exact List.forall₂_same.2 fun symbol _ => Python.denotes_stringLiteral symbol

/-- A field whose default holds characters with a meaning of their own in a literal. -/
def bellLine : Field := ⟨"line", .primitive .string, some (.string "\"\\\x07\n\""), none⟩

/-- Its default is denoted by a literal of the declaration. -/
theorem literals_denote_bellLine :
    ∃ literal, Python.Denotes literal "\"\\\x07\n\"" ∧
      "    line: str = " ++ literal ∈
        (Record.mk "a.Talk" [bellLine] none).lines .dataclass := by
  have htyped : bellLine.typed "a.Talk" ++ " = " = "    line: str = " := rfl
  obtain ⟨literal, -, hdenotes, hline⟩ :=
    (literals_denote ⟨"a.Talk", [bellLine], none⟩ ⟨"a.Mood", ["CALM"], none⟩).1.2 bellLine
      (List.mem_singleton_self _) "\"\\\x07\n\"" rfl
  rw [htyped] at hline
  exact ⟨literal, hdenotes, hline⟩

end AvroBindings
