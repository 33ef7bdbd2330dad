import AvroBindings.Proofs.Json.WellFormed
import AvroBindings.Json.Printer
import AvroBindings.Json.Reader

/-!
# Reading back strings and numbers

What the reader makes of the text of a string and of a number.

## Main Definitions

* `Json.Ends` — what may follow a value: no character that would go on with a number.
* `JsonNumber.ReadsBack` — the text of a number, on its own, is read as the number.

## Main Statements

* `Json.stringTail_quoteChars` — the text of a string is read as the string.
* `Json.value_number` — a number that is read back on its own is read back wherever it ends.
* `JsonNumber.readsBack_int` — every integer of sixty-four bits is read back.

## Design Notes

Not every float is read back: the reader rounds twice, so the text of a float may be read as a
float beside it.  That a float is read back is therefore a hypothesis where it is needed.
-/

namespace AvroBindings

namespace Json

/-- What comes after a success goes on with its value. -/
theorem ok_bind {α β : Type} (a : α) (f : α → Except Fault β) : (Except.ok a >>= f) = f a := rfl

/-! ## Strings -/

theorem hexWord?_hexPair {code : Nat} (h : code < 0x20) :
    hexWord? '0' '0' (Nat.digitChar (code / 16)) (Nat.digitChar (code % 16)) = some code := by
  have hall : ∀ code < 0x20,
      hexWord? '0' '0' (Nat.digitChar (code / 16)) (Nat.digitChar (code % 16)) = some code := by
        decide
  exact hall code h

/-- A control character that was escaped is read as the character. -/
theorem stringTail_control (seen : List Char) {c : Char} (h : c.toNat < 0x20)
    (text : List Char) :
    stringTail seen ((match c.toNat with
      | 0x08 => ['\\', 'b']
      | 0x09 => ['\\', 't']
      | 0x0A => ['\\', 'n']
      | 0x0C => ['\\', 'f']
      | 0x0D => ['\\', 'r']
      | code =>
          ['\\', 'u', '0', '0'] ++ hexPair code) ++ text) = stringTail (c :: seen) text := by
  have hc : c = Char.ofNat c.toNat := (Char.ofNat_toNat c).symm
  split
  case h_6 code _ _ _ _ _ =>
    simp only [hexPair, List.cons_append, List.nil_append]
    rw [stringTail, hexWord?_hexPair h]
    simp only []
    rw [if_neg (by simp; omega), if_neg (by simp; omega), ← hc]
  all_goals
    rename_i hcode
    rw [hcode] at hc
    subst hc
    rfl

/-- A character that was escaped is read as the character. -/
theorem stringTail_escape (seen : List Char) (c : Char) (text : List Char) :
    stringTail seen (escape c ++ text) = stringTail (c :: seen) text := by
  unfold escape
  split
  next h =>
    subst h
    rfl
  next hquote =>
    split
    next h =>
      subst h
      rfl
    next hbackslash =>
      split
      next hcontrol => exact stringTail_control seen hcontrol text
      next hplain =>
        rw [List.singleton_append, stringTail]
        · rw [if_neg hplain]
        all_goals simp_all

/-- **The text of a string is read as the string.** -/
theorem stringTail_quoteChars (seen text rest : List Char) :
    stringTail seen (text.flatMap escape ++ '"' :: rest) =
      .ok (String.ofList (seen.reverse ++ text), rest) := by
  induction text generalizing seen with
  | nil => simp [stringTail]
  | cons c text ih =>
      rw [List.flatMap_cons, List.append_assoc, stringTail_escape, ih]
      simp

/-! ## Numbers -/

/-- What may follow a value: no character that would go on with a number. -/
def Ends (rest : List Char) : Prop :=
  ∀ c ∈ rest.head?, c.isDigit = false ∧ c ≠ '.' ∧ c ≠ 'e' ∧ c ≠ 'E'

section Digits

variable {text rest : List Char}

theorem takeWhile_digits_append (h : Ends rest) :
    (text ++ rest).takeWhile Char.isDigit = text.takeWhile Char.isDigit := by
  have hrest : rest.takeWhile Char.isDigit = [] := by
    cases rest with
    | nil => rfl
    | cons c rest => exact List.takeWhile_cons_of_neg (by simp [(h c rfl).1])
  rw [List.takeWhile_append, hrest, List.append_nil]
  split
  next hlength => exact ((List.takeWhile_prefix _).eq_of_length hlength).symm
  next => rfl

theorem dropWhile_digits_append (h : Ends rest) :
    (text ++ rest).dropWhile Char.isDigit = text.dropWhile Char.isDigit ++ rest := by
  have hrest : rest.dropWhile Char.isDigit = rest := by
    cases rest with
    | nil => rfl
    | cons c rest => exact List.dropWhile_cons_of_neg (by simp [(h c rfl).1])
  rw [List.dropWhile_append, hrest]
  split
  next hempty => rw [List.isEmpty_iff.1 hempty, List.nil_append]
  next => rfl

theorem gather_append (h : Ends rest) (word taken : Nat) :
    gather word taken (text ++ rest) =
      ((gather word taken text).1, (gather word taken text).2.1,
        (gather word taken text).2.2 ++ rest) := by
  induction text generalizing word taken with
  | nil =>
      cases rest with
      | nil => rfl
      | cons c rest => simp [gather, (h c rfl).1]
  | cons c text ih =>
      rw [List.cons_append, gather, gather]
      split
      · exact ih _ _
      · rfl

end Digits

section Locality

/-- The digits of an exponent, after its sign. -/
def exponentDigits (negative : Bool) (word : Nat) (shift : Int) (down : Bool)
    (text : List Char) :
    Except Fault (JsonNumber × List Char) :=
  match text with
  | [] => .error .truncated
  | c :: _ =>
    if !c.isDigit then .error .malformed
    else do
      let size : Nat :=
        (text.takeWhile Char.isDigit).foldl (fun n d => n * 10 + (d.toNat - '0'.toNat)) 0
      let n ← floatOf negative word (shift + if down then -(size : Int) else size)
      return (n, text.dropWhile Char.isDigit)

variable {negative : Bool} {word : Nat} {shift : Int} {text left rest : List Char}
  {n : JsonNumber}

/-- What comes after the digits of the integer part. -/
def afterInteger (negative : Bool) (word : Nat) (shift : Int) (text : List Char) :
    Except Fault (JsonNumber × List Char) :=
  match text with
  | '.' :: text => fractionTail negative word shift text
  | 'e' :: text | 'E' :: text => exponentTail negative word shift text
  | text => do
    if shift = 0 then return (integerOf negative word, text)
    else return (← floatOf negative word shift, text)

theorem numberTail_zero_digit {c : Char} (h : c.isDigit = true) :
    numberTail negative ('0' :: c :: text) = .error .malformed := by
  rw [numberTail]
  · rw [if_pos h]
  all_goals
    rintro rfl
    exact absurd h (by decide)

theorem numberTail_zero (h : ∀ c ∈ text.head?, c.isDigit = false) :
    numberTail negative ('0' :: text) = afterInteger negative 0 0 text := by
  cases text with
  | nil => rfl
  | cons c text =>
      by_cases hpoint : c = '.'
      · subst hpoint
        rfl
      by_cases he : c = 'e'
      · subst he
        rfl
      by_cases hE : c = 'E'
      · subst hE
        rfl
      rw [numberTail, afterInteger, if_neg (by simp [h c rfl]), if_pos rfl]
      all_goals simpa

theorem numberTail_digit {c : Char} (h : c.isDigit = true) (hzero : c ≠ '0') :
    numberTail negative (c :: text) =
      afterInteger negative (gather 0 0 (c :: text)).1
        ((gather 0 0 (c :: text)).2.2.takeWhile Char.isDigit).length
        ((gather 0 0 (c :: text)).2.2.dropWhile Char.isDigit) := by
  rw [numberTail]
  · rw [if_neg (by simp [h])]
    rfl
  · exact hzero

theorem exponentTail_eq :
    exponentTail negative word shift text =
      match text with
      | '+' :: text => exponentDigits negative word shift false text
      | '-' :: text => exponentDigits negative word shift true text
      | text => exponentDigits negative word shift false text := by
  let signed : Bool × List Char :=
    match text with
    | '+' :: text => (false, text)
    | '-' :: text => (true, text)
    | text => (false, text)
  change exponentDigits negative word shift signed.1 signed.2 = _
  dsimp only [signed]
  split <;> rfl

theorem bind_pair_eq_ok_iff {number : Except Fault JsonNumber} {remaining : List Char} :
    (do let x ← number; return (x, remaining) : Except Fault (JsonNumber × List Char)) =
      .ok (n, left) ↔
      number = .ok n ∧ remaining = left := by
  cases number with
  | error e => simp [bind, Except.bind]
  | ok x => simp [bind, Except.bind, pure, Except.pure]

theorem exponentDigits_append (hrest : Ends rest) {down : Bool}
    (h : exponentDigits negative word shift down text = .ok (n, left)) :
    exponentDigits negative word shift down (text ++ rest) = .ok (n, left ++ rest) := by
  cases text with
  | nil => simp [exponentDigits] at h
  | cons c text =>
      unfold exponentDigits at h ⊢
      rw [List.cons_append]
      dsimp only at h ⊢
      split
      next hc => simp [hc] at h
      next hc =>
        rw [if_neg hc, bind_pair_eq_ok_iff] at h
        rw [bind_pair_eq_ok_iff, ← List.cons_append, takeWhile_digits_append hrest,
          dropWhile_digits_append hrest]
        exact ⟨h.1, by rw [h.2]⟩

/-- An exponent is read alike whatever follows it. -/
theorem exponentTail_append (hrest : Ends rest)
    (h : exponentTail negative word shift text = .ok (n, left)) :
    exponentTail negative word shift (text ++ rest) = .ok (n, left ++ rest) := by
  rw [exponentTail_eq] at h ⊢
  cases text with
  | nil => simp [exponentDigits] at h
  | cons c text =>
      rw [List.cons_append]
      split at h
      next text' heq =>
        obtain ⟨rfl, rfl⟩ := List.cons.inj heq
        exact exponentDigits_append hrest h
      next text' heq =>
        obtain ⟨rfl, rfl⟩ := List.cons.inj heq
        exact exponentDigits_append hrest h
      next hplus hminus =>
        split
        next text' heq => simp_all
        next text' heq => simp_all
        next => exact exponentDigits_append hrest h

/-- What follows a value does not start the fraction or the exponent of a number that has
none. -/
theorem append_ne_cons (hrest : Ends rest) {c : Char} (hc : c = '.' ∨ c = 'e' ∨ c = 'E')
    (h : ∀ more, text ≠ c :: more) (more : List Char) : text ++ rest ≠ c :: more := by
  intro heq
  rcases List.append_eq_cons_iff.1 heq with ⟨-, rfl⟩ | ⟨more', hmore, -⟩
  · obtain ⟨-, hpoint, he, hE⟩ := hrest c rfl
    rcases hc with rfl | rfl | rfl
    · exact hpoint rfl
    · exact he rfl
    · exact hE rfl
  · exact h more' hmore

/-- A fraction is read alike whatever follows it. -/
theorem fractionTail_append (hrest : Ends rest)
    (h : fractionTail negative word shift text = .ok (n, left)) :
    fractionTail negative word shift (text ++ rest) = .ok (n, left ++ rest) := by
  cases text with
  | nil => simp [fractionTail] at h
  | cons c text =>
      unfold fractionTail at h ⊢
      rw [List.cons_append]
      dsimp only at h ⊢
      split
      next hc => simp [hc] at h
      next hc =>
        rw [if_neg hc] at h
        rw [← List.cons_append, gather_append hrest]
        generalize gather word 0 (c :: text) = gathered at h ⊢
        obtain ⟨word', taken, text'⟩ := gathered
        dsimp only at h ⊢
        rw [dropWhile_digits_append hrest]
        generalize text'.dropWhile Char.isDigit = dropped at h ⊢
        split at h
        next => exact exponentTail_append hrest h
        next => exact exponentTail_append hrest h
        next he hE =>
          rw [bind_pair_eq_ok_iff] at h
          split
          next heq => exact absurd heq (append_ne_cons hrest (by simp) he _)
          next heq => exact absurd heq (append_ne_cons hrest (by simp) hE _)
          next =>
            rw [bind_pair_eq_ok_iff]
            exact ⟨h.1, by rw [h.2]⟩

theorem afterInteger_append (hrest : Ends rest)
    (h : afterInteger negative word shift text = .ok (n, left)) :
    afterInteger negative word shift (text ++ rest) = .ok (n, left ++ rest) := by
  unfold afterInteger at h ⊢
  split at h
  next => exact fractionTail_append hrest h
  next => exact exponentTail_append hrest h
  next => exact exponentTail_append hrest h
  next hpoint he hE =>
    split
    next heq => exact absurd heq (append_ne_cons hrest (by simp) hpoint _)
    next heq => exact absurd heq (append_ne_cons hrest (by simp) he _)
    next heq => exact absurd heq (append_ne_cons hrest (by simp) hE _)
    next =>
      split at h
      next hshift =>
        obtain ⟨rfl, rfl⟩ := Prod.mk.inj (Except.ok.inj h)
        rw [if_pos hshift]
        rfl
      next hshift =>
        rw [bind_pair_eq_ok_iff] at h
        rw [if_neg hshift, bind_pair_eq_ok_iff]
        exact ⟨h.1, by rw [h.2]⟩

/-- A number is read alike whatever follows it. -/
theorem numberTail_append (hrest : Ends rest) (h : numberTail negative text = .ok (n, left)) :
    numberTail negative (text ++ rest) = .ok (n, left ++ rest) := by
  cases text with
  | nil => simp [numberTail] at h
  | cons c text =>
      rw [List.cons_append]
      by_cases hzero : c = '0'
      -- A digit right after the nought is refused, so none stands there, in the text or in what
      -- follows.
      · subst hzero
        have hhead : ∀ c ∈ text.head?, c.isDigit = false := by
          intro c hc
          obtain ⟨text', rfl⟩ := List.head?_eq_some_iff.1 hc
          refine Bool.eq_false_iff.2 fun hdigit => ?_
          rw [numberTail_zero_digit hdigit] at h
          contradiction
        have hhead' : ∀ c ∈ (text ++ rest).head?, c.isDigit = false := by
          cases text with
          | nil => exact fun c hc => (hrest c hc).1
          | cons c text => exact hhead
        rw [numberTail_zero hhead] at h
        rw [numberTail_zero hhead']
        exact afterInteger_append hrest h
      · cases hdigit : c.isDigit with
        | false => simp [numberTail, hdigit] at h
        | true =>
            rw [numberTail_digit hdigit hzero] at h
            rw [numberTail_digit hdigit hzero, ← List.cons_append, gather_append hrest,
              takeWhile_digits_append hrest, dropWhile_digits_append hrest]
            exact afterInteger_append hrest h

end Locality

section Integers

theorem gather_digits {digits : List Char} (hdigits : ∀ c ∈ digits, c.isDigit = true)
    (word taken : Nat) (hfits : Nat.ofDigitChars 10 digits word ≤ wordMax) :
    gather word taken digits =
      (Nat.ofDigitChars 10 digits word, taken + digits.length, []) := by
  induction digits generalizing word taken with
  | nil => rfl
  | cons c digits ih =>
      rw [List.forall_mem_cons] at hdigits
      rw [Nat.ofDigitChars_cons, Nat.mul_comm] at hfits ⊢
      -- The number that the digits so far make is no larger than the whole, so no digit is
      -- dropped.
      have hword : word * 10 + (c.toNat - '0'.toNat) ≤
          Nat.ofDigitChars 10 digits (word * 10 + (c.toNat - '0'.toNat)) := by
        rw [Nat.ofDigitChars_eq_ofDigitChars_zero]
        exact Nat.le_add_right_of_le (Nat.le_mul_of_pos_left _ (Nat.pow_pos (by decide)))
      have hfit : word * 10 + (c.toNat - '0'.toNat) ≤ wordMax := Nat.le_trans hword hfits
      rw [gather, if_pos (by simpa [hdigits.1] using hfit), ih hdigits.2 _ _ hfits,
        List.length_cons]
      simp only [Nat.add_assoc, Nat.add_comm 1]

/-- A numeral starts with nought only if it is nought. -/
theorem head?_toDigits_ne_zero {n : Nat} (h : 0 < n) :
    (Nat.toDigits 10 n).head? ≠ some '0' := by
  induction n using Nat.strongRecOn with
  | ind n ih =>
      rw [Nat.toDigits_eq_if (by decide)]
      split
      next => simpa using Nat.ne_of_gt h
      next hten =>
        have hhead := ih (n / 10) (by omega) (by omega)
        cases hdigits : Nat.toDigits 10 (n / 10) with
        | nil => exact absurd hdigits Nat.toDigits_ne_nil
        | cons c digits =>
            rw [hdigits] at hhead
            exact hhead

/-- The numeral of a natural number that fits a word is read as the number. -/
theorem numberTail_toDigits (negative : Bool) {n : Nat} (h : n ≤ wordMax) :
    numberTail negative (Nat.toDigits 10 n) = .ok (integerOf negative n, []) := by
  rcases Nat.eq_zero_or_pos n with rfl | hpos
  · rw [Nat.toDigits_zero]
    rfl
  · have hdigits : ∀ c ∈ Nat.toDigits 10 n, c.isDigit = true :=
      fun c hc => Nat.isDigit_of_mem_toDigits (by decide) (by decide) hc
    have hgather := gather_digits hdigits 0 0 (by rwa [Nat.ofDigitChars_ten_toDigits])
    rw [Nat.ofDigitChars_ten_toDigits] at hgather
    cases htext : Nat.toDigits 10 n with
    | nil => exact absurd htext Nat.toDigits_ne_nil
    | cons c text =>
        have hzero : c ≠ '0' := by
          rintro rfl
          exact head?_toDigits_ne_zero hpos (by rw [htext]; rfl)
        rw [htext] at hdigits hgather
        rw [numberTail_digit (hdigits c List.mem_cons_self) hzero, hgather]
        rfl

end Integers

/-! ## Numbers in place -/

theorem isSpace_of_isDigit {c : Char} (h : c.isDigit = true) : isSpace c = false := by
  have hne : ∀ space : Char, space.isDigit = false → (c == space) = false := by
    intro space hspace
    refine beq_eq_false_iff_ne.2 ?_
    rintro rfl
    exact Bool.false_ne_true (hspace.symm.trans h)
  simp [isSpace, hne]

theorem skipSpace_cons {c : Char} (h : isSpace c = false) (text : List Char) :
    skipSpace (c :: text) = c :: text :=
  List.dropWhile_cons_of_neg (by simp [h])

theorem skipSpace_append {text more : List Char} {c : Char} (h : skipSpace text = c :: more)
    (rest : List Char) :
    skipSpace (text ++ rest) = c :: (more ++ rest) := by
  unfold skipSpace at h ⊢
  rw [List.dropWhile_append, h, if_neg (by simp), List.cons_append]

theorem keyword_eq_ok {json json' : Json} {expected text rest : List Char}
    (h : keyword json expected text = .ok (json', rest)) : json' = json := by
  induction expected generalizing text with
  | nil => exact ((Prod.mk.inj (Except.ok.inj h)).1).symm
  | cons c expected ih =>
      cases text with
      | nil => simp [keyword] at h
      | cons c' text =>
          rw [keyword] at h
          split at h
          · exact ih h
          · contradiction

end Json

/-- **A number is read back**: its text, on its own, is read as the number, and to its end. -/
def JsonNumber.ReadsBack (n : JsonNumber) : Prop :=
  Json.value 1 1 n.write.toList = .ok (.number n, [])

namespace Json

/-- What is read as a number is a numeral, maybe after a sign. -/
theorem exists_numeral {fuel : Nat} {text rest : List Char} {n : JsonNumber}
    (h : value (fuel + 1) 1 text = .ok (.number n, rest)) :
    (∃ more, skipSpace text = '-' :: more ∧ numberTail true more = .ok (n, rest)) ∨
      ∃ c more, skipSpace text = c :: more ∧ c.isDigit = true ∧
        numberTail false (c :: more) = .ok (n, rest) := by
  have hnumber : ∀ {number : Except Fault (JsonNumber × List Char)},
      (number >>= fun read => .ok (Json.number read.1, read.2)) = .ok (Json.number n, rest) →
        number = .ok (n, rest) := by
    intro number h
    cases number with
    | error e => contradiction
    | ok read =>
        obtain ⟨hn, hrest⟩ := Prod.mk.inj (Except.ok.inj h)
        rw [← Json.number.inj hn, ← hrest]
  rw [value] at h
  split at h
  next => contradiction
  next => exact absurd (keyword_eq_ok h) (by simp)
  next => exact absurd (keyword_eq_ok h) (by simp)
  next => exact absurd (keyword_eq_ok h) (by simp)
  next text _ =>
    cases hstring : stringTail [] text with
    | error e => simp [hstring, bind, Except.bind] at h
    | ok read => simp [hstring, bind, Except.bind, pure, Except.pure] at h
  next => contradiction
  next => contradiction
  next more hskip => exact .inl ⟨more, hskip, hnumber h⟩
  next c more _ _ _ _ _ _ _ hskip =>
    split at h
    next hdigit => exact .inr ⟨c, more, hskip, hdigit, hnumber h⟩
    next => contradiction

theorem value_sign {text more : List Char} (h : skipSpace text = '-' :: more)
    (fuel room : Nat) :
    value (fuel + 1) room text =
      (do let (n, text) ← numberTail true more; return (.number n, text)) := by
  rw [value, h]
  rfl

theorem value_digit {text more : List Char} {c : Char} (h : skipSpace text = c :: more)
    (hdigit : c.isDigit = true) (fuel room : Nat) :
    value (fuel + 1) room text =
      (do let (n, text) ← numberTail false (c :: more); return (.number n, text)) := by
  rw [value, h]
  split
  next heq => contradiction
  case h_9 heq =>
    obtain ⟨rfl, rfl⟩ := List.cons.inj heq
    rw [if_pos hdigit]
  all_goals
    rename_i heq
    obtain ⟨rfl, -⟩ := List.cons.inj heq
    exact absurd hdigit (by decide)

/-- **A number that is read back on its own is read back wherever it ends.** -/
theorem value_number {n : JsonNumber} (h : n.ReadsBack) (fuel room : Nat) {rest : List Char}
    (hrest : Ends rest) :
    value (fuel + 1) room (n.write.toList ++ rest) = .ok (.number n, rest) := by
  rcases exists_numeral h with ⟨more, hskip, hread⟩ | ⟨c, more, hskip, hdigit, hread⟩
  · rw [value_sign (skipSpace_append hskip rest), numberTail_append hrest hread]
    rfl
  · rw [value_digit (skipSpace_append hskip rest) hdigit, ← List.cons_append,
      numberTail_append hrest hread]
    rfl

end Json

/-- **Every integer of sixty-four bits is read back.** -/
theorem JsonNumber.readsBack_int {n : Int} (h : (JsonNumber.int n).wellFormed = true) :
    (JsonNumber.int n).ReadsBack := by
  have hrange : -0x8000000000000000 ≤ n ∧ n < 0x10000000000000000 := by
    simpa [wellFormed] using h
  have hmax : Json.wordMax = 0xFFFFFFFFFFFFFFFF := by decide
  unfold ReadsBack
  cases n with
  | ofNat k =>
      have hwrite : (JsonNumber.int (.ofNat k)).write.toList = Nat.toDigits 10 k := by
        change (toString k).toList = _
        rw [Nat.toString_eq_ofList_toDigits, String.toList_ofList]
      have hread :=
        Json.numberTail_toDigits false (n := k) (by rw [Int.ofNat_eq_natCast] at hrange; omega)
      rw [hwrite]
      cases htext : Nat.toDigits 10 k with
      | nil => exact absurd htext Nat.toDigits_ne_nil
      | cons c text =>
          have hdigit : c.isDigit = true :=
            Nat.isDigit_of_mem_toDigits (n := k) (b := 10) (by decide) (by decide)
              (by rw [htext]; simp)
          have hskip := Json.skipSpace_cons (Json.isSpace_of_isDigit hdigit) text
          rw [htext] at hread
          rw [Json.value_digit hskip hdigit, hread]
          rfl
  | negSucc k =>
      have hwrite : (JsonNumber.int (.negSucc k)).write.toList =
          '-' :: Nat.toDigits 10 (k + 1) := by
        change ("-" ++ toString (k + 1)).toList = _
        rw [String.toList_append, Nat.toString_eq_ofList_toDigits, String.toList_ofList,
          String.toList_ofList]
        rfl
      have hk : k + 1 ≤ 0x8000000000000000 := by omega
      rw [hwrite, Json.value_sign rfl, Json.numberTail_toDigits true (by omega)]
      have hinteger : Json.integerOf true (k + 1) = .int (.negSucc k) := by
        rw [Json.integerOf, if_neg (by simp), if_neg (by simp; omega), Int.negSucc_eq]
        rfl
      rw [← hinteger]
      rfl

end AvroBindings
