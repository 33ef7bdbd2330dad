import Mathlib.Data.List.DropRight
import AvroBindings.Proofs.Json.Literals

/-!
# Reading back trees

The indented text of a tree is read as the tree.

## Main Definitions

* `Json.Readable` — a well-formed tree whose floats are read back.

## Main Statements

* `Json.foldItems_text`, `Json.foldMembers_text` — the insides of an array and of an object,
  each part read by a step.
* `Json.value_prettyAt` — the text of a tree at any level is read as the tree.

## Design Notes

**Steps.**  An array is read item by item, and the text of an item says nothing about the reader
it is handed to.  So the two folds are described for every step that takes the text of a part
from any state to the next, and used at three places: for trees, for the members of a named type
and for the entries of a table.

**Blanks.**  A part is handed to its step without the blanks before it.  Since no step minds
them, statements about steps are about the texts with the blanks.
-/

namespace AvroBindings.Json

/-! ## Blanks -/

/-- Only blanks. -/
def Blank (text : List Char) : Prop := ∀ c ∈ text, isSpace c = true

theorem skipSpace_blank {gap text : List Char} (h : Blank gap) :
    skipSpace (gap ++ text) = skipSpace text := by
  unfold skipSpace
  rw [List.dropWhile_append_of_pos h]

theorem skipSpace_skipSpace (text : List Char) : skipSpace (skipSpace text) = skipSpace text :=
  List.dropWhile_idempotent _ _

theorem skipSpace_quoteChars (text rest : List Char) :
    skipSpace (quoteChars text ++ rest) = quoteChars text ++ rest :=
  skipSpace_cons rfl _

theorem toList_pushn (s : String) (c : Char) (n : Nat) :
    (s.pushn c n).toList = s.toList ++ List.replicate n c := by
  rw [String.pushn_eq_repeat_push]
  induction n with
  | zero => simp [Nat.repeat]
  | succ n ih =>
      rw [Nat.repeat, String.toList_push, ih, List.append_assoc, List.replicate_succ']

theorem toList_newline (level : Nat) :
    (newline level).toList = '\n' :: List.replicate (2 * level) ' ' := by
  rw [newline, String.toList_append, toList_pushn]
  rfl

theorem blank_newline (level : Nat) : Blank (newline level).toList := by
  rw [toList_newline]
  intro c hc
  rcases List.mem_cons.1 hc with rfl | hc
  · rfl
  · rw [List.eq_of_mem_replicate hc]
    rfl

theorem ends_cons {c : Char} {rest : List Char}
    (h : c = ',' ∨ c = ']' ∨ c = '\x7d' ∨ isSpace c = true) :
    Ends (c :: rest) := by
  have hcases : c = ',' ∨ c = ']' ∨ c = '\x7d' ∨ c = ' ' ∨ c = '\t' ∨ c = '\n' ∨ c = '\r' := by
    simpa [isSpace, or_assoc] using h
  intro c' hc'
  obtain rfl : c = c' := by simpa using hc'
  rcases hcases with rfl | rfl | rfl | rfl | rfl | rfl | rfl <;> decide

/-- What ends with a bracket or a brace after blanks may follow a value. -/
theorem ends_close {gap rest : List Char} {c : Char} (hgap : Blank gap)
    (hc : c = ']' ∨ c = '\x7d') :
    Ends (gap ++ c :: rest) := by
  cases gap with
  | nil => exact ends_cons (by tauto)
  | cons space gap => exact ends_cons (.inr (.inr (.inr (hgap space List.mem_cons_self))))

/-- So may further parts, a comma before each, in front of it. -/
theorem ends_parts {β : Type} {text : β → List Char} {parts : List β} {gap rest : List Char}
    {c : Char} (hgap : Blank gap) (hc : c = ']' ∨ c = '\x7d') :
    Ends (parts.flatMap (fun part => ',' :: text part) ++ (gap ++ c :: rest)) := by
  cases parts with
  | nil => exact ends_close hgap hc
  | cons part parts => exact ends_cons (.inl rfl)

/-! ## Arrays -/

section Items

variable {σ β : Type} {step : σ → Reader σ} {next : σ → β → σ} {text : β → List Char}

theorem foldItems_close (fuel : Nat) (first : Bool) (state : σ) {gap : List Char}
    (hgap : Blank gap) (rest : List Char) :
    foldItems step (fuel + 1) first state (gap ++ ']' :: rest) = .ok (state, rest) := by
  rw [foldItems, skipSpace_blank hgap]
  rfl

theorem foldItems_first (fuel : Nat) (state : σ) {text more : List Char} {c : Char}
    (h : skipSpace text = c :: more) (hc : c ≠ ']') :
    foldItems step (fuel + 1) true state text =
      (do
        let (state, text) ← step state (c :: more)
        foldItems step fuel false state text) := by
  rw [foldItems, h]
  split
  next heq => contradiction
  next heq => exact absurd (List.cons.inj heq).1 hc
  next heq =>
    obtain ⟨rfl, rfl⟩ := List.cons.inj heq
    rfl

theorem foldItems_next (fuel : Nat) (state : σ) {text more : List Char} {c : Char}
    (h : skipSpace text = c :: more) (hc : c ≠ ']') :
    foldItems step (fuel + 1) false state (',' :: text) =
      (do
        let (state, text) ← step state (c :: more)
        foldItems step fuel false state text) := by
  rw [foldItems, skipSpace_cons rfl]
  split
  next heq => contradiction
  next heq => exact absurd (List.cons.inj heq).1 (by decide)
  next heq =>
    obtain ⟨rfl, rfl⟩ := List.cons.inj heq
    rw [if_neg Bool.false_ne_true, if_pos rfl, h]
    split
    next heq => contradiction
    next heq => exact absurd (List.cons.inj heq).1 hc
    next => rfl

/-- A step takes the text of an item, apart from the blanks before it, to the next state,
whatever comes after the item. -/
def Takes (step : σ → Reader σ) (state : σ) (text : List Char) (state' : σ) : Prop :=
  ∀ rest, Ends rest →
    ∃ c more, skipSpace (text ++ rest) = c :: more ∧ c ≠ ']' ∧
    step state (c :: more) = .ok (state', rest)

theorem foldItems_rest {items : List β}
    (h : ∀ x ∈ items, ∀ state, Takes step state (text x) (next state x)) {fuel : Nat}
    (hfuel : items.length < fuel) (state : σ) {gap : List Char} (hgap : Blank gap)
    (rest : List Char) :
    foldItems step fuel false state
      (items.flatMap (fun x => ',' :: text x) ++ (gap ++ ']' :: rest)) =
      .ok (items.foldl next state, rest) := by
  induction items generalizing fuel state with
  | nil =>
      obtain ⟨fuel, rfl⟩ := Nat.exists_eq_add_of_lt hfuel
      exact foldItems_close _ false state hgap rest
  | cons x items ih =>
      obtain ⟨fuel, rfl⟩ : ∃ m, fuel = m + 1 := Nat.exists_eq_add_one.2 (by omega)
      rw [List.forall_mem_cons] at h
      rw [List.length_cons] at hfuel
      obtain ⟨c, more, hskip, hc, hstep⟩ := h.1 state _ (ends_parts hgap (.inl rfl))
      rw [List.flatMap_cons, List.cons_append, List.cons_append, List.append_assoc,
        foldItems_next fuel state hskip hc, hstep]
      exact ih h.2 (by omega) _

/-- **The items of an array**, a comma between them, are read one after another. -/
theorem foldItems_text {x : β} {items : List β}
    (h : ∀ y ∈ x :: items, ∀ state, Takes step state (text y) (next state y)) {fuel : Nat}
    (hfuel : items.length + 1 < fuel) (state : σ) {gap : List Char} (hgap : Blank gap)
    (rest : List Char) :
    foldItems step fuel true state
      (text x ++ (items.flatMap (fun x => ',' :: text x) ++ (gap ++ ']' :: rest))) =
      .ok ((x :: items).foldl next state, rest) := by
  obtain ⟨fuel, rfl⟩ : ∃ m, fuel = m + 1 := Nat.exists_eq_add_one.2 (by omega)
  rw [List.forall_mem_cons] at h
  obtain ⟨c, more, hskip, hc, hstep⟩ := h.1 state _ (ends_parts hgap (.inl rfl))
  rw [foldItems_first fuel state hskip hc, hstep]
  exact foldItems_rest h.2 (by omega) _ hgap rest

end Items

/-! ## Objects -/

section Members

variable {σ β : Type} {step : σ → String → Reader σ} {next : σ → String × β → σ}
  {text : β → List Char}

/-- The text of a member: blanks, the key and, after a colon, the text of its value. -/
def memberText (gap : List Char) (text : β → List Char) (member : String × β) : List Char :=
  gap ++ (quoteChars member.1.toList ++ ':' :: text member.2)

theorem foldMembers_close (fuel : Nat) (first : Bool) (state : σ) {gap : List Char}
    (hgap : Blank gap) (rest : List Char) :
    foldMembers step (fuel + 1) first state (gap ++ '\x7d' :: rest) = .ok (state, rest) := by
  rw [foldMembers, skipSpace_blank hgap]
  rfl

theorem memberKey_quoteChars (key : String) (rest : List Char) :
    memberKey (quoteChars key.toList ++ rest) = .ok (key, rest) := by
  rw [quoteChars, List.cons_append, List.append_assoc, List.singleton_append, memberKey,
    stringTail_quoteChars]
  simp

theorem foldMembers_first (fuel : Nat) (state : σ) {gap : List Char} (hgap : Blank gap)
    (key : String) (rest : List Char) :
    foldMembers step (fuel + 1) true state (gap ++ (quoteChars key.toList ++ rest)) =
      (do let (state, text) ← step state key rest; foldMembers step fuel false state text) := by
  rw [foldMembers, skipSpace_blank hgap, skipSpace_quoteChars]
  split
  next heq => contradiction
  next heq => exact absurd (List.cons.inj heq).1 (by decide)
  next heq =>
    rw [← heq, if_pos rfl]
    change (memberKey (quoteChars key.toList ++ rest) >>= fun key =>
      step state key.1 key.2 >>= fun read => foldMembers step fuel false read.1 read.2) = _
    rw [memberKey_quoteChars]
    rfl

theorem foldMembers_next (fuel : Nat) (state : σ) {gap : List Char} (hgap : Blank gap)
    (key : String) (rest : List Char) :
    foldMembers step (fuel + 1) false state (',' :: (gap ++ (quoteChars key.toList ++ rest))) =
      (do let (state, text) ← step state key rest; foldMembers step fuel false state text) := by
  rw [foldMembers, skipSpace_cons rfl]
  split
  next heq => contradiction
  next heq => exact absurd (List.cons.inj heq).1 (by decide)
  next heq =>
    obtain ⟨rfl, rfl⟩ := List.cons.inj heq
    rw [if_neg Bool.false_ne_true, if_pos rfl, skipSpace_blank hgap, skipSpace_quoteChars]
    change (memberKey (quoteChars key.toList ++ rest) >>= fun key =>
      step state key.1 key.2 >>= fun read => foldMembers step fuel false read.1 read.2) = _
    rw [memberKey_quoteChars]
    rfl

theorem foldMembers_rest {members : List (String × β)} {gap gap' : List Char} (hgap : Blank gap)
    (hgap' : Blank gap')
    (h : ∀ member ∈ members, ∀ state rest, Ends rest →
      step state member.1 (':' :: (text member.2 ++ rest)) = .ok (next state member, rest))
    {fuel : Nat} (hfuel : members.length < fuel) (state : σ) (rest : List Char) :
    foldMembers step fuel false state
        (members.flatMap (fun member => ',' :: memberText gap text member) ++
          (gap' ++ '\x7d' :: rest)) =
      .ok (members.foldl next state, rest) := by
  induction members generalizing fuel state with
  | nil =>
      obtain ⟨fuel, rfl⟩ := Nat.exists_eq_add_of_lt hfuel
      exact foldMembers_close _ false state hgap' rest
  | cons member members ih =>
      obtain ⟨fuel, rfl⟩ : ∃ m, fuel = m + 1 := Nat.exists_eq_add_one.2 (by omega)
      rw [List.forall_mem_cons] at h
      rw [List.length_cons] at hfuel
      have hends :
          Ends (members.flatMap (fun member => ',' :: memberText gap text member) ++
            (gap' ++ '\x7d' :: rest)) :=
        ends_parts hgap' (.inr rfl)
      rw [List.flatMap_cons, memberText]
      simp only [List.cons_append, List.append_assoc]
      rw [foldMembers_next fuel state hgap, h.1 state _ hends]
      exact ih h.2 (by omega) _

/-- **The members of an object**, a comma between them, are read one after another. -/
theorem foldMembers_text {member : String × β} {members : List (String × β)}
    {gap gap' : List Char} (hgap : Blank gap) (hgap' : Blank gap')
    (h : ∀ m ∈ member :: members, ∀ state rest, Ends rest →
      step state m.1 (':' :: (text m.2 ++ rest)) = .ok (next state m, rest))
    {fuel : Nat} (hfuel : members.length + 1 < fuel) (state : σ) (rest : List Char) :
    foldMembers step fuel true state (memberText gap text member ++
        (members.flatMap (fun member => ',' :: memberText gap text member) ++
          (gap' ++ '\x7d' :: rest))) =
      .ok ((member :: members).foldl next state, rest) := by
  obtain ⟨fuel, rfl⟩ : ∃ m, fuel = m + 1 := Nat.exists_eq_add_one.2 (by omega)
  rw [List.forall_mem_cons] at h
  have hends :
      Ends (members.flatMap (fun member => ',' :: memberText gap text member) ++
        (gap' ++ '\x7d' :: rest)) :=
    ends_parts hgap' (.inr rfl)
  rw [memberText]
  simp only [List.append_assoc]
  rw [foldMembers_first fuel state hgap, List.cons_append, h.1 state _ hends]
  exact foldMembers_rest hgap hgap' h.2 (by omega) _ rest

end Members

/-! ## Texts of trees -/

/-- The text of an item at a level, the line break before it included. -/
def itemText (level : Nat) (x : Json) : List Char :=
  (newline level).toList ++ (x.prettyAt level).toList

/-- The text of the value of a member at a level, the blank before it included. -/
def valueText (level : Nat) (x : Json) : List Char := ' ' :: (x.prettyAt level).toList

theorem skipSpace_valueText (level : Nat) (x : Json) (rest : List Char) :
    skipSpace (valueText level x ++ rest) = skipSpace ((x.prettyAt level).toList ++ rest) := rfl

theorem prettyItems_eq_map (level : Nat) (items : List Json) :
    prettyItems level items = items.map fun x => newline level ++ x.prettyAt level := by
  induction items with
  | nil => rfl
  | cons x items ih => rw [prettyItems, ih, List.map_cons]

theorem prettyMembers_eq_map (level : Nat) (members : List (String × Json)) :
    prettyMembers level members =
      members.map fun member =>
        newline level ++ quote member.1 ++ ": " ++ member.2.prettyAt level := by
  induction members with
  | nil => rfl
  | cons member members ih =>
      obtain ⟨k, v⟩ := member
      rw [prettyMembers, ih, List.map_cons]

/-- Texts with a comma between them: a comma before each but the first. -/
theorem intercalate_comma (text : List Char) (texts : List (List Char)) :
    [','].intercalate (text :: texts) = text ++ texts.flatMap fun text => ',' :: text := by
  induction texts generalizing text with
  | nil => simp [List.intercalate]
  | cons next texts ih =>
      rw [List.intercalate_cons_cons, ih, List.flatMap_cons]
      simp

theorem toList_array (level : Nat) (x : Json) (items : List Json) :
    ((Json.array (x :: items)).prettyAt level).toList = '[' :: (itemText (level + 1) x ++
      (items.flatMap (fun x => ',' :: itemText (level + 1) x) ++
        ((newline level).toList ++ [']']))) := by
  have hitem : String.toList ∘ (fun x => newline (level + 1) ++ prettyAt (level + 1) x) =
      itemText (level + 1) := by
    funext x
    rw [Function.comp_apply, String.toList_append, itemText]
  have hcomma : ",".toList = [','] := rfl
  have hopen : "[".toList = ['['] := rfl
  have hclose : "]".toList = [']'] := rfl
  rw [prettyAt, prettyItems_eq_map, String.toList_append, String.toList_append,
    String.toList_append, String.toList_intercalate, List.map_map, hitem, List.map_cons, hcomma,
    intercalate_comma, List.flatMap_map, hopen, hclose]
  simp only [List.append_assoc, List.cons_append, List.nil_append]

theorem toList_object (level : Nat) (member : String × Json) (members : List (String × Json)) :
    ((Json.object (member :: members)).prettyAt level).toList =
      '\x7b' :: (memberText (newline (level + 1)).toList (valueText (level + 1)) member ++
        (members.flatMap
            (fun member => ',' :: memberText (newline (level + 1)).toList
              (valueText (level + 1)) member) ++
          ((newline level).toList ++ ['\x7d']))) := by
  have hmember : String.toList ∘
        (fun member : String × Json =>
          newline (level + 1) ++ quote member.1 ++ ": " ++ member.2.prettyAt (level + 1)) =
      memberText (newline (level + 1)).toList (valueText (level + 1)) := by
    funext member
    have hcolon : ": ".toList = [':', ' '] := rfl
    rw [Function.comp_apply, String.toList_append, String.toList_append, String.toList_append,
      quote, String.toList_ofList, hcolon, memberText, valueText]
    simp only [List.append_assoc, List.cons_append, List.nil_append]
  have hcomma : ",".toList = [','] := rfl
  have hopen : "\x7b".toList = ['\x7b'] := rfl
  have hclose : "\x7d".toList = ['\x7d'] := rfl
  rw [prettyAt, prettyMembers_eq_map, String.toList_append, String.toList_append,
    String.toList_append, String.toList_intercalate, List.map_map, hmember, List.map_cons,
    hcomma, intercalate_comma, List.flatMap_map, hopen, hclose]
  simp only [List.append_assoc, List.cons_append, List.nil_append]

/-! ## Trees -/

mutual

/-- The floats in a tree. -/
def floats : Json → List Binary64
  | .number (.float x) => [x]
  | .array items => itemsFloats items
  | .object members => membersFloats members
  | _ => []

/-- The floats in the items. -/
def itemsFloats : List Json → List Binary64
  | [] => []
  | x :: xs => x.floats ++ itemsFloats xs

/-- The floats in the values of the members. -/
def membersFloats : List (String × Json) → List Binary64
  | [] => []
  | (_, v) :: ms => v.floats ++ membersFloats ms

end

theorem floats_subset_itemsFloats {x : Json} {items : List Json} (h : x ∈ items) :
    x.floats ⊆ itemsFloats items := by
  induction items with
  | nil => simp at h
  | cons y items ih =>
      rw [itemsFloats]
      rcases List.mem_cons.1 h with rfl | h
      · exact List.subset_append_left _ _
      · exact List.subset_append_of_subset_right _ (ih h)

theorem floats_subset_membersFloats {member : String × Json} {members : List (String × Json)}
    (h : member ∈ members) :
    member.2.floats ⊆ membersFloats members := by
  induction members with
  | nil => simp at h
  | cons other members ih =>
      obtain ⟨k, v⟩ := other
      rw [membersFloats]
      rcases List.mem_cons.1 h with rfl | h
      · exact List.subset_append_left _ _
      · exact List.subset_append_of_subset_right _ (ih h)

/-- **A tree that can be read back**: it is well formed, and every float in it is read back. -/
structure Readable (json : Json) : Prop where
  wellFormed : json.wellFormed = true
  floats : ∀ x ∈ json.floats, (JsonNumber.float x).ReadsBack

theorem Readable.of_mem_array {items : List Json} (h : Readable (.array items)) {x : Json}
    (hx : x ∈ items) :
    Readable x where
  wellFormed := wellFormed_array_iff.1 h.wellFormed x hx
  floats y hy := h.floats y (by
    rw [Json.floats]
    exact floats_subset_itemsFloats hx hy)

theorem Readable.of_mem_object {members : List (String × Json)} (h : Readable (.object members))
    {member : String × Json} (hmember : member ∈ members) : Readable member.2 where
  wellFormed := (wellFormed_object_iff.1 h.wellFormed).2 member hmember
  floats y hy := h.floats y (by
    rw [Json.floats]
    exact floats_subset_membersFloats hmember hy)

theorem Readable.readsBack {n : JsonNumber} (h : Readable (.number n)) : n.ReadsBack := by
  cases n with
  | int n => exact JsonNumber.readsBack_int h.wellFormed
  | float x => exact h.floats x (by simp [Json.floats])

theorem value_skipSpace (fuel room : Nat) (text : List Char) :
    value fuel room (skipSpace text) = value fuel room text := by
  cases fuel with
  | zero => rfl
  | succ fuel => rw [value, value, skipSpace_skipSpace]

/-- The text of a tree starts with another character than a closing bracket. -/
theorem exists_skipSpace_prettyAt {json : Json} (h : Readable json) (level : Nat) :
    ∃ c more, skipSpace (json.prettyAt level).toList = c :: more ∧ c ≠ ']' := by
  cases json with
  | null =>
      rw [prettyAt]
      exact ⟨'n', "ull".toList, rfl, by decide⟩
  | bool b =>
      cases b with
      | true =>
          rw [prettyAt]
          exact ⟨'t', "rue".toList, rfl, by decide⟩
      | false =>
          rw [prettyAt]
          exact ⟨'f', "alse".toList, rfl, by decide⟩
  | number n =>
      rw [prettyAt]
      rcases exists_numeral h.readsBack with ⟨more, hskip, -⟩ | ⟨c, more, hskip, hdigit, -⟩
      · exact ⟨'-', more, hskip, by decide⟩
      · refine ⟨c, more, hskip, ?_⟩
        rintro rfl
        exact absurd hdigit (by decide)
  | string s =>
      rw [prettyAt, quote, String.toList_ofList, quoteChars]
      exact ⟨'"', _, rfl, by decide⟩
  | array items =>
      cases items with
      | nil =>
          rw [prettyAt]
          exact ⟨'[', [']'], rfl, by decide⟩
      | cons x items =>
          rw [toList_array]
          exact ⟨'[', _, rfl, by decide⟩
  | object members =>
      cases members with
      | nil =>
          rw [prettyAt]
          exact ⟨'\x7b', ['\x7d'], rfl, by decide⟩
      | cons member members =>
          rw [toList_object]
          exact ⟨'\x7b', _, rfl, by decide⟩

/-- One more item of an array. -/
def pushItem (fuel room : Nat) (items : List Json) : Reader (List Json) := fun text => do
  let (item, text) ← value fuel room text
  return (item :: items, text)

/-- One more member of an object. -/
def pushMember (fuel room : Nat) (members : List (String × Json)) (key : String) :
    Reader (List (String × Json)) :=
  fun text => do
    let (item, text) ← value fuel room (← afterColon text)
    return ((key, item) :: members, text)

theorem value_string (fuel room : Nat) (text : List Char) :
    value (fuel + 1) room ('"' :: text) =
      (do let (s, text) ← stringTail [] text; return (.string s, text)) := by
  rw [value, skipSpace_cons rfl]
  rfl

theorem value_array {room : Nat} (hroom : 1 < room) (fuel : Nat) (text : List Char) :
    value (fuel + 1) room ('[' :: text) =
      (do let (items, text) ← foldItems (pushItem fuel (room - 1)) (fuel + 1) true [] text
          return (.array items.reverse, text)) := by
  have hroom' : ¬room ≤ 1 := Nat.not_le.2 hroom
  rw [value, skipSpace_cons rfl]
  simp only [hroom', if_false]
  rfl

theorem value_object {room : Nat} (hroom : 1 < room) (fuel : Nat) (text : List Char) :
    value (fuel + 1) room ('\x7b' :: text) =
      (do let (members, text) ← foldMembers (pushMember fuel (room - 1)) (fuel + 1) true [] text
          return (.object members.reverse, text)) := by
  have hroom' : ¬room ≤ 1 := Nat.not_le.2 hroom
  rw [value, skipSpace_cons rfl]
  simp only [hroom', if_false]
  rfl

/-- An item whose text is read as it is pushed, whatever comes after it. -/
theorem takes_pushItem {x : Json} (h : Readable x) {level fuel room : Nat}
    (hread : ∀ rest, Ends rest → value fuel room ((x.prettyAt level).toList ++ rest) =
      .ok (x, rest))
    (items : List Json) : Takes (pushItem fuel room) items (itemText level x) (x :: items) := by
  intro rest hrest
  obtain ⟨c, more, hskip, hc⟩ := exists_skipSpace_prettyAt h level
  have hskip' : skipSpace (itemText level x ++ rest) = c :: (more ++ rest) := by
    rw [itemText, List.append_assoc, skipSpace_blank (blank_newline level),
      skipSpace_append hskip]
  refine ⟨c, more ++ rest, hskip', hc, ?_⟩
  -- The step sees the text without its blanks, the hypothesis is about the text with them.
  have hvalue := hread rest hrest
  rw [← value_skipSpace, skipSpace_append hskip] at hvalue
  rw [pushItem, hvalue]
  rfl

theorem afterColon_colon (text : List Char) : afterColon (':' :: text) = .ok text := rfl

/-- The blank before the value of a member makes no difference. -/
theorem value_valueText {x : Json} {level fuel room : Nat}
    (hread : ∀ rest, Ends rest → value fuel room ((x.prettyAt level).toList ++ rest) =
      .ok (x, rest))
    {rest : List Char} (hrest : Ends rest) :
    value fuel room (valueText level x ++ rest) = .ok (x, rest) := by
  rw [← value_skipSpace, skipSpace_valueText, value_skipSpace]
  exact hread rest hrest

/-- A member whose value is read is pushed, whatever comes after it. -/
theorem pushMember_valueText {x : Json} {level fuel room : Nat}
    (hread : ∀ rest, Ends rest → value fuel room ((x.prettyAt level).toList ++ rest) =
      .ok (x, rest))
    (members : List (String × Json)) (key : String) {rest : List Char} (hrest : Ends rest) :
    pushMember fuel room members key (':' :: (valueText level x ++ rest)) =
      .ok ((key, x) :: members, rest) := by
  rw [pushMember, afterColon_colon, ok_bind, value_valueText hread hrest]
  rfl

theorem length_lt_flatMap {β : Type} (text : β → List Char) {parts : List β} {part : β}
    (h : part ∈ parts) :
    (text part).length < (parts.flatMap fun part => ',' :: text part).length := by
  obtain ⟨before, after, rfl⟩ := List.append_of_mem h
  simp only [List.flatMap_append, List.flatMap_cons, List.length_append, List.length_cons]
  omega

theorem length_le_flatMap {β : Type} (text : β → List Char) (parts : List β) :
    parts.length ≤ (parts.flatMap fun part => ',' :: text part).length := by
  induction parts with
  | nil => exact Nat.le_refl _
  | cons part parts ih =>
      rw [List.flatMap_cons, List.length_append, List.length_cons, List.length_cons]
      omega

/-- The text of an item is shorter than that of the array. -/
theorem length_item_lt {y x : Json} {items : List Json} (level : Nat) (hy : y ∈ x :: items) :
    (y.prettyAt (level + 1)).toList.length <
      ((Json.array (x :: items)).prettyAt level).toList.length := by
  have hitem : (y.prettyAt (level + 1)).toList.length ≤ (itemText (level + 1) y).length := by
    rw [itemText, List.length_append]
    exact Nat.le_add_left _ _
  rw [toList_array]
  simp only [List.length_cons, List.length_append]
  rcases List.mem_cons.1 hy with rfl | hy
  · omega
  · have hlt := length_lt_flatMap (itemText (level + 1)) hy
    omega

/-- An array has less items than its text has characters. -/
theorem length_items_lt (level : Nat) (x : Json) (items : List Json) :
    (x :: items).length < ((Json.array (x :: items)).prettyAt level).toList.length := by
  have hle := length_le_flatMap (itemText (level + 1)) items
  rw [toList_array]
  simp only [List.length_cons, List.length_append, List.length_nil]
  omega

/-- The text of the value of a member is shorter than that of the object. -/
theorem length_member_lt {member first : String × Json} {members : List (String × Json)}
    (level : Nat) (hmember : member ∈ first :: members) :
    (member.2.prettyAt (level + 1)).toList.length <
      ((Json.object (first :: members)).prettyAt level).toList.length := by
  have hvalue : (member.2.prettyAt (level + 1)).toList.length ≤
      (memberText (newline (level + 1)).toList (valueText (level + 1)) member).length := by
    rw [memberText, valueText]
    simp only [List.length_append, List.length_cons]
    omega
  rw [toList_object]
  simp only [List.length_cons, List.length_append]
  rcases List.mem_cons.1 hmember with rfl | hmember
  · omega
  · have hlt :=
      length_lt_flatMap (memberText (newline (level + 1)).toList (valueText (level + 1)))
        hmember
    omega

/-- An object has less members than its text has characters. -/
theorem length_members_lt (level : Nat) (member : String × Json)
    (members : List (String × Json)) :
    (member :: members).length <
      ((Json.object (member :: members)).prettyAt level).toList.length := by
  have hle :=
    length_le_flatMap (memberText (newline (level + 1)).toList (valueText (level + 1))) members
  rw [toList_object]
  simp only [List.length_cons, List.length_append, List.length_nil]
  omega

theorem value_array_cons {x : Json} {items : List Json} {level fuel room : Nat}
    (h : ∀ y ∈ x :: items, Readable y) (hfuel : (x :: items).length < fuel + 1)
    (hroom : 1 < room)
    (hread : ∀ y ∈ x :: items, ∀ rest, Ends rest →
      value fuel (room - 1) ((y.prettyAt (level + 1)).toList ++ rest) = .ok (y, rest))
    (rest : List Char) :
    value (fuel + 1) room (((Json.array (x :: items)).prettyAt level).toList ++ rest) =
      .ok (.array (x :: items), rest) := by
  have hstep : ∀ y ∈ x :: items, ∀ items,
      Takes (pushItem fuel (room - 1)) items (itemText (level + 1) y) (y :: items) :=
    fun y hy items => takes_pushItem (h y hy) (hread y hy) items
  rw [toList_array]
  simp only [List.cons_append, List.append_assoc, List.nil_append]
  rw [value_array hroom, foldItems_text hstep hfuel [] (blank_newline level),
    List.foldl_flip_cons_eq_append', List.append_nil]
  exact congrArg (fun items => Except.ok (Json.array items, rest)) (List.reverse_reverse _)

theorem value_object_cons {member : String × Json} {members : List (String × Json)}
    {level fuel room : Nat} (hfuel : (member :: members).length < fuel + 1) (hroom : 1 < room)
    (hread : ∀ m ∈ member :: members, ∀ rest, Ends rest →
      value fuel (room - 1) ((m.2.prettyAt (level + 1)).toList ++ rest) = .ok (m.2, rest))
    (rest : List Char) :
    value (fuel + 1) room (((Json.object (member :: members)).prettyAt level).toList ++ rest) =
      .ok (.object (member :: members), rest) := by
  have hstep : ∀ m ∈ member :: members, ∀ members rest, Ends rest →
      pushMember fuel (room - 1) members m.1 (':' :: (valueText (level + 1) m.2 ++ rest)) =
        .ok (m :: members, rest) :=
    fun m hm members rest hrest => pushMember_valueText (hread m hm) members m.1 hrest
  rw [toList_object]
  simp only [List.cons_append, List.append_assoc, List.nil_append]
  rw [value_object hroom, foldMembers_text (blank_newline _) (blank_newline _) hstep hfuel,
    List.foldl_flip_cons_eq_append', List.append_nil]
  exact congrArg (fun members => Except.ok (Json.object members, rest)) (List.reverse_reverse _)

theorem exists_fuel {json : Json} (h : Readable json) {level fuel : Nat}
    (hfuel : (json.prettyAt level).toList.length ≤ fuel) : ∃ m, fuel = m + 1 := by
  obtain ⟨c, more, hskip, -⟩ := exists_skipSpace_prettyAt h level
  refine Nat.exists_eq_add_one.2 (Nat.lt_of_lt_of_le ?_ hfuel)
  rw [List.length_pos_iff]
  intro hempty
  rw [hempty] at hskip
  contradiction

/-- **The text of a tree is read as the tree**, with fuel for its length and room for its
depth. -/
theorem value_prettyAt {json : Json} (h : Readable json) {level fuel room : Nat}
    (hfuel : (json.prettyAt level).toList.length ≤ fuel) (hroom : json.depth < room)
    {rest : List Char} (hrest : Ends rest) :
    value fuel room ((json.prettyAt level).toList ++ rest) = .ok (json, rest) := by
  induction json using Json.induction generalizing level fuel room rest with
  | null =>
      obtain ⟨fuel, rfl⟩ := exists_fuel h hfuel
      rw [prettyAt, value]
      rfl
  | bool b =>
      obtain ⟨fuel, rfl⟩ := exists_fuel h hfuel
      cases b with
      | true =>
          rw [prettyAt, value]
          rfl
      | false =>
          rw [prettyAt, value]
          rfl
  | number n =>
      obtain ⟨fuel, rfl⟩ := exists_fuel h hfuel
      rw [prettyAt]
      exact value_number h.readsBack fuel room hrest
  | string s =>
      obtain ⟨fuel, rfl⟩ := exists_fuel h hfuel
      rw [prettyAt, quote, String.toList_ofList, quoteChars, List.cons_append,
        List.append_assoc, List.singleton_append, value_string, stringTail_quoteChars,
        List.reverse_nil, List.nil_append, String.ofList_toList]
      rfl
  | array items ih =>
      obtain ⟨fuel, rfl⟩ := exists_fuel h hfuel
      cases items with
      | nil =>
          have hopen : "[]".toList = ['[', ']'] := rfl
          rw [prettyAt, hopen, List.cons_append, List.singleton_append, value_array hroom]
          rfl
      | cons x items =>
          have hreadable : ∀ y ∈ x :: items, Readable y := fun y hy => h.of_mem_array hy
          have hitems := length_items_lt level x items
          have hx : x.depth < (Json.array (x :: items)).depth :=
            depth_lt_of_mem_array List.mem_cons_self
          -- The text of an item is shorter, so the fuel lasts, and an item is less deep, so the
          -- room does.
          refine value_array_cons hreadable (by omega) (by omega)
            (fun y hy rest hrest => ?_) rest
          have hlength := length_item_lt level hy
          have hdepth := depth_lt_of_mem_array hy
          exact ih y hy (hreadable y hy) (by omega) (by omega) hrest
  | object members ih =>
      obtain ⟨fuel, rfl⟩ := exists_fuel h hfuel
      cases members with
      | nil =>
          have hopen : "\x7b\x7d".toList = ['\x7b', '\x7d'] := rfl
          rw [prettyAt, hopen, List.cons_append, List.singleton_append, value_object hroom]
          rfl
      | cons member members =>
          have hmembers := length_members_lt level member members
          have hmember : member.2.depth < (Json.object (member :: members)).depth :=
            depth_lt_of_mem_object List.mem_cons_self
          refine value_object_cons (by omega) (by omega) (fun m hm rest hrest => ?_) rest
          have hlength := length_member_lt level hm
          have hdepth := depth_lt_of_mem_object hm
          exact ih m hm (h.of_mem_object hm) (by omega) (by omega) hrest

end AvroBindings.Json
