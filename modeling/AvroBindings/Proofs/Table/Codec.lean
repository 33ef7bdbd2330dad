import AvroBindings.Table.Codec
import AvroBindings.Proofs.Json.Text
import AvroBindings.Proofs.NamedType.Codec

/-!
# Descriptor tables are read back

The text that a table is written as is read as the table.

## Main Statements

* `Table.readEntry_toJson` — the text of a named type is read as the named type.
* `Table.read_pretty` — the text of a table is read as the table.

## Design Notes

The reader decodes a named type while it reads it: the kind comes first, and the other members
are held back until the end of the object.
-/

namespace AvroBindings

open Json

namespace Table

variable {fuel room level : Nat} {kind : String}

theorem readKind_valueText (hkind : NamedType.isKind kind = true) (rest : List Char) :
    readKind fuel room (valueText level (.string kind) ++ rest) = .ok (kind, rest) := by
  have hskip : ∀ text : List Char, skipSpace (' ' :: '"' :: text) = '"' :: text := fun _ => rfl
  rw [valueText, prettyAt, quote, String.toList_ofList, quoteChars]
  simp only [List.cons_append, List.append_assoc, List.nil_append]
  rw [readKind, hskip]
  change (stringTail [] (kind.toList.flatMap escape ++ '"' :: rest) >>= fun read =>
    if NamedType.isKind read.1 then .ok (read.1, read.2) else .error .mistyped) = _
  rw [stringTail_quoteChars, List.reverse_nil, List.nil_append, String.ofList_toList]
  exact if_pos hkind

/-- The kind is read first. -/
theorem readMember_kind (hkind : NamedType.isKind kind = true) (rest : List Char) :
    readMember fuel room ⟨none, []⟩ "type" (':' :: (valueText level (.string kind) ++ rest)) =
      .ok (⟨some kind, []⟩, rest) := by
  rw [readMember, if_pos rfl, if_neg (by simp), afterColon_colon, ok_bind,
    readKind_valueText hkind]
  rfl

/-- Any other member is held back. -/
theorem readMember_valueText {x : Json}
    (hread : ∀ rest, Ends rest →
      value fuel room ((x.prettyAt level).toList ++ rest) = .ok (x, rest))
    {key : String} (hkey : key ≠ "type") (draft : Draft) {rest : List Char}
    (hrest : Ends rest) :
    readMember fuel room draft key (':' :: (valueText level x ++ rest)) =
      .ok (⟨draft.kind, (key, x) :: draft.members⟩, rest) := by
  rw [readMember, if_neg hkey, afterColon_colon, ok_bind, value_valueText hread hrest]
  rfl

/-- The other members are held back one after another. -/
theorem foldl_hold (draft : Draft) (members : List (String × Json)) :
    members.foldl (fun draft member => ⟨draft.kind, (member.1, member.2) :: draft.members⟩)
      draft =
      ⟨draft.kind, members.reverse ++ draft.members⟩ := by
  induction members generalizing draft with
  | nil => rfl
  | cons member members ih =>
      rw [List.foldl_cons, ih]
      simp

/-- An object that starts with its kind is read as what the kind and its other members stand
for. -/
theorem readEntry_tagged {members : List (String × Json)} {type : NamedType}
    (hkind : NamedType.isKind kind = true)
    (htype : NamedType.ofTagged? kind (.object members) = some type)
    (h : Readable (.object (("type", .string kind) :: members)))
    (hfuel : ((Json.object (("type", .string kind) :: members)).prettyAt level).toList.length ≤
      fuel)
    (hroom : (Json.object (("type", .string kind) :: members)).depth < room)
    (rest : List Char) :
    readEntry fuel room
      (((Json.object (("type", .string kind) :: members)).prettyAt level).toList ++ rest) =
      .ok (type, rest) := by
  have hkeys : "type" ∉ Entries.keys members :=
    (List.nodup_cons.1 (wellFormed_object_iff.1 h.wellFormed).1).1
  have hread : ∀ member ∈ members, ∀ (draft : Draft) rest, Ends rest →
      readMember fuel (room - 1) draft member.1
        (':' :: (valueText (level + 1) member.2 ++ rest)) =
        .ok (⟨draft.kind, (member.1, member.2) :: draft.members⟩, rest) := by
    intro member hmember draft rest hrest
    have hmem : member ∈ ("type", .string kind) :: members := List.mem_cons_of_mem _ hmember
    have hlength := length_member_lt level hmem
    have hdepth := depth_lt_of_mem_object hmem
    refine readMember_valueText (fun rest hrest => ?_) ?_ draft hrest
    · exact value_prettyAt (h.of_mem_object hmem) (by omega) (by omega) hrest
    · rintro heq
      exact hkeys (heq ▸ List.mem_map_of_mem hmember)
  have hcount := length_members_lt level ("type", .string kind) members
  rw [List.length_cons] at hcount
  obtain ⟨fuel, rfl⟩ : ∃ m, fuel = m + 1 := Nat.exists_eq_add_one.2 (by omega)
  have hroom' : ¬room ≤ 1 := by
    rw [depth] at hroom
    omega
  have hrest := foldMembers_rest (blank_newline (level + 1)) (blank_newline level) hread
    (show members.length < fuel by omega) ⟨some kind, []⟩ rest
  rw [toList_object, memberText]
  simp only [List.cons_append, List.append_assoc, List.nil_append]
  rw [readEntry, skipSpace_cons rfl]
  simp only [hroom', if_false]
  -- Only the first member is the kind; the others are folded over with the kind known.
  rw [foldMembers_first _ _ (blank_newline _), readMember_kind hkind, ok_bind]
  dsimp only
  rw [hrest, ok_bind, foldl_hold, List.append_nil, List.reverse_reverse, finishEntry,
    Option.bind_some, htype]

/-- **The text of a named type is read as the named type.** -/
theorem readEntry_toJson {type : NamedType} (hdefaults : type.DefaultsWellFormed)
    (h : Readable type.toJson) (hfuel : (type.toJson.prettyAt level).toList.length ≤ fuel)
    (hroom : type.toJson.depth < room) (rest : List Char) :
    readEntry fuel room ((type.toJson.prettyAt level).toList ++ rest) = .ok (type, rest) := by
  obtain ⟨kind, members, hjson, hkind, htype⟩ := NamedType.exists_tagged hdefaults
  rw [hjson] at h hfuel hroom ⊢
  exact readEntry_tagged hkind htype h hfuel hroom rest

/-! ## Whole tables -/

theorem defaultsWellFormed_of_mem {table : Table} (h : table.wellFormed = true)
    {entry : String × NamedType} (hentry : entry ∈ table.entries) :
    entry.2.DefaultsWellFormed := by
  intro record hrecord field hfield default hdefault
  have hfields : field ∈ table.fields := by
    refine List.mem_flatMap.2 ⟨entry, hentry, ?_⟩
    rw [hrecord]
    exact hfield
  have hmem : default ∈ table.defaults := List.mem_filterMap.2 ⟨field, hfields, hdefault⟩
  exact itemsWellFormed_iff.1 h default hmem

/-- A table is written as a well-formed tree. -/
theorem wellFormed_toJson {table : Table} (hdistinct : table.names.Nodup)
    (h : table.wellFormed = true) :
    table.toJson.wellFormed = true := by
  have hkeys : Entries.keys
      (table.entries.map fun entry => (entry.1, NamedType.toJson entry.2)) = table.names := by
    rw [Entries.keys, List.map_map]
    rfl
  refine wellFormed_object_iff.2 ⟨?_, ?_⟩
  · rwa [hkeys]
  · rw [List.forall_mem_map]
    exact fun entry hentry => NamedType.wellFormed_toJson (defaultsWellFormed_of_mem h hentry)

/-- One more entry of a table. -/
def readStep (fuel room : Nat) (entries : Entries NamedType) (key : String) :
    Reader (Entries NamedType) :=
  fun text => do
    let (type, text) ← readEntry fuel room (← afterColon text)
    return (Entries.insert key type entries, text)

theorem readEntries_of_fold {text rest : List Char} {entries : Entries NamedType}
    (h : foldMembers (readStep fuel (room - 1)) fuel true [] text = .ok (entries, rest)) :
    readEntries fuel room ('\x7b' :: text) = .ok (⟨entries⟩, rest) := by
  rw [readEntries, skipSpace_cons rfl]
  change (foldMembers (readStep fuel (room - 1)) fuel true [] text >>= fun read =>
    .ok (Table.mk read.1, read.2)) = _
  rw [h]
  rfl

theorem readEntry_skipSpace (text : List Char) :
    readEntry fuel room (skipSpace text) = readEntry fuel room text := by
  rw [readEntry, readEntry, skipSpace_skipSpace]

/-- An entry is read and put in under its key. -/
theorem readStep_valueText {type : NamedType} (hdefaults : type.DefaultsWellFormed)
    (h : Readable type.toJson) (hfuel : (type.toJson.prettyAt level).toList.length ≤ fuel)
    (hroom : type.toJson.depth < room) (entries : Entries NamedType) (key : String)
    (rest : List Char) :
    readStep fuel room entries key (':' :: (valueText level type.toJson ++ rest)) =
      .ok (Entries.insert key type entries, rest) := by
  rw [readStep, afterColon_colon, ok_bind, ← readEntry_skipSpace, skipSpace_valueText,
    readEntry_skipSpace, readEntry_toJson hdefaults h hfuel hroom]
  rfl

/-- The text of a table is read as its entries, put in one after another. -/
theorem readEntries_toJson {table : Table} (hdefaults : table.wellFormed = true)
    (h : Readable table.toJson) (hfuel : (table.toJson.prettyAt level).toList.length < fuel)
    (hroom : table.toJson.depth < room) :
    readEntries fuel room (table.toJson.prettyAt level).toList =
      .ok (⟨Entries.ofPairs table.entries⟩, []) := by
  obtain ⟨entries⟩ := table
  obtain ⟨fuel, rfl⟩ : ∃ m, fuel = m + 1 := Nat.exists_eq_add_one.2 (by omega)
  cases entries with
  | nil =>
      have hopen : "\x7b\x7d".toList = ['\x7b', '\x7d'] := rfl
      rw [toJson, List.map_nil, prettyAt, hopen]
      exact readEntries_of_fold rfl
  | cons entry entries =>
      let members := (entry.1, entry.2.toJson) :: entries.map fun entry =>
        (entry.1, entry.2.toJson)
      have hmember : ∀ e ∈ entry :: entries, (e.1, e.2.toJson) ∈ members := fun e he =>
        List.mem_map_of_mem (f := fun entry : String × NamedType => (entry.1, entry.2.toJson))
          he
      have hcount := length_members_lt level (entry.1, entry.2.toJson)
        (entries.map fun entry => (entry.1, entry.2.toJson))
      have hstep : ∀ e ∈ entry :: entries, ∀ state rest, Ends rest →
          readStep (fuel + 1) (room - 1) state e.1
            (':' :: (valueText (level + 1) e.2.toJson ++ rest)) =
            .ok (Entries.insert e.1 e.2 state, rest) := by
        intro e he state rest _
        have hreadable := h.of_mem_object (hmember e he)
        have hlength := length_member_lt level (hmember e he)
        have hdepth := depth_lt_of_mem_object (hmember e he)
        refine readStep_valueText (defaultsWellFormed_of_mem hdefaults he) hreadable ?_ ?_ state
          e.1 rest
        · exact Nat.le_of_lt (Nat.lt_trans hlength hfuel)
        · exact Nat.lt_sub_of_add_lt (Nat.lt_of_le_of_lt hdepth hroom)
      have hlength : entries.length + 1 < fuel + 1 := by
        rw [List.length_cons, List.length_map] at hcount
        exact Nat.lt_trans hcount hfuel
      have hfold :=
        @foldMembers_text _ NamedType (readStep (fuel + 1) (room - 1))
          (fun entries entry => Entries.insert entry.1 entry.2 entries)
          (fun type => valueText (level + 1) type.toJson) entry entries _ _
          (blank_newline (level + 1)) (blank_newline level) hstep _ hlength [] []
      rw [toJson, List.map_cons, toList_object, List.flatMap_map]
      exact readEntries_of_fold hfold

/-- **The text of a table is read as the table**: with the same keys, fields and symbols in the
same order, without a default where there is none, and with null where the default is null. -/
theorem read_pretty {table : Table} (hdistinct : table.names.Nodup)
    (hdefaults : table.wellFormed = true) (hdepth : table.toJson.depth < 128)
    (hfloats : ∀ x ∈ table.toJson.floats, (JsonNumber.float x).ReadsBack) :
    Table.read table.toJson.pretty = .ok table := by
  have hreadable : Readable table.toJson := ⟨wellFormed_toJson hdistinct hdefaults, hfloats⟩
  have hread :
      readEntries (table.toJson.pretty.toList.length + 1) 128 table.toJson.pretty.toList =
      .ok (⟨Entries.ofPairs table.entries⟩, []) :=
    readEntries_toJson hdefaults hreadable (Nat.lt_succ_self _) hdepth
  rw [Entries.ofPairs_of_nodup hdistinct] at hread
  rw [Table.read, fuelFor, nestingRoom, hread]
  rfl

end Table

end AvroBindings
