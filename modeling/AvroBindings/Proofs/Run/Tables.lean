import AvroBindings.Proofs.Run.Emission
import AvroBindings.Proofs.Table.Codec
import AvroBindings.Run.Program

/-!
# Tables in files

A table that is written to a file and read from it again.

## Main Statements

* `Workspace.perform_writeTable_eq_ok_iff` — writing a table stores its text.
* `Workspace.perform_readTable_eq_ok_iff` — a table is read exactly if the text of the file is
  that of one.
* `Workspace.readTable_of_writeTable` — what was written is read back.

## Design Notes

**Two halves.**  That a text is read as the table it was made of is a fact about texts,
`Table.read_pretty`.  That the text which is read is the one that was written is a fact about
files: the path is followed again, through the directories that were made for it, to the place
where the text was put.
-/

namespace AvroBindings

namespace Workspace

variable {workspace workspace' : Workspace} {path : Path} {table : Table}

/-- Writing a table stores its text. -/
theorem perform_writeTable_eq_ok_iff :
    (writeTable table path).perform workspace = (.ok (), workspace') ↔
      workspace.files.Stores path table.toJson.pretty workspace'.files ∧
        workspace'.outside = workspace.outside := by
  have hparents : (writeTable table path).perform workspace =
      (do makeParents path; writeText path table.toJson.pretty : Action Workspace Unit).perform
        workspace := by
    unfold writeTable makeParents
    cases path.parent? with
    | none => rfl
    | some parent =>
        obtain ⟨text⟩ := parent
        by_cases hempty : text = ""
        · -- Nothing is made for the start of a path.
          have hstart : (makeDirectories ⟨text⟩).perform workspace = (.ok (), workspace) := by
            subst hempty
            rfl
          simp [hempty, Action.perform_bind, hempty ▸ hstart]
        · simp [hempty]
  rw [hparents, perform_store_eq_ok_iff]

/-- A table is read exactly if its file has a text that is that of a table. -/
theorem perform_readTable_eq_ok_iff :
    (readTable path).perform workspace = (.ok table, workspace') ↔
      (∃ text, workspace.files.readText path = .ok text ∧ Table.read text = .ok table) ∧
        workspace' = workspace := by
  rw [readTable, Action.perform_bind_eq_ok_iff]
  simp only [perform_readText_eq_ok_iff]
  constructor
  · rintro ⟨text, next, ⟨hread, rfl⟩, h⟩
    split at h
    next table' htable =>
      obtain ⟨hsame, rfl⟩ := Prod.mk.inj h
      obtain rfl := Except.ok.inj hsame
      exact ⟨⟨text, hread, htable⟩, rfl⟩
    next => simp at h
  · rintro ⟨⟨text, hread, htable⟩, rfl⟩
    exact ⟨text, workspace', ⟨hread, rfl⟩, by rw [htable]; rfl⟩

/-- **A table that was written is read back**: with the same keys, fields, symbols and types in
the same order, without a default where there is none, and with null where the default is null.
Its file can be written wherever a file can be stored under the path, and then holds its
text. -/
theorem readTable_of_writeTable (hdistinct : table.names.Nodup)
    (hdefaults : table.wellFormed = true) (hdepth : table.toJson.depth < 128)
    (hfloats : ∀ x ∈ table.toJson.floats, (JsonNumber.float x).ReadsBack) (path : Path)
    (workspace : Workspace) :
    (FileTree.EndsInName path → workspace.files.Ready path →
      ∃ workspace', (writeTable table path).perform workspace = (.ok (), workspace')) ∧
    ∀ workspace', (writeTable table path).perform workspace = (.ok (), workspace') →
      workspace'.files.readText path = .ok table.toJson.pretty ∧
        (readTable path).perform workspace' = (.ok table, workspace') := by
  constructor
  · rintro ⟨init, name, hpieces, hname, hup⟩ hready
    obtain ⟨files, hstores⟩ := hready.exists_stores hpieces hname hup table.toJson.pretty
    exact ⟨⟨files, workspace.outside⟩, perform_writeTable_eq_ok_iff.2 ⟨hstores, rfl⟩⟩
  · intro workspace' hwrite
    obtain ⟨hstores, -⟩ := perform_writeTable_eq_ok_iff.1 hwrite
    obtain ⟨hready, hholds⟩ := hstores.ready_and_holds
    have hfollows : workspace'.files.Follows path := ⟨hready.valid, hready.fits, hholds.way⟩
    have htext : workspace'.files.readText path = .ok table.toJson.pretty :=
      FileTree.readText_eq_ok_iff.2 ⟨hfollows, hholds.file⟩
    have hread := Table.read_pretty hdistinct hdefaults hdepth hfloats
    exact ⟨htext, perform_readTable_eq_ok_iff.2 ⟨⟨_, htext, hread⟩, rfl⟩⟩

/-- A table whose first key is not the name of its entry.  One field has no default, one has
null, and one has an object with a float, a negative integer and a string with escapes. -/
def defaultedTable : Table :=
  ⟨[("a.Key", .record ⟨"b.Name",
      [⟨"z", .optional (.list (.map (.named "c.Choice"))), some .null, some "line\nbreak"⟩,
        ⟨"a", .union [.primitive .integer, .primitive .string], none, none⟩,
        ⟨"m", .map (.primitive .float),
          some (.object [("half", .number (.float ⟨0x3FE0000000000000⟩)),
            ("minus", .array [.number (.int (-3))]), ("quote", .string "\"\x01")]), none⟩],
      none⟩),
    ("c.Choice", .enum ⟨"c.Choice", ["Y", "X"], some ""⟩)]⟩

/-- One half is read back. -/
theorem readsBack_half : (JsonNumber.float ⟨0x3FE0000000000000⟩).ReadsBack := by
  have hwrite : (JsonNumber.float ⟨0x3FE0000000000000⟩).write = "0.5" := by decide +kernel
  have hread : Json.numberTail false "0.5".toList = .ok (.float ⟨0x3FE0000000000000⟩, []) := by
    decide +kernel
  have htext : "0.5".toList = ['0', '.', '5'] := rfl
  rw [JsonNumber.ReadsBack, hwrite]
  rw [htext] at hread ⊢
  rw [Json.value_digit (show Json.skipSpace ['0', '.', '5'] = '0' :: ['.', '5'] from rfl)
    (by decide), hread]
  rfl

/-- A table is written below a directory that is made for it, and read back: its first key is
not the name of its entry, and among its defaults are null and one half. -/
theorem readTable_of_writeTable_defaulted :
    defaultedTable.names.Nodup ∧ defaultedTable.wellFormed = true ∧
      defaultedTable.toJson.depth < 128 ∧
      defaultedTable.toJson.floats = [⟨0x3FE0000000000000⟩] ∧
      (JsonNumber.float ⟨0x3FE0000000000000⟩).ReadsBack ∧
      ∃ workspace',
        (writeTable defaultedTable ⟨"meta/types.json"⟩).perform
            ⟨.empty, .alone Program.launch⟩ = (.ok (), workspace') ∧
          (readTable ⟨"meta/types.json"⟩).perform workspace' =
            (.ok defaultedTable, workspace') := by
  have hdistinct : defaultedTable.names.Nodup := by decide
  have hdefaults : defaultedTable.wellFormed = true := by decide
  have hdepth : defaultedTable.toJson.depth < 128 := by decide
  have hfloats : defaultedTable.toJson.floats = [⟨0x3FE0000000000000⟩] := by rfl
  have hback : (JsonNumber.float ⟨0x3FE0000000000000⟩).ReadsBack := readsBack_half
  obtain ⟨hwrites, hreads⟩ := readTable_of_writeTable hdistinct hdefaults hdepth
    (by rw [hfloats]; exact List.forall_mem_singleton.2 hback) ⟨"meta/types.json"⟩
    ⟨.empty, .alone Program.launch⟩
  have hends : FileTree.EndsInName ⟨"meta/types.json"⟩ :=
    ⟨["meta"], "types.json", by decide +kernel, by decide, by decide⟩
  have hready : FileTree.empty.Ready ⟨"meta/types.json"⟩ := by
    refine ⟨by rfl, by decide +kernel, fun place _ content => ?_, by decide +kernel,
      by decide +kernel⟩
    rw [FileTree.get?, FileTree.empty, List.lookup_nil]
    split <;> simp
  obtain ⟨workspace', hwrite⟩ := hwrites hends hready
  exact ⟨hdistinct, hdefaults, hdepth, hfloats, hback, workspace', hwrite,
    (hreads workspace' hwrite).2⟩

end Workspace

end AvroBindings
