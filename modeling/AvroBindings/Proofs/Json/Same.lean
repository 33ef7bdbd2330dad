import Mathlib.Data.List.Perm.Subperm
import Mathlib.Data.List.Forall2
import AvroBindings.Proofs.Json.Parts
import AvroBindings.Proofs.Json.WellFormed

/-!
# Equality of JSON trees

`Json.same` is an equivalence relation on well-formed trees.

## Main Statements

* `Json.same_object_iff` — objects are equal exactly if they have the same members with equal
  values.
* `Json.same_self`, `Json.same_symm`, `Json.same_trans` — the three laws.

## Design Notes

The laws fail for other trees: a NaN differs from itself, and an object that states a member
twice may have all of its members in one that does not.
-/

namespace AvroBindings

/-! ## Numbers -/

theorem Binary64.isNaN_of_isFinite {x : Binary64} (h : x.isFinite = true) :
    x.isNaN = false := by
  have hfield : (x.exponentField == 2047) = false := by simpa [isFinite] using h
  rw [isNaN, hfield, Bool.false_and]

theorem Binary64.numEq_trans {x y z : Binary64} (hxy : x.numEq y = true)
    (hyz : y.numEq z = true) :
    x.numEq z = true := by
  simp only [numEq, Bool.and_eq_true, Bool.or_eq_true, beq_iff_eq] at hxy hyz ⊢
  obtain ⟨⟨hx, -⟩, hxy⟩ := hxy
  obtain ⟨⟨-, hz⟩, hyz⟩ := hyz
  refine ⟨⟨hx, hz⟩, ?_⟩
  rcases hxy with hxy | ⟨hx0, hy0⟩
  · rcases hyz with hyz | ⟨hy0, hz0⟩
    · exact .inl (hxy.trans hyz)
    · exact .inr ⟨by rwa [isZero, hxy], hz0⟩
  · rcases hyz with hyz | ⟨-, hz0⟩
    · exact .inr ⟨hx0, by rwa [isZero, ← hyz]⟩
    · exact .inr ⟨hx0, hz0⟩

theorem JsonNumber.same_self {n : JsonNumber} (h : n.wellFormed = true) : n.same n = true := by
  cases n with
  | int n => simp [same]
  | float x => exact Binary64.numEq_self (Binary64.isNaN_of_isFinite h)

theorem JsonNumber.same_comm (m n : JsonNumber) : m.same n = n.same m := by
  cases m with
  | int m =>
      cases n with
      | int n => exact BEq.comm
      | float y => rfl
  | float x =>
      cases n with
      | int n => rfl
      | float y => exact Binary64.numEq_comm x y

theorem JsonNumber.same_trans {m n k : JsonNumber} (hmn : m.same n = true)
    (hnk : n.same k = true) :
    m.same k = true := by
  cases m <;> cases n <;> cases k <;> simp only [same, Bool.false_eq_true] at hmn hnk ⊢
  · simp_all
  · exact Binary64.numEq_trans hmn hnk

namespace Json

/-! ## Items and members -/

theorem sameItems_iff {xs ys : List Json} :
    sameItems xs ys = true ↔ List.Forall₂ (fun x y => x.same y = true) xs ys := by
  induction xs generalizing ys with
  | nil => cases ys <;> simp [sameItems]
  | cons x rest ih => cases ys <;> simp [sameItems, ih]

theorem sameMembers_iff {ms ns : List (String × Json)} :
    sameMembers ms ns = true ↔ ∀ member ∈ ms, ∃ w, ns.lookup member.1 = some w ∧
    member.2.same w = true := by
  induction ms with
  | nil => simp [sameMembers]
  | cons member rest ih =>
      obtain ⟨k, v⟩ := member
      cases hlookup : ns.lookup k <;> simp [sameMembers, hlookup, ih]

/-- **Objects are equal** exactly if they have the same members with equal values. -/
theorem same_object_iff {ms ns : List (String × Json)} (hms : (Entries.keys ms).Nodup)
    (hns : (Entries.keys ns).Nodup) :
    (Json.object ms).same (.object ns) = true ↔
      (∀ key, key ∈ Entries.keys ms ↔ key ∈ Entries.keys ns) ∧
        ∀ key v w, ms.lookup key = some v → ns.lookup key = some w → v.same w = true := by
  rw [same, Bool.and_eq_true, beq_iff_eq, sameMembers_iff]
  constructor
  · rintro ⟨hlength, hmembers⟩
    have hsubset : Entries.keys ms ⊆ Entries.keys ns := by
      intro key hkey
      obtain ⟨v, hmem⟩ := Entries.mem_keys.1 hkey
      obtain ⟨w, hw, -⟩ := hmembers (key, v) hmem
      exact Entries.mem_keys_of_lookup hw
    -- Of two lists of one length without repetition, neither can be a proper part of the other.
    have hperm : (Entries.keys ms).Perm (Entries.keys ns) :=
      (List.subperm_of_subset hms hsubset).perm_of_length_le (by simp [Entries.keys, hlength])
    refine ⟨fun key => hperm.mem_iff, fun key v w hv hw => ?_⟩
    obtain ⟨w', hw', hsame⟩ := hmembers (key, v) (Entries.mem_of_lookup hv)
    obtain rfl : w = w' := Option.some.inj (hw.symm.trans hw')
    exact hsame
  · rintro ⟨hkeys, hmembers⟩
    have hperm : (Entries.keys ms).Perm (Entries.keys ns) :=
      (List.perm_ext_iff_of_nodup hms hns).2 hkeys
    refine ⟨by simpa [Entries.keys] using hperm.length_eq, fun member hmember => ?_⟩
    obtain ⟨w, hw⟩ := Entries.exists_lookup ((hkeys member.1).1 (List.mem_map_of_mem hmember))
    exact ⟨w, hw, hmembers _ _ _ ((Entries.lookup_eq_some_iff_mem hms).2 hmember) hw⟩

/-- Members that are equal as maps make equal objects. -/
theorem same_object_of_related {ms ns : List (String × Json)}
    (h : Entries.Related (fun x y => x.same y = true) ms ns) :
    (Json.object ms).same (.object ns) = true := by
  refine (same_object_iff h.nodup h.nodup').2 ⟨h.mem_keys_iff, fun key v w hv hw => ?_⟩
  obtain ⟨w', hw', hsame⟩ := h.exists_right hv
  obtain rfl : w = w' := Option.some.inj (hw.symm.trans hw')
  exact hsame

/-! ## The laws -/

theorem same_self {x : Json} (hx : x.wellFormed = true) : x.same x = true := by
  induction x using Json.induction with
  | number n => exact JsonNumber.same_self hx
  | array items ih =>
      rw [wellFormed_array_iff] at hx
      rw [same, sameItems_iff, List.forall₂_same]
      exact fun x hmem => ih x hmem (hx x hmem)
  | object members ih =>
      obtain ⟨hnodup, hmembers⟩ := wellFormed_object_iff.1 hx
      refine (same_object_iff hnodup hnodup).2 ⟨fun key => Iff.rfl, fun key v w hv hw => ?_⟩
      obtain rfl : v = w := Option.some.inj (hv.symm.trans hw)
      have hmem := Entries.mem_of_lookup hv
      exact ih _ hmem (hmembers _ hmem)
  | _ => simp [same]

/-- Well-formed arrays are equal if they differ in equal items. -/
theorem same_array_middle {before after : List Json} {x y : Json}
    (hbefore : ∀ z ∈ before, z.wellFormed = true) (hafter : ∀ z ∈ after, z.wellFormed = true)
    (h : x.same y = true) :
    (Json.array (before ++ x :: after)).same (.array (before ++ y :: after)) = true := by
  rw [same, sameItems_iff]
  exact forall₂_middle (fun z hz => same_self (hbefore z hz))
    (fun z hz => same_self (hafter z hz)) h

/-- The members of a well-formed tree are equal to themselves. -/
theorem member?_same_self {json : Json} (h : json.wellFormed = true) (key : String) :
    Option.Rel (fun x y => x.same y = true) (json.member? key) (json.member? key) := by
  cases hmember : json.member? key with
  | none => exact .none
  | some x => exact .some (same_self (wellFormed_of_member? h hmember))

theorem same_symm {x y : Json} (hx : x.wellFormed = true) (hy : y.wellFormed = true)
    (h : x.same y = true) :
    y.same x = true := by
  induction x using Json.induction generalizing y with
  | number m =>
      cases y with
      | number n =>
          rw [same] at h ⊢
          rwa [JsonNumber.same_comm]
      | _ => simp [same] at h
  | array xs ih =>
      cases y with
      | array ys =>
          rw [wellFormed_array_iff] at hx hy
          rw [same, sameItems_iff] at h ⊢
          refine List.Forall₂.flip (List.forall₂_iff_zip.2 ⟨h.length_eq, fun {x y} hpair => ?_⟩)
          obtain ⟨hxmem, hymem⟩ := List.of_mem_zip hpair
          exact ih x hxmem (hx x hxmem) (hy y hymem) (List.forall₂_zip h hpair)
      | _ => simp [same] at h
  | object ms ih =>
      cases y with
      | object ns =>
          obtain ⟨hms, hvs⟩ := wellFormed_object_iff.1 hx
          obtain ⟨hns, hws⟩ := wellFormed_object_iff.1 hy
          obtain ⟨hkeys, hsame⟩ := (same_object_iff hms hns).1 h
          refine (same_object_iff hns hms).2
            ⟨fun key => (hkeys key).symm, fun key w v hw hv => ?_⟩
          have hmem := Entries.mem_of_lookup hv
          exact ih _ hmem (hvs _ hmem) (hws _ (Entries.mem_of_lookup hw)) (hsame key v w hv hw)
      | _ => simp [same] at h
  | _ => cases y <;> simp_all [same]

theorem same_trans {x y z : Json} (hx : x.wellFormed = true) (hy : y.wellFormed = true)
    (hz : z.wellFormed = true) (hxy : x.same y = true) (hyz : y.same z = true) :
    x.same z = true := by
  induction x using Json.induction generalizing y z with
  | number m =>
      cases y with
      | number n =>
          cases z with
          | number k => exact JsonNumber.same_trans hxy hyz
          | _ => simp [same] at hyz
      | _ => simp [same] at hxy
  | array xs ih =>
      cases y with
      | array ys =>
          cases z with
          | array zs =>
              rw [wellFormed_array_iff] at hx hy hz
              rw [same, sameItems_iff] at hxy hyz ⊢
              refine forall₂_trans (fun x hxmem y hymem z hzmem => ?_) hxy hyz
              exact ih x hxmem (hx x hxmem) (hy y hymem) (hz z hzmem)
          | _ => simp [same] at hyz
      | _ => simp [same] at hxy
  | object ms ih =>
      cases y with
      | object ns =>
          cases z with
          | object ks =>
              obtain ⟨hms, hvs⟩ := wellFormed_object_iff.1 hx
              obtain ⟨hns, hws⟩ := wellFormed_object_iff.1 hy
              obtain ⟨hks, hus⟩ := wellFormed_object_iff.1 hz
              obtain ⟨hkeys, hsame⟩ := (same_object_iff hms hns).1 hxy
              obtain ⟨hkeys', hsame'⟩ := (same_object_iff hns hks).1 hyz
              refine (same_object_iff hms hks).2 ⟨fun key => (hkeys key).trans (hkeys' key),
                fun key v u hv hu => ?_⟩
              obtain ⟨w, hw⟩ :=
                Entries.exists_lookup ((hkeys key).1 (Entries.mem_keys_of_lookup hv))
              have hmem := Entries.mem_of_lookup hv
              exact ih _ hmem (hvs _ hmem) (hws _ (Entries.mem_of_lookup hw))
                (hus _ (Entries.mem_of_lookup hu)) (hsame key v w hv hw) (hsame' key w u hw hu)
          | _ => simp [same] at hyz
      | _ => simp [same] at hxy
  | _ => cases y <;> cases z <;> simp_all [same]

end Json

end AvroBindings
