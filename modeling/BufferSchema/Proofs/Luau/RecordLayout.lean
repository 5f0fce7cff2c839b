import BufferSchema.Proofs.Luau.FieldReads
import BufferSchema.Proofs.Luau.Record
import BufferSchema.Proofs.Text.Replace

/-!
# Laying out a record loses nothing

The record of an exported struct is written on one line first, as a helper has it, and laid out from there. The two
forms have the same entries in the same order and differ in what stands between them: a blank in the one, a line end
and the indentation in the other. So the first form is found again by putting blanks back.
-/

namespace BufferSchema

open Text (IsIdentifier)

/-- What the entries of the record of a struct say: each field is set to its variable. -/
def Struct.bindings (t : Struct) : List String :=
  List.zipWith (fun f v => f.name ++ " = " ++ v) t.fields (Luau.fieldVariables t)

theorem Struct.length_bindings (t : Struct) : t.bindings.length = t.fields.length := by
  rw [bindings, List.length_zipWith, Luau.length_fieldVariables, Nat.min_self]

namespace Luau

variable {t : Struct}

theorem map_binding_ofStruct (t : Struct) : (Body.ofStruct t).steps.map Step.binding = t.bindings := by
  rw [Body.ofStruct, List.map_map, Struct.bindings, ← List.map_uncurry_zip_eq_zipWith]
  rfl

/-- Between two entries on one line stands a blank behind the semicolon of the first. -/
theorem intercalate_entries (steps : List Step) (hne : steps ≠ []) :
    " ".intercalate (steps.map Step.entry) = "; ".intercalate (steps.map Step.binding) ++ ";" := by
  induction steps with
  | nil => exact absurd rfl hne
  | cons s steps ih =>
    cases steps with
    | nil => simp [Step.entry_eq]
    | cons s' steps =>
      have hrest := ih (List.cons_ne_nil s' steps)
      have hblank : "; " = ";" ++ " " := by decide
      simp only [List.map_cons, String.intercalate_cons_cons, Step.entry_eq, String.append_assoc, hblank] at hrest ⊢
      rw [hrest]

/-- The record on one line. -/
theorem record_eq_bindings (hne : t.fields ≠ []) :
    (Body.ofStruct t).record = "\x7b " ++ "; ".intercalate t.bindings ++ "; \x7d" := by
  have hend : "; \x7d" = ";" ++ " \x7d" := by decide
  rw [Body.record, intercalate_entries _ (Body.steps_ne_nil hne), map_binding_ofStruct, hend]
  simp [toString, String.append_assoc]

theorem layOutRecord_eq_bindings (hne : t.fields ≠ []) (hid : ∀ f ∈ t.fields, IsIdentifier f.name.toList)
    (indent : Nat) : layOutRecord indent (Body.ofStruct t).record =
      "\x7b " ++ (";\n" ++ String.ofList (List.replicate indent ' ')).intercalate t.bindings ++ "; \x7d" := by
  have hentries := recordEntries_record (Body.steps_ne_nil hne) fun s hs => Body.isIdentifier_of_mem_ofStruct hid hs
  rw [layOutRecord, hentries, map_binding_ofStruct]
  simp [toString, String.append_assoc]

/-- No binding reaches over the end of an entry or of a line. -/
theorem delimiter_not_mem_bindings (hid : ∀ f ∈ t.fields, IsIdentifier f.name.toList) {b : String}
    (hb : b ∈ t.bindings) : ';' ∉ b.toList ∧ Text.OneLine b := by
  rw [← map_binding_ofStruct] at hb
  obtain ⟨s, hs, rfl⟩ := List.mem_map.1 hb
  obtain ⟨hfield, htarget⟩ := Body.isIdentifier_of_mem_ofStruct hid hs
  refine ⟨Step.semicolon_not_mem_binding hfield htarget, ?_⟩
  rw [Step.binding, Text.oneLine_append, Text.oneLine_append]
  exact ⟨⟨Text.oneLine_of_isIdentifier hfield, by decide⟩, Text.oneLine_of_isIdentifier htarget⟩

/-- **A record that is laid out keeps its entries.** There is one for each field, in the order of the fields, and each
but the first stands on a line of its own behind the indentation. No entry holds a semicolon or a line end, so where
one ends and the next starts cannot be mistaken. With a blank for each line end and the indentation behind it, the
record is the one that was laid out. -/
theorem layOutRecord_keeps_entries (hne : t.fields ≠ []) (hid : ∀ f ∈ t.fields, IsIdentifier f.name.toList)
    (indent : Nat) :
    let spaces := String.ofList (List.replicate indent ' ')
    t.bindings.length = t.fields.length ∧ (∀ b ∈ t.bindings, ';' ∉ b.toList ∧ Text.OneLine b) ∧
    layOutRecord indent (Body.ofStruct t).record =
      "\x7b " ++ (";\n" ++ spaces).intercalate t.bindings ++ "; \x7d" ∧
    Text.replaceAll [("\n" ++ spaces, " ")] (layOutRecord indent (Body.ofStruct t).record) =
      (Body.ofStruct t).record := by
  intro spaces
  have hlayout := layOutRecord_eq_bindings hne hid indent
  refine ⟨t.length_bindings, fun b hb => delimiter_not_mem_bindings hid hb, hlayout, ?_⟩
  have hkey : ("\n" ++ spaces).toList.head? = some '\n' := by simp
  have hopen : '\n' ∉ "\x7b ".toList := by decide
  have hsep : '\n' ∉ ";".toList := by decide
  have hclose : '\n' ∉ "; \x7d".toList := by decide
  have hbetween : ";\n" ++ spaces = ";" ++ ("\n" ++ spaces) := by
    rw [← String.append_assoc]
    rfl
  rw [hlayout, String.append_assoc, Text.replaceAll_append_of_not_mem hkey hopen, hbetween,
    Text.replaceAll_intercalate hkey hsep fun b hb => (delimiter_not_mem_bindings hid hb).2,
    Text.replaceAll_eq_self hkey hclose, record_eq_bindings hne, String.append_assoc]
  rfl

/-- The fields of this struct are read into variables that have other names than the fields. -/
theorem shadowingStruct_laid_out :
    shadowingStruct.fields ≠ [] ∧ (∀ f ∈ shadowingStruct.fields, IsIdentifier f.name.toList) ∧
    layOutRecord 2 (Body.ofStruct shadowingStruct).record =
      "\x7b cursor = field_cursor__;\n  field_cursor = field_cursor;\n  read_Point = field_read_Point;\n  " ++
        "field_cursor_ = field_cursor_;\n  x = x; \x7d" ∧
    Text.replaceAll [("\n  ", " ")] (layOutRecord 2 (Body.ofStruct shadowingStruct).record) =
      (Body.ofStruct shadowingStruct).record := by
  have hne : shadowingStruct.fields ≠ [] := by decide
  have hid : ∀ f ∈ shadowingStruct.fields, IsIdentifier f.name.toList := by decide
  obtain ⟨-, -, hlayout, hcollapse⟩ := layOutRecord_keeps_entries hne hid 2
  refine ⟨hne, hid, hlayout.trans ?_, hcollapse⟩
  rw [Struct.bindings, fieldVariables_shadowingStruct]
  decide +kernel

end Luau

end BufferSchema
