import BufferSchema.Luau.Record
import BufferSchema.Proofs.Luau.Bodies
import BufferSchema.Proofs.Text.Lines

/-!
# A record laid out keeps its entries

Laying out a record takes its written form apart again, at braces, semicolons and blanks. Names of fields and
variables are identifiers and have none of these in them, so what comes out are the entries that went in.
-/

namespace BufferSchema

open Text (IsIdentifier isNamePart)

/-- The struct and its fields have names that can be written as they are, and there are fields. -/
structure Struct.Printable (t : Struct) : Prop where
  name : IsIdentifier t.name.toList
  fields_ne_nil : t.fields ≠ []
  fields : ∀ f ∈ t.fields, IsIdentifier f.name.toList
  elements : ∀ f ∈ t.fields, IsIdentifier f.type.element.name.toList

namespace Luau

/-! Variables. -/

theorem isIdentifier_fresh (others : List String) {name : String} (h : IsIdentifier name.toList) :
    IsIdentifier (fresh others name).toList := by
  fun_induction fresh others name with
  | case1 name _ ih =>
    apply ih
    rw [String.toList_append]
    exact h.append (List.all_eq_true.1 (by decide))
  | case2 => exact h

theorem isIdentifier_variablesFor {fields renamed names : List String}
    (h : ∀ name ∈ names, IsIdentifier name.toList) :
    ∀ v ∈ variablesFor fields renamed names, IsIdentifier v.toList := by
  induction names generalizing renamed with
  | nil => simp [variablesFor]
  | cons name names ih =>
    have hname := h name List.mem_cons_self
    have hlater := fun n hn => h n (List.mem_cons_of_mem name hn)
    intro v hv
    unfold variablesFor at hv
    split at hv
    · rcases List.mem_cons.1 hv with rfl | hv
      · apply isIdentifier_fresh
        rw [String.toList_append]
        exact IsIdentifier.append (by decide) hname.isNamePart
      · exact ih hlater v hv
    · rcases List.mem_cons.1 hv with rfl | hv
      · exact hname
      · exact ih hlater v hv

variable {t : Struct}

theorem isIdentifier_fieldVariables (h : ∀ f ∈ t.fields, IsIdentifier f.name.toList) :
    ∀ v ∈ fieldVariables t, IsIdentifier v.toList := by
  refine isIdentifier_variablesFor fun name hname => ?_
  obtain ⟨f, hf, rfl⟩ := List.mem_map.1 hname
  exact h f hf

namespace Body

theorem isIdentifier_of_mem_ofStruct (h : ∀ f ∈ t.fields, IsIdentifier f.name.toList) {s : Step}
    (hs : s ∈ (ofStruct t).steps) : IsIdentifier s.field.toList ∧ IsIdentifier s.target.toList := by
  constructor
  · obtain ⟨f, hf, hfield, -⟩ := codec_of_mem_ofStruct hs
    exact hfield ▸ h f hf
  · apply isIdentifier_fieldVariables h
    rw [← map_target_ofStruct]
    exact List.mem_map_of_mem hs

theorem steps_ne_nil (h : t.fields ≠ []) : (ofStruct t).steps ≠ [] := by
  intro hnil
  have hnames := map_field_ofStruct t
  rw [hnil] at hnames
  exact h (List.map_eq_nil_iff.1 hnames.symm)

end Body

/-! Entries. -/

namespace Step

/-- The entry of the record, as it stands between semicolons. -/
def binding (s : Step) : String := s.field ++ " = " ++ s.target

theorem entry_eq (s : Step) : s.entry = s.binding ++ ";" := by
  simp [entry, binding, toString, String.append_assoc]

variable {s : Step}

theorem toList_binding (s : Step) : s.binding.toList = s.field.toList ++ ' ' :: '=' :: ' ' :: s.target.toList := by
  rw [binding, String.toList_append, String.toList_append]
  simp

/-- An identifier has no semicolon, so a record is split between its entries only. -/
theorem semicolon_not_mem_binding (hfield : IsIdentifier s.field.toList) (htarget : IsIdentifier s.target.toList) :
    ';' ∉ s.binding.toList := by
  have hsemicolon : ∀ {cs : List Char}, IsIdentifier cs → ';' ∉ cs :=
    fun h hmem => absurd (h.isNamePart _ hmem) (by decide)
  simp [toList_binding, hsemicolon hfield, hsemicolon htarget]

theorem trimChars_binding (hfield : IsIdentifier s.field.toList) (htarget : IsIdentifier s.target.toList) :
    Text.trimChars s.binding.toList = s.binding.toList := by
  rw [toList_binding]
  apply Text.trimChars_eq_self
  · intro c hc
    cases hcs : s.field.toList with
    | nil => exact absurd hcs hfield.ne_nil
    | cons d ds =>
      rw [hcs] at hc hfield
      obtain rfl := Option.some.inj hc
      exact Text.isBlank_eq_false_of_isNamePart (hfield.isNamePart d List.mem_cons_self)
  · intro c hc
    have hlast : s.target.toList.getLast? = some c := by
      have hne := htarget.ne_nil
      simpa [List.getLast?_append, List.getLast?_cons, hne, List.getLast?_eq_some_getLast hne] using hc
    exact Text.isBlank_eq_false_of_isNamePart (htarget.isNamePart c (List.mem_of_getLast? hlast))

end Step

/-- Between the braces every entry stands behind a blank, and ends with a semicolon. -/
theorem stripBraces_record {steps : List Step} (hne : steps ≠ []) :
    stripBraces (Text.trimChars (Body.mk steps).record.toList) =
      steps.flatMap (fun s => ' ' :: (s.binding.toList ++ [';'])) ++ [' '] := by
  have hinner : " ".toList ++ (" ".intercalate (steps.map Step.entry)).toList =
      steps.flatMap fun s => ' ' :: (s.binding.toList ++ [';']) := by
    rw [← String.toList_append, Text.append_intercalate (by simpa using hne), String.toList_join]
    simp [List.flatMap_def, Step.entry_eq, Function.comp_def]
  have hrecord : (Body.mk steps).record.toList =
      '\x7b' :: (steps.flatMap (fun s => ' ' :: (s.binding.toList ++ [';'])) ++ [' ']) ++ ['\x7d'] := by
    rw [← hinner]
    simp [Body.record, toString]
  have htrim : Text.trimChars (Body.mk steps).record.toList = (Body.mk steps).record.toList := by
    rw [hrecord]
    apply Text.trimChars_eq_self <;> intro c hc
    · obtain rfl := Option.some.inj hc
      decide
    · rw [List.getLast?_append] at hc
      obtain rfl := Option.some.inj hc
      decide
  obtain ⟨s, rest, rfl⟩ := List.exists_cons_of_ne_nil hne
  rw [htrim, hrecord, stripBraces]
  simp

theorem pieces_bindings {steps : List Step}
    (hid : ∀ s ∈ steps, IsIdentifier s.field.toList ∧ IsIdentifier s.target.toList) :
    Text.pieces ';' (steps.flatMap (fun s => ' ' :: (s.binding.toList ++ [';'])) ++ [' ']) =
      steps.map (fun s => ' ' :: s.binding.toList) ++ [[' ']] := by
  induction steps with
  | nil => rfl
  | cons s steps ih =>
    have hs := hid s List.mem_cons_self
    have hsemicolon : ';' ∉ ' ' :: s.binding.toList := by
      simp [Step.semicolon_not_mem_binding hs.1 hs.2]
    have hsplit := Text.pieces_append_cons hsemicolon
      (steps.flatMap (fun s => ' ' :: (s.binding.toList ++ [';'])) ++ [' '])
    rw [ih fun x hx => hid x (List.mem_cons_of_mem s hx)] at hsplit
    simpa using hsplit

/-- The record of a struct is taken apart into the entries that it was made of. -/
theorem recordEntries_record {steps : List Step} (hne : steps ≠ [])
    (hid : ∀ s ∈ steps, IsIdentifier s.field.toList ∧ IsIdentifier s.target.toList) :
    recordEntries (Body.mk steps).record = steps.map Step.binding := by
  have htrim : (steps.map fun s => ' ' :: s.binding.toList).map Text.trimChars =
      steps.map fun s => s.binding.toList := by
    rw [List.map_map]
    refine List.map_congr_left fun s hs => ?_
    rw [Function.comp_apply, Text.trimChars_cons_blank (by decide),
      Step.trimChars_binding (hid s hs).1 (hid s hs).2]
  have hfilter : (steps.map fun s => s.binding.toList).filter (· != []) = steps.map fun s => s.binding.toList := by
    rw [List.filter_eq_self]
    intro cs hcs
    obtain ⟨s, -, rfl⟩ := List.mem_map.1 hcs
    simp [Step.toList_binding]
  have hblank : Text.trimChars [' '] = [] := by decide
  rw [recordEntries, stripBraces_record hne, pieces_bindings hid, List.map_append, htrim, List.map_singleton,
    hblank, List.filter_append, hfilter]
  simp [Function.comp_def]

end Luau

end BufferSchema
