import BufferSchema.Proofs.Luau.Bytes
import Mathlib.Data.List.Nodup

/-!
# Reading fields into variables

A reader works with the cursor, the buffer, the runtime module and the helpers of structs while it fills the
variables of its fields. The variables are named such that filling one of them disturbs nothing of this. After each
statement all these names mean what they have meant before, and each variable filled so far still holds the value
of its own field. So the record that is built at the end has for each field the value that was read for it.
-/

namespace BufferSchema.Luau

/-- Variables for the fields of a struct that are mistaken neither for names of the generated code nor for other
fields. -/
structure KeptApart (s : Struct) (vs : List String) : Prop where
  length : vs.length = s.fields.length
  nodup : vs.Nodup
  not_own : ∀ v ∈ vs, v ∉ ["cursor", "buff", "input", "reader", "writer", "sharedBuffer", "scheme"]
  not_helper : ∀ v ∈ vs, ¬ "read_".toList <+: v.toList ∧ ¬ "write_".toList <+: v.toList
  own_name : ∀ (i : Nat) (f : Field), s.fields[i]? = some f → isTaken f.name = false → vs[i]? = some f.name
  eq_of_field_name : ∀ (i j : Nat) (v : String) (g : Field),
    vs[i]? = some v → s.fields[j]? = some g → v = g.name → i = j

/-- The variable and the field at a place. -/
theorem forall₂_fieldVariables_at {s : Struct} {i : Nat} {f : Field} {v : String} (hf : s.fields[i]? = some f)
    (hv : (fieldVariables s)[i]? = some v) :
    (isTaken f.name = false → v = f.name) ∧ (v ∈ s.fields.map (·.name) → v = f.name) := by
  obtain ⟨hi, rfl⟩ := List.getElem?_eq_some_iff.1 hf
  obtain ⟨hi', rfl⟩ := List.getElem?_eq_some_iff.1 hv
  exact (List.forall₂_iff_get.1 (forall₂_fieldVariables s)).2 i hi hi'

theorem keptApart_fieldVariables {s : Struct} (hnodup : (s.fields.map (·.name)).Nodup) :
    KeptApart s (fieldVariables s) where
  length := length_fieldVariables s
  nodup := nodup_fieldVariables hnodup
  not_own v hv := (isTaken_eq_false_iff.1 (isTaken_fieldVariables v hv)).1
  not_helper v hv := (isTaken_eq_false_iff.1 (isTaken_fieldVariables v hv)).2
  own_name i f hf hfree := by
    have hi : i < (fieldVariables s).length := by
      rw [length_fieldVariables]
      exact (List.getElem?_eq_some_iff.1 hf).1
    have hv := List.getElem?_eq_getElem hi
    rw [hv, (forall₂_fieldVariables_at hf hv).1 hfree]
  eq_of_field_name i j v g hv hg hname := by
    have hi : i < s.fields.length := by
      rw [← length_fieldVariables s]
      exact (List.getElem?_eq_some_iff.1 hv).1
    have hf := List.getElem?_eq_getElem hi
    have hmem : v ∈ s.fields.map (·.name) := by
      rw [hname]
      exact List.mem_map_of_mem (List.mem_of_getElem? hg)
    have hown := (forall₂_fieldVariables_at hf hv).2 hmem
    -- two places with one name
    have hsame : (s.fields.map (·.name))[i]? = (s.fields.map (·.name))[j]? := by
      rw [List.getElem?_map, List.getElem?_map, hf, hg, Option.map_some, Option.map_some, ← hown, hname]
    exact (List.getElem?_inj (by simpa using hi) hnodup).1 hsame

variable {Buffer Cell Value : Type}

namespace Runtime

section Filling

variable (R : Runtime Buffer Cell Value) (h : Helpers Buffer Value) (names : List String) (s : Struct)

/-- Whichever number of fields is read, the names of the generated code keep their meaning and the variables hold
the values of their fields, and at the end the record is built from these. -/
structure FillsApart : Prop where
  fills : ∀ k b c c' values, R.readFields h b ((Body.ofStruct s).steps.take k) c = some (c', values) →
    ∃ env, R.run b ((h.env names).assign ["buff", "cursor"] [.buffer, .number c])
        ((Body.ofStruct s).reads.take (k + 1)) = some (env, b) ∧
      Frame h names c' env ∧
      List.Forall₂ (fun v x => env v = some (.value x)) ((fieldVariables s).take k) values
  fails : ∀ k b c, R.readFields h b ((Body.ofStruct s).steps.take k) c = none →
    R.run b ((h.env names).assign ["buff", "cursor"] [.buffer, .number c])
      ((Body.ofStruct s).reads.take (k + 1)) = none
  returns : R.bodyReader (h.env names) (Body.ofStruct s) = R.structReader h s

end Filling

variable {R : Runtime Buffer Cell Value} {h : Helpers Buffer Value} {names : List String} {s : Struct}

/-- Reading some of the fields, with the variables of all fields declared. -/
theorem run_take_reads (hclosed : Closed names (Body.ofStruct s).steps) (k : Nat) (b : Buffer) (c : Nat) :
    R.run b ((h.env names).assign ["buff", "cursor"] [.buffer, .number c]) ((Body.ofStruct s).reads.take (k + 1)) =
      (R.readFields h b ((Body.ofStruct s).steps.take k) c).map fun r =>
        ((readEnv h names (fieldVariables s) c).fill ((Body.ofStruct s).steps.take k) r.1 r.2, b) := by
  have hfree : ∀ t ∈ (Body.ofStruct s).steps.take k, isTaken t.target = false :=
    fun t ht => Body.isTaken_target_ofStruct (List.mem_of_mem_take ht)
  rw [Body.reads, List.take_succ_cons, ← List.map_take, Body.map_target_ofStruct]
  exact run_declared_reads isTaken_fieldVariables (hclosed.take k) hfree

theorem fillsApart_of_closed (hnodup : (s.fields.map (·.name)).Nodup)
    (hclosed : Closed names (Body.ofStruct s).steps) : R.FillsApart h names s where
  fills k b c c' values hread := by
    have hrun := run_take_reads (R := R) (h := h) hclosed k b c
    rw [hread, Option.map_some] at hrun
    have htargets : (fieldVariables s).take k = ((Body.ofStruct s).steps.take k).map (·.target) := by
      rw [List.map_take, Body.map_target_ofStruct]
    have hfree : ∀ v ∈ (fieldVariables s).take k, isTaken v = false :=
      fun v hv => isTaken_fieldVariables v (List.mem_of_mem_take hv)
    have hdistinct : ((fieldVariables s).take k).Nodup :=
      (nodup_fieldVariables hnodup).sublist (List.take_sublist k _)
    rw [htargets] at hfree hdistinct
    refine ⟨_, hrun, (frame_readEnv isTaken_fieldVariables).update_cursor.assign hfree _, ?_⟩
    rw [htargets, List.forall₂_map_left_iff]
    exact Env.forall₂_fill hdistinct (length_readFields hread)
  fails k b c hread := by
    rw [run_take_reads hclosed, hread, Option.map_none]
  returns := bodyReader_ofStruct hclosed hnodup

end Runtime

/-- The variables of a struct's fields are kept apart from everything else, and a reader that runs with them reads
each field's value into its own variable, disturbs nothing of the generated code and returns the values under the
names of their fields. -/
theorem fieldVariables_keep_values (s : Struct) (hnodup : (s.fields.map (·.name)).Nodup) :
    KeptApart s (fieldVariables s) ∧
      (Body.ofStruct s).reads.map Statement.text = (Body.ofStruct s).reading ∧
      (Body.ofStruct s).result.text = (Body.ofStruct s).record ∧
      ∀ (Buffer Cell Value : Type) (R : Runtime Buffer Cell Value) (h : Helpers Buffer Value) (names : List String),
        (∀ f ∈ s.fields, ∀ name, f.type.element.structName? = some name → name ∈ names) →
          R.FillsApart h names s :=
  ⟨keptApart_fieldVariables hnodup, (Body.ofStruct s).text_reads, (Body.ofStruct s).text_result,
    fun _ _ _ _ _ _ hnames => Runtime.fillsApart_of_closed hnodup (Runtime.closed_ofStruct hnames)⟩

/-- A struct whose fields have the names of the cursor, of new names for it and of the helper of another struct. -/
def shadowingStruct : Struct where
  name := "Shadowing"
  position := .endOfInput
  fields := [⟨"cursor", ⟨.builtin .u8, .scalar⟩⟩, ⟨"field_cursor", ⟨.builtin .u8, .scalar⟩⟩,
    ⟨"read_Point", ⟨.struct "Point", .scalar⟩⟩, ⟨"field_cursor_", ⟨.builtin .u8, .scalar⟩⟩,
    ⟨"x", ⟨.struct "Point", .scalar⟩⟩]

/-- Helpers that write and read every struct as one byte. -/
def byteHelpers : Helpers (Nat → Nat) Plain where
  write _ := Plain.writeByte
  read _ := Plain.readByte

theorem fieldVariables_shadowingStruct :
    fieldVariables shadowingStruct =
      ["field_cursor__", "field_cursor", "field_read_Point", "field_cursor_", "x"] := by
  decide +kernel

theorem shadowingStruct_keeps_values :
    (shadowingStruct.fields.map (·.name)).Nodup ∧
      KeptApart shadowingStruct ["field_cursor__", "field_cursor", "field_read_Point", "field_cursor_", "x"] ∧
      bytes.bodyReader (byteHelpers.env ["Point"]) (Body.ofStruct shadowingStruct) (· + 10) 4 =
        some (9, .record [("cursor", .number 14), ("field_cursor", .number 15), ("read_Point", .number 16),
          ("field_cursor_", .number 17), ("x", .number 18)]) := by
  have hnodup : (shadowingStruct.fields.map (·.name)).Nodup := by decide
  obtain ⟨hapart, -, -, hreads⟩ := fieldVariables_keep_values shadowingStruct hnodup
  have hnames : ∀ f ∈ shadowingStruct.fields, ∀ name,
      f.type.element.structName? = some name → name ∈ ["Point"] := by
    simp [shadowingStruct, Element.structName?]
  rw [fieldVariables_shadowingStruct] at hapart
  refine ⟨hnodup, hapart, ?_⟩
  rw [(hreads _ _ _ bytes byteHelpers ["Point"] hnames).returns, Runtime.structReader, Body.ofStruct,
    fieldVariables_shadowingStruct]
  rfl

end BufferSchema.Luau
