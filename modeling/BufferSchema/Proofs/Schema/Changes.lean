import BufferSchema.Proofs.Schema.Index

/-!
# Schemas that change

A schema can be put together step by step: structs are declared, fields are put into them, a struct is named for
export, and the schema is analysed in between, or gives way to one that was read from a text. Each step leaves the
tables of every struct in agreement. The index says what the fields are made of, and a struct is marked as referred
to exactly if there is a struct on record that refers to it. This stays so when an analysis fails, which keeps its
marks, and when a struct is declared anew to which others refer.
-/

namespace BufferSchema

open Text (Position)

namespace Struct

/-- The flag of a struct is set exactly if some struct is on record, and whoever is on record was found there. -/
structure MarksAgree (t : Struct) : Prop where
  everReferenced_iff : t.everReferenced = true ↔ t.referencedBy.keys ≠ []
  pos : ∀ source count, t.referencedBy.find? source = some count → 1 ≤ count

namespace MarksAgree

variable {t : Struct}

theorem of_unmarked (hflag : t.everReferenced = false) (hrecord : t.referencedBy = ∅) : t.MarksAgree where
  everReferenced_iff := by rw [hflag, hrecord]; simp
  pos source count hfind := by rw [hrecord] at hfind; cases hfind

theorem push (h : t.MarksAgree) (f : Field) : (t.push f).MarksAgree := ⟨h.everReferenced_iff, h.pos⟩

theorem markReferencedBy (h : t.MarksAgree) (source : String) : (t.markReferencedBy source).MarksAgree where
  everReferenced_iff := by
    have hrecorded : source ∈ (t.markReferencedBy source).referencedBy.keys :=
      Table.mem_insert.2 (.inl rfl)
    rw [everReferenced_markReferencedBy]
    exact ⟨fun _ => List.ne_nil_of_mem hrecorded, fun _ => rfl⟩
  pos other count hfind := by
    rw [Struct.markReferencedBy, Table.find?_alter] at hfind
    split at hfind
    · obtain rfl := Option.some.inj hfind
      exact Nat.le_add_left ..
    · exact h.pos other count hfind

theorem markAll (h : t.MarksAgree) (sources : List Struct) : (t.markAll sources).MarksAgree := by
  unfold Struct.markAll
  induction sources generalizing t with
  | nil => exact h
  | cons source sources ih => exact ih (h.markReferencedBy source.name)

end MarksAgree

theorem Exact.markAll {t : Struct} (h : t.Exact) (sources : List Struct) : (t.markAll sources).Exact where
  keys := by rw [references_markAll, fields_markAll, h.keys]
  find? := by
    rw [references_markAll, fields_markAll]
    exact h.find?

theorem Unmarked.marksAgree {t : Struct} (h : t.Unmarked) : t.MarksAgree :=
  .of_unmarked h.everReferenced h.referencedBy

end Struct

namespace Schema

variable {s : Schema}

/-- What can be done to a schema. -/
inductive Change where
  /-- The schema that the tokens are read as takes its place. If they are refused, nothing changes. -/
  | load (tokens : TokenStream)
  | declare (name : String) (position : Position)
  | addField (name : String) (f : Field)
  | setExports (name : String)
  /-- Analyses the schema and keeps what that leaves behind, whatever the verdict is. -/
  | analyze

/-- The schema after a change. -/
def Change.apply (s : Schema) : Change → Schema
  | load tokens =>
    match (parse tokens).result with
    | .ok read => read
    | .error _ => s
  | declare name position => s.declare name position
  | addField name f => s.addField name f
  | setExports name => { s with exports := name }
  | analyze => s.analyze.1

/-- What becomes of the empty schema by changes, one after the other. -/
def afterChanges (changes : List Change) : Schema := changes.foldl Change.apply {}

/-- Every struct stands under its own name, and its tables agree with its fields and its flag. -/
def Consistent (s : Schema) : Prop :=
  ∀ name t, s.structs.find? name = some t → t.name = name ∧ t.Exact ∧ t.MarksAgree

theorem consistent_empty : Consistent {} := fun _ _ hfind => nomatch hfind

namespace Consistent

theorem markReferences (h : s.Consistent) : s.markReferences.Consistent := by
  intro name t hfind
  rw [find?_markReferences, Option.map_eq_some_iff] at hfind
  obtain ⟨t, ht, rfl⟩ := hfind
  obtain ⟨hname, hexact, hmarks⟩ := h name t ht
  exact ⟨(t.name_markAll _).trans hname, hexact.markAll _, hmarks.markAll _⟩

theorem declare (h : s.Consistent) (name : String) (position : Position) : (s.declare name position).Consistent := by
  intro other t hfind
  rw [Schema.declare, Table.find?_insert] at hfind
  split at hfind
  · next heq =>
    obtain rfl := Option.some.inj hfind
    exact ⟨heq.symm, Struct.exact_of_fields_eq_nil rfl rfl, .of_unmarked rfl rfl⟩
  · exact h other t hfind

theorem addField (h : s.Consistent) (name : String) (f : Field) : (s.addField name f).Consistent := by
  intro other t hfind
  rw [Schema.addField, Table.find?_modify] at hfind
  split at hfind
  · obtain ⟨t, ht, rfl⟩ := Option.map_eq_some_iff.1 hfind
    obtain ⟨hname, hexact, hmarks⟩ := h other t ht
    exact ⟨hname, hexact.push f, hmarks.push f⟩
  · exact h other t hfind

theorem of_parse {tokens : TokenStream} (hparse : (parse tokens).result = .ok s) : s.Consistent := by
  obtain ⟨read, hread, -, rfl⟩ := parse_eq_ok_iff.1 hparse
  refine Consistent.markReferences fun name t hfind => ?_
  obtain ⟨hname, hunmarked⟩ := (unmarked_of_ofTokens hread).1 _ (Table.find?_eq_some_iff.1 hfind)
  exact ⟨hname.symm, hunmarked.built.exact, hunmarked.marksAgree⟩

/-- Every change keeps the tables in agreement. -/
theorem apply (h : s.Consistent) (c : Change) : (c.apply s).Consistent := by
  cases c with
  | load tokens =>
    simp only [Change.apply]
    split
    · next hparse => exact of_parse hparse
    · exact h
  | declare name position => exact h.declare name position
  | addField name f => exact h.addField name f
  | setExports name => exact h
  | analyze => exact h.markReferences

end Consistent

theorem consistent_foldl_apply (changes : List Change) (h : s.Consistent) :
    (changes.foldl Change.apply s).Consistent := by
  induction changes generalizing s with
  | nil => exact h
  | cons c changes ih => exact ih (h.apply c)

/-- Whatever is done to a schema, in whatever order: every struct stands under its own name; its index lists the
structs that its fields are made of in the order of first use, each with the numbers of exactly these fields, so that
the fields which refer to a struct are found in their order; and it is marked as referred to exactly if some struct is
on record for it, never without having been found. -/
theorem tables_of_afterChanges (changes : List Change) {name : String} {t : Struct}
    (hfind : (afterChanges changes).structs.find? name = some t) :
    t.name = name ∧
    t.references.keys = (t.fields.filterMap fun f => f.type.element.structName?).eraseDups ∧
    (∀ target, target ∈ t.references ↔ ∃ f ∈ t.fields, f.type.element.structName? = some target) ∧
    (∀ target numbers, t.references.find? target = some numbers →
      numbers ≠ [] ∧ numbers.Pairwise (· < ·) ∧
      ∀ i, i ∈ numbers ↔ ∃ f, t.fields[i]? = some f ∧ f.type.element.structName? = some target) ∧
    (∀ target, t.fieldsReferencing target = (t.fields.filter fun f => f.type.element.structName? = some target).map
      fun f => s!"{f.name}:{f.type.name}") ∧
    (t.everReferenced = true ↔ t.referencedBy.keys ≠ []) ∧
    ∀ source count, t.referencedBy.find? source = some count → 1 ≤ count := by
  obtain ⟨hname, hexact, hmarks⟩ := consistent_foldl_apply changes consistent_empty name t hfind
  refine ⟨hname, hexact.keys, hexact.indexed, fun target numbers hnumbers => ?_, hexact.fieldsReferencing_eq,
    hmarks.everReferenced_iff, hmarks.pos⟩
  exact ⟨hexact.numbers_ne_nil hnumbers, hexact.pairwise_numbers hnumbers, hexact.mem_numbers_iff hnumbers⟩

/-- Two structs, one of which is exported though the other one refers to it, by two fields of one name. The analysis
fails, and then the other one is declared anew. -/
def sampleChanges : List Change :=
  [.declare "A" ⟨1, 1⟩, .declare "E" ⟨2, 1⟩, .addField "A" ⟨"x", ⟨.struct "E", .scalar⟩⟩,
    .addField "A" ⟨"n", ⟨.builtin .u8, .map⟩⟩, .addField "A" ⟨"x", ⟨.struct "E", .fixedArray 0⟩⟩,
    .setExports "E", .analyze]

theorem tables_of_sampleChanges :
    ∃ a e, (afterChanges sampleChanges).structs.find? "A" = some a ∧ a.fieldsReferencing "E" = ["x:E", "x:E"] ∧
      (afterChanges (sampleChanges ++ [.declare "A" ⟨3, 1⟩])).structs.find? "E" = some e ∧
      e.everReferenced = true ∧ e.referencedBy.keys ≠ [] := by
  have ha : (afterChanges sampleChanges).structs.find? "A" =
      some (Declaration.build ⟨"A", [⟨"x", ⟨.struct "E", .scalar⟩⟩, ⟨"n", ⟨.builtin .u8, .map⟩⟩,
        ⟨"x", ⟨.struct "E", .fixedArray 0⟩⟩]⟩ ⟨1, 1⟩) := by decide
  have he : (afterChanges (sampleChanges ++ [.declare "A" ⟨3, 1⟩])).structs.find? "E" =
      some ((Declaration.build ⟨"E", []⟩ ⟨2, 1⟩).markReferencedBy "A") := by decide
  obtain ⟨-, -, -, -, hfields, -, -⟩ := tables_of_afterChanges sampleChanges ha
  obtain ⟨-, -, -, -, -, hmarked, -⟩ := tables_of_afterChanges _ he
  exact ⟨_, _, ha, hfields "E", he, rfl, hmarked.1 rfl⟩

end Schema

end BufferSchema
