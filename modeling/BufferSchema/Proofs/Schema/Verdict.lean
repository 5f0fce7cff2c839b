import BufferSchema.Proofs.Schema.PlainSearch
import BufferSchema.Proofs.Schema.Spelling

/-!
# The verdict of the analysis

A schema as it comes from its text, with no mark on it, is refused for one of three reasons: some struct refers
to the exported one, a field is made of a struct that is not there, or the references go round somewhere. The
first reason is looked at first, and it alone says all about itself: it lists the structs that refer to the
exported one.
-/

namespace BufferSchema

open Relation (TransGen ReflTransGen)

namespace CompileError

/-- The errors about references that lead nowhere or go round. -/
inductive IsUnsound : CompileError → Prop where
  | unknownType {name usedIn : String} : IsUnsound (.unknownType name usedIn)
  | selfReference {name : String} {fields : List String} : IsUnsound (.selfReference name fields)
  | cyclicReference {path : List String} : IsUnsound (.cyclicReference path)

end CompileError

namespace Outline

instance (o : Outline) (source target : String) : Decidable (o.Refers source target) :=
  inferInstanceAs (Decidable (∃ d ∈ o.structs, d.name = source ∧ ∃ f ∈ d.fields,
    f.type.element.structName? = some target))

end Outline

namespace Struct

variable {t : Struct}

/-- The struct is what its fields make of it, one after the other. -/
def Unmarked (t : Struct) : Prop := t = t.declaration.build t.position

instance (t : Struct) : Decidable t.Unmarked := inferInstanceAs (Decidable (t = t.declaration.build t.position))

theorem Unmarked.indexed (h : t.Unmarked) : t.Indexed := by
  rw [h]
  exact indexed_foldl_push _ fun target => by simp [Table.mem_iff]

theorem Unmarked.everReferenced (h : t.Unmarked) : t.everReferenced = false := by
  rw [h]
  exact everReferenced_foldl_push _

theorem position_foldl_push (fs : List Field) (t : Struct) : (fs.foldl Struct.push t).position = t.position := by
  induction fs generalizing t with
  | nil => rfl
  | cons f fs ih => rw [List.foldl_cons, ih]; rfl

theorem referencedBy_foldl_push (fs : List Field) (t : Struct) :
    (fs.foldl Struct.push t).referencedBy = t.referencedBy := by
  induction fs generalizing t with
  | nil => rfl
  | cons f fs ih => rw [List.foldl_cons, ih]; rfl

theorem Unmarked.referencedBy (h : t.Unmarked) : t.referencedBy = ∅ := by
  rw [h]
  exact referencedBy_foldl_push _ _

end Struct

theorem Declaration.unmarked_build (d : Declaration) (p : Text.Position) : (d.build p).Unmarked := by
  have hposition : (d.build p).position = p := Struct.position_foldl_push _ _
  rw [Struct.Unmarked, d.declaration_build, hposition]

theorem Schema.Parser.exists_build_of_structSyntax {t : Struct} {us : List Token}
    (h : Schema.Parser.StructSyntax t us) : ∃ (d : Declaration) (p : Text.Position), t = d.build p := by
  cases h with
  | @intro keyword name _ _ fs => exact ⟨⟨name.lexeme, fs⟩, keyword.position, rfl⟩

namespace Schema

variable {s : Schema}

/-- Every struct stands under its own name and is what its fields make of it, with no mark on it. -/
def Unmarked (s : Schema) : Prop := ∀ e ∈ s.structs.entries, e.1 = e.2.name ∧ e.2.Unmarked

instance (s : Schema) : Decidable s.Unmarked :=
  inferInstanceAs (Decidable (∀ e ∈ s.structs.entries, e.1 = e.2.name ∧ e.2.Unmarked))

theorem Unmarked.indexed (h : s.Unmarked) : s.Indexed := fun e he => ⟨(h e he).1, (h e he).2.indexed⟩

theorem Indexed.names_referrers (h : s.Indexed) (target : String) :
    (s.referrers target).map (·.name) = s.structs.keys.filter fun source => s.outline.Refers source target := by
  simp only [h.named.names_referrers, h.refersTo_eq]

/-! What the search says. -/

/-- All structs can be built exactly where no reference leads to a struct that is not there and none goes
round. -/
theorem forall_buildable_iff : (∀ name ∈ s.structs, s.Buildable name) ↔
    (∀ source target, s.RefersTo source target → target ∈ s.structs) ∧
      ∀ name, ¬ TransGen s.RefersTo name name := by
  constructor
  · intro h
    refine ⟨fun source target ht => ((h source (mem_structs_of_refersTo ht)).target ht).mem, fun name hcycle => ?_⟩
    obtain ⟨target, hfirst, -⟩ := TransGen.head'_iff.1 hcycle
    exact (h name (mem_structs_of_refersTo hfirst)).not_cyclic hcycle
  · rintro ⟨hdeclared, hacyclic⟩ name hmem
    exact buildable_of_not_cyclic hdeclared hacyclic hmem

mutual

theorem isUnsound_of_walk (path : List String) (name : String) (e : CompileError)
    (h : s.walk path name = .error e) : e.IsUnsound := by
  by_cases hp : name ∈ path
  · rw [walk_of_mem hp, revisit] at h
    split at h
    · obtain rfl := Except.error.inj h
      exact .selfReference
    · obtain rfl := Except.error.inj h
      exact .cyclicReference
  · cases hf : s.structs.find? name with
    | none =>
      rw [walk_of_missing hp hf] at h
      obtain rfl := Except.error.inj h
      exact .unknownType
    | some t =>
      rw [walk_of_find? hp hf] at h
      exact isUnsound_of_walkAll (name :: path) _ e h
termination_by (s.unentered path, 0)
decreasing_by exact Prod.Lex.left _ _ (unentered_cons_lt (Table.mem_of_find?_eq_some ‹_›) ‹_›)

theorem isUnsound_of_walkAll (path names : List String) (e : CompileError)
    (h : s.walkAll path names = .error e) : e.IsUnsound := by
  cases names with
  | nil =>
    rw [walkAll] at h
    cases h
  | cons name names =>
    rw [walkAll] at h
    split at h
    · next e' hfirst =>
      obtain rfl := Except.error.inj h
      exact isUnsound_of_walk path name e' hfirst
    · exact isUnsound_of_walkAll path names e h
termination_by (s.unentered path, names.length + 1)
decreasing_by
  · exact Prod.Lex.right _ (by simp)
  · subst_vars
    exact Prod.Lex.right _ (by simp)

end

/-- The search ends well, or it tells of a reference that leads nowhere or goes round. -/
theorem checkAcyclic_cases (s : Schema) : s.checkAcyclic = .ok () ∨ ∃ e, s.checkAcyclic = .error e ∧ e.IsUnsound := by
  have hwalk : (s.searchAll [] [] s.structs.keys).map (fun _ => ()) = s.walkAll [] s.structs.keys :=
    searchAll_eq_walkAll [] [] _ (fun _ hg => absurd hg List.not_mem_nil) fun _ _ _ hp => absurd hp List.not_mem_nil
  unfold checkAcyclic
  cases hsearch : s.searchAll [] [] s.structs.keys with
  | ok good => exact .inl rfl
  | error e =>
    rw [hsearch] at hwalk
    exact .inr ⟨e, rfl, isUnsound_of_walkAll _ _ e hwalk.symm⟩

/-! What the marks say. -/

theorem Unmarked.everReferenced_iff (h : s.Unmarked) {name : String} {t : Struct}
    (ht : s.markReferences.structs.find? name = some t) :
    t.everReferenced = true ↔ ∃ source, s.outline.Refers source name := by
  rw [find?_markReferences, Option.map_eq_some_iff] at ht
  obtain ⟨t, ht, rfl⟩ := ht
  have hflag := (h _ (Table.find?_eq_some_iff.1 ht)).2.everReferenced
  rw [h.indexed.named.everReferenced_iff, hflag, h.indexed.refersTo_eq]
  simp only [Bool.false_eq_true, false_or]

theorem Unmarked.keys_referencedBy (h : s.Unmarked) {name : String} {t : Struct}
    (ht : s.markReferences.structs.find? name = some t) :
    t.referencedBy.keys = s.structs.keys.filter fun source => s.outline.Refers source name := by
  rw [find?_markReferences, Option.map_eq_some_iff] at ht
  obtain ⟨t, ht, rfl⟩ := ht
  have hunmarked := (h _ (Table.find?_eq_some_iff.1 ht)).2
  have hempty : t.referencedBy.keys = [] := by rw [hunmarked.referencedBy, Table.keys_empty]
  rw [Struct.keys_referencedBy_markAll, hempty, h.indexed.names_referrers, List.nil_append]
  rw [hempty, h.indexed.names_referrers, List.nil_append]
  exact s.structs.nodup_keys.filter _

theorem Unmarked.exists_exported (h : s.Unmarked) (hexported : s.exports ∈ s.structs) :
    ∃ t, s.markReferences.structs.find? s.exports = some t ∧ s.exports = t.name := by
  obtain ⟨t, ht⟩ : ∃ t, s.markReferences.structs.find? s.exports = some t := by
    apply Table.exists_find?_of_mem
    rw [Table.mem_iff, keys_markReferences]
    exact hexported
  exact ⟨t, ht, (h.indexed.markReferences _ (Table.find?_eq_some_iff.1 ht)).1⟩

/-- A reference to the exported struct decides, whatever the search would say. -/
theorem Unmarked.verdict_of_refers (h : s.Unmarked) (hexported : s.exports ∈ s.structs)
    (hrefers : ∃ source, s.outline.Refers source s.exports) :
    s.markReferences.verdict = .error (.exportReferenced s.exports
      (s.structs.keys.filter fun source => s.outline.Refers source s.exports)) := by
  obtain ⟨t, ht, hname⟩ := h.exists_exported hexported
  have hfind : s.markReferences.exported? = some t := ht
  have hmarked := (h.everReferenced_iff ht).2 hrefers
  rw [verdict, hfind]
  simp only [hmarked, if_true, ← hname, h.keys_referencedBy ht]

theorem Unmarked.verdict_of_not_refers (h : s.Unmarked) (hexported : s.exports ∈ s.structs)
    (hnone : ∀ source, ¬ s.outline.Refers source s.exports) :
    s.markReferences.verdict = s.markReferences.checkAcyclic := by
  obtain ⟨t, ht, -⟩ := h.exists_exported hexported
  have hfind : s.markReferences.exported? = some t := ht
  have hmarked : ¬ t.everReferenced = true := by
    rw [h.everReferenced_iff ht]
    rintro ⟨source, hsource⟩
    exact hnone source hsource
  rw [verdict, hfind]
  simp only [hmarked, if_false, Bool.false_eq_true]

/-- The search of a schema with its marks. -/
theorem Unmarked.checkAcyclic_eq_ok_iff (h : s.Unmarked) : s.markReferences.checkAcyclic = .ok () ↔
    (∀ source target, s.outline.Refers source target → target ∈ s.structs) ∧
      ∀ name, ¬ TransGen s.outline.Refers name name := by
  have hrefers : s.markReferences.RefersTo = s.outline.Refers := by
    rw [h.indexed.markReferences.refersTo_eq, outline_markReferences]
  rw [Schema.checkAcyclic_eq_ok_iff, forall_buildable_iff, hrefers]
  simp only [Table.mem_iff, keys_markReferences]

theorem Unmarked.verdict_eq_ok_iff (h : s.Unmarked) (hexported : s.exports ∈ s.structs) :
    s.markReferences.verdict = .ok () ↔
      (∀ source, ¬ s.outline.Refers source s.exports) ∧
      (∀ source target, s.outline.Refers source target → target ∈ s.structs) ∧
      ∀ name, ¬ TransGen s.outline.Refers name name := by
  by_cases hrefers : ∃ source, s.outline.Refers source s.exports
  · obtain ⟨source, hsource⟩ := hrefers
    rw [h.verdict_of_refers hexported ⟨source, hsource⟩]
    constructor
    · intro hok
      cases hok
    · rintro ⟨hnone, -⟩
      exact absurd hsource (hnone source)
  · have hnone : ∀ source, ¬ s.outline.Refers source s.exports := fun source hsource => hrefers ⟨source, hsource⟩
    rw [h.verdict_of_not_refers hexported hnone, h.checkAcyclic_eq_ok_iff]
    exact ⟨fun hsound => ⟨hnone, hsound⟩, fun hsound => hsound.2⟩

/-- A schema whose structs bear no marks yet is sound exactly if nothing refers to the exported struct, every
reference leads to a struct of the schema, and none goes round, wherever in the schema. If the exported struct is
referred to, this is what the error says, with all structs that refer to it in their order, whatever else is
wrong. Otherwise the error is about a reference that leads nowhere or goes round. -/
theorem analyze_verdict (h : s.Unmarked) (hexported : s.exports ∈ s.structs) :
    (s.analyze.2 = .ok () ↔
      (∀ source, ¬ s.outline.Refers source s.exports) ∧
      (∀ source target, s.outline.Refers source target → target ∈ s.structs) ∧
      ∀ name, ¬ TransGen s.outline.Refers name name) ∧
    ((∃ source, s.outline.Refers source s.exports) →
      s.analyze.2 = .error (.exportReferenced s.exports
        (s.structs.keys.filter fun source => s.outline.Refers source s.exports))) ∧
    ((∀ source, ¬ s.outline.Refers source s.exports) →
      ¬ ((∀ source target, s.outline.Refers source target → target ∈ s.structs) ∧
        ∀ name, ¬ TransGen s.outline.Refers name name) →
      ∃ e, s.analyze.2 = .error e ∧ e.IsUnsound) := by
  refine ⟨h.verdict_eq_ok_iff hexported, h.verdict_of_refers hexported, fun hnone hunsound => ?_⟩
  have hverdict : s.analyze.2 = _ := h.verdict_of_not_refers hexported hnone
  rw [hverdict]
  exact (checkAcyclic_cases _).resolve_left (mt h.checkAcyclic_eq_ok_iff.1 hunsound)

/-- A schema with all faults: two structs refer to the exported one, which refers to itself, and one struct refers
to one that is not there. -/
def faultySchema : Schema where
  structs := Parser.insertAll ∅
    [Declaration.build ⟨"A", [⟨"x", ⟨.struct "E", .scalar⟩⟩, ⟨"y", ⟨.struct "Missing", .map⟩⟩]⟩ ⟨1, 1⟩,
      Declaration.build ⟨"E", [⟨"z", ⟨.struct "E", .dynamicArray⟩⟩]⟩ ⟨2, 1⟩]
  exports := "E"

theorem analyze_faulty : faultySchema.Unmarked ∧ faultySchema.exports ∈ faultySchema.structs ∧
    faultySchema.analyze.2 = .error (.exportReferenced "E" ["A", "E"]) := by
  have hunmarked : faultySchema.Unmarked := by decide
  have hexported : faultySchema.exports ∈ faultySchema.structs := by decide
  have hrefers : faultySchema.outline.Refers "A" "E" := by decide
  exact ⟨hunmarked, hexported, (analyze_verdict hunmarked hexported).2.1 ⟨"A", hrefers⟩⟩

/-! Accepted schemas. -/

theorem unmarked_of_ofTokens {tokens : TokenStream} (h : ofTokens tokens = .ok s) :
    s.Unmarked ∧ s.exports ∈ s.structs := by
  obtain ⟨hexported, hstructs⟩ := structSyntax_of_ofTokens h
  refine ⟨fun e he => ?_, hexported⟩
  obtain ⟨hname, us, hus⟩ := hstructs e he
  obtain ⟨d, p, hbuild⟩ := Parser.exists_build_of_structSyntax hus
  exact ⟨hname, hbuild ▸ d.unmarked_build p⟩

/-- What the analysis has found out about a schema that is accepted. -/
structure Sound (s : Schema) : Prop where
  indexed : s.Indexed
  exported : s.exports ∈ s.structs
  unreferenced : ∀ source, ¬ s.outline.Refers source s.exports
  declared : ∀ source target, s.outline.Refers source target → target ∈ s.structs
  acyclic : ∀ name, ¬ TransGen s.outline.Refers name name
  everReferenced_iff : ∀ name t, s.structs.find? name = some t →
    (t.everReferenced = true ↔ ∃ source, s.outline.Refers source name)

theorem sound_of_parse {tokens : TokenStream} (hparse : (parse tokens).result = .ok s) : s.Sound := by
  obtain ⟨read, hread, hverdict, rfl⟩ := parse_eq_ok_iff.1 hparse
  obtain ⟨hunmarked, hexported⟩ := unmarked_of_ofTokens hread
  obtain ⟨hnone, hdeclared, hacyclic⟩ := (hunmarked.verdict_eq_ok_iff hexported).1 hverdict
  have hmem : ∀ name, name ∈ read.markReferences.structs ↔ name ∈ read.structs := by
    intro name
    rw [Table.mem_iff, keys_markReferences, Table.mem_iff]
  have houtline := read.outline_markReferences
  refine ⟨hunmarked.indexed.markReferences, (hmem _).2 hexported, ?_, ?_, ?_, fun name t ht => ?_⟩
  · rw [houtline]
    exact hnone
  · rw [houtline]
    exact fun source target ht => (hmem _).2 (hdeclared source target ht)
  · rw [houtline]
    exact hacyclic
  · rw [houtline]
    exact hunmarked.everReferenced_iff ht

end Schema

end BufferSchema
