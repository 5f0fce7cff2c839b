import BufferSchema.Proofs.Schema.Calls
import BufferSchema.Proofs.Schema.Index

/-!
# What the errors about references show

An error of the search for cycles can be checked against the schema without running the search again. A cyclic way
is a way along the references that leaves a struct of the schema and comes back to a struct on it. A struct that
refers to itself is named with the fields by which it does, and an unknown struct with one that has a field made of
it. Which of the two kinds of coming back is told is a matter of the way: it is a struct's reference to itself only
if there is nothing else on the way to it.
-/

namespace BufferSchema.Schema

open Relation (TransGen)

variable {s : Schema} {path good way fields : List String} {name usedIn : String}

/-! The errors and the calls that stop with them. -/

theorem revisit_of_ne_singleton (hpath : name ∈ path) (hne : path ≠ [name]) :
    s.revisit path name = .cyclicReference (path.reverse ++ [name]) := by
  rw [revisit, if_neg]
  intro hlength
  obtain ⟨p, rfl⟩ := List.length_eq_one_iff.1 hlength
  exact hne (by rw [List.mem_singleton.1 hpath])

theorem checkAcyclic_eq_cyclicReference_iff : s.checkAcyclic = .error (.cyclicReference way) ↔
    ∃ path good name, s.Called path good name ∧ name ∈ path ∧ path ≠ [name] ∧ way = path.reverse ++ [name] := by
  rw [checkAcyclic_eq_error_iff]
  constructor
  · rintro ⟨path, good, name, hcall, hstop⟩
    generalize herror : CompileError.cyclicReference way = e at hstop
    cases hstop with
    | missing => cases herror
    | back hgood hpath =>
      have hne : path ≠ [name] := by
        rintro rfl
        simp [revisit] at herror
      rw [revisit_of_ne_singleton hpath hne] at herror
      exact ⟨path, good, name, hcall, hpath, hne, CompileError.cyclicReference.inj herror⟩
  · rintro ⟨path, good, name, hcall, hpath, hne, rfl⟩
    have hstop := Stops.back (s := s) (hcall.not_mem_good hpath) hpath
    rw [revisit_of_ne_singleton hpath hne] at hstop
    exact ⟨path, good, name, hcall, hstop⟩

theorem checkAcyclic_eq_selfReference_iff : s.checkAcyclic = .error (.selfReference name fields) ↔
    (∃ good, s.Called [name] good name) ∧
      fields = ((s.structs.find? name).map (·.fieldsReferencing name)).getD [] := by
  rw [checkAcyclic_eq_error_iff]
  constructor
  · rintro ⟨path, good, target, hcall, hstop⟩
    generalize herror : CompileError.selfReference name fields = e at hstop
    cases hstop with
    | missing => cases herror
    | back hgood hpath =>
      by_cases hone : path = [target]
      · subst hone
        obtain ⟨rfl, rfl⟩ := CompileError.selfReference.inj herror
        exact ⟨⟨good, hcall⟩, rfl⟩
      · rw [revisit_of_ne_singleton hpath hone] at herror
        cases herror
  · rintro ⟨⟨good, hcall⟩, rfl⟩
    have hpath : name ∈ [name] := List.mem_singleton_self name
    exact ⟨[name], good, name, hcall, .back (hcall.not_mem_good hpath) hpath⟩

theorem exists_called_of_unknownType (h : s.checkAcyclic = .error (.unknownType name usedIn)) :
    name ∉ s.structs ∧ ∃ path good, s.Called (usedIn :: path) good name := by
  obtain ⟨path, good, target, hcall, hstop⟩ := checkAcyclic_eq_error_iff.1 h
  generalize herror : CompileError.unknownType name usedIn = e at hstop
  cases hstop with
  | back hgood hpath =>
    rw [revisit] at herror
    split at herror <;> cases herror
  | missing hgood hpath hfind =>
    obtain ⟨rfl, rfl⟩ := CompileError.unknownType.inj herror
    refine ⟨Table.find?_eq_none_iff.1 hfind, ?_⟩
    cases path with
    | nil => exact absurd rfl (hcall.ne_nil_of_missing hfind)
    | cons usedIn path => exact ⟨path, good, hcall⟩

/-! What the errors show. -/

/-- A way along the references that leaves a struct of the schema and comes back to a struct on it. -/
structure ComesBack (s : Schema) (way : List String) : Prop where
  length : 3 ≤ way.length
  start : ∃ first ∈ s.structs, way.head? = some first
  isChain : way.IsChain s.outline.Refers
  nodup : way.dropLast.Nodup
  last : ∃ last, way.getLast? = some last ∧ way.dropLast.count last = 1 ∧ TransGen s.outline.Refers last last

theorem Called.comesBack (h : s.Called path good name) (hs : s.Indexed) (hpath : name ∈ path)
    (hne : path ≠ [name]) : s.ComesBack (path.reverse ++ [name]) where
  length := by
    obtain ⟨p, rest, rfl⟩ := List.exists_cons_of_ne_nil (List.ne_nil_of_mem hpath)
    cases rest with
    | nil => exact absurd (congrArg (fun p => [p]) (List.mem_singleton.1 hpath).symm) hne
    | cons q rest => simp
  start := by
    have hnil : path.reverse ≠ [] := by simpa using List.ne_nil_of_mem hpath
    refine ⟨path.reverse.head hnil, h.mem_structs _ (List.mem_reverse.1 (List.head_mem hnil)), ?_⟩
    rw [List.head?_append_of_ne_nil _ hnil, List.head?_eq_some_head hnil]
  isChain := by
    rw [← hs.refersTo_eq]
    exact h.isChain
  nodup := by
    rw [List.dropLast_concat]
    exact List.nodup_reverse.2 h.nodup
  last := by
    refine ⟨name, List.getLast?_concat, ?_, ?_⟩
    · rw [List.dropLast_concat, List.count_reverse]
      exact List.count_eq_one_of_mem h.nodup hpath
    · rw [← hs.refersTo_eq]
      exact h.leads name hpath

theorem comesBack_of_checkAcyclic (hs : s.Indexed) (h : s.checkAcyclic = .error (.cyclicReference way)) :
    s.ComesBack way := by
  obtain ⟨path, good, name, hcall, hpath, hne, rfl⟩ := checkAcyclic_eq_cyclicReference_iff.1 h
  exact hcall.comesBack hs hpath hne

/-- The fields that are told are all those by which the struct refers to itself. -/
theorem fields_of_checkAcyclic (hs : s.Built) (h : s.checkAcyclic = .error (.selfReference name fields)) :
    s.outline.Refers name name ∧ fields ≠ [] ∧ ∃ t, s.structs.find? name = some t ∧
      fields = (t.fields.filter fun f => f.type.element.structName? = some name).map
        fun f => s!"{f.name}:{f.type.name}" := by
  obtain ⟨⟨good, hcall⟩, hfields⟩ := checkAcyclic_eq_selfReference_iff.1 h
  have hrefers := hcall.refersTo
  obtain ⟨t, hfind⟩ := Table.exists_find?_of_mem (hcall.mem_structs name List.mem_cons_self)
  have hexact := (hs _ (Table.find?_eq_some_iff.1 hfind)).2.exact
  rw [hfind, Option.map_some, Option.getD_some, hexact.fieldsReferencing_eq] at hfields
  refine ⟨hs.indexed.refersTo_eq ▸ hrefers, ?_, t, hfind, hfields⟩
  rw [RefersTo, targets_of_find? hfind] at hrefers
  obtain ⟨f, hf, hname⟩ := (hexact.indexed name).1 hrefers
  rw [hfields, ne_eq, List.map_eq_nil_iff]
  exact List.ne_nil_of_mem (List.mem_filter.2 ⟨hf, decide_eq_true hname⟩)

/-- An error of the search for cycles is one of three, and what it tells is so. A cyclic way comes back to a struct
on it; the fields of a struct that refers to itself are all those that do; an unknown struct is not there, and the
struct that is named with it has a field made of it; its name is empty only if there is a struct without a name. That
a struct refers to itself is told exactly where the search comes back to the only struct on its way. If there are
others on it, the whole way is told, also where it ends with a struct that refers to itself. -/
theorem checkAcyclic_evidence (h : s.Built) :
    (∀ e, s.checkAcyclic = .error e → e.IsUnsound) ∧
    (∀ way, s.checkAcyclic = .error (.cyclicReference way) → s.ComesBack way) ∧
    (∀ name fields, s.checkAcyclic = .error (.selfReference name fields) →
      s.outline.Refers name name ∧ fields ≠ [] ∧ ∃ t, s.structs.find? name = some t ∧
        fields = (t.fields.filter fun f => f.type.element.structName? = some name).map
          fun f => s!"{f.name}:{f.type.name}") ∧
    (∀ name usedIn, s.checkAcyclic = .error (.unknownType name usedIn) →
      name ∉ s.structs ∧ usedIn ∈ s.structs ∧ s.outline.Refers usedIn name ∧
      (∃ path good, s.Called (usedIn :: path) good name) ∧ (usedIn = "" → "" ∈ s.structs)) ∧
    (∀ name, (∃ fields, s.checkAcyclic = .error (.selfReference name fields)) ↔ ∃ good, s.Called [name] good name) ∧
    (∀ way, s.checkAcyclic = .error (.cyclicReference way) ↔
      ∃ path good name, s.Called path good name ∧ name ∈ path ∧ path ≠ [name] ∧ way = path.reverse ++ [name]) ∧
    ∀ path good name, s.Called (name :: path) good name → path ≠ [] →
      s.checkAcyclic = .error (.cyclicReference (path.reverse ++ [name, name])) := by
  refine ⟨fun e he => ?_, fun way => comesBack_of_checkAcyclic h.indexed,
    fun name fields => fields_of_checkAcyclic h, fun name usedIn herror => ?_, fun name => ?_,
    fun way => checkAcyclic_eq_cyclicReference_iff, fun path good name hcall hne => ?_⟩
  · rcases s.checkAcyclic_cases with hok | ⟨e', he', hunsound⟩
    · rw [hok] at he
      cases he
    · exact Except.error.inj (he'.symm.trans he) ▸ hunsound
  · obtain ⟨hmissing, path, good, hcall⟩ := exists_called_of_unknownType herror
    have hmem := hcall.mem_structs usedIn List.mem_cons_self
    have hrefers : s.outline.Refers usedIn name := h.indexed.refersTo_eq ▸ hcall.refersTo
    exact ⟨hmissing, hmem, hrefers, ⟨path, good, hcall⟩, fun hempty => hempty ▸ hmem⟩
  · constructor
    · rintro ⟨fields, herror⟩
      exact (checkAcyclic_eq_selfReference_iff.1 herror).1
    · exact fun hcall => ⟨_, checkAcyclic_eq_selfReference_iff.2 ⟨hcall, rfl⟩⟩
  · refine checkAcyclic_eq_cyclicReference_iff.2 ⟨name :: path, good, name, hcall, List.mem_cons_self, ?_, ?_⟩
    · simpa using hne
    · rw [List.reverse_cons, List.append_assoc]
      rfl

/-- A struct that refers to itself, met on the way from another one. -/
def detourSchema : Schema where
  structs := Parser.insertAll ∅
    [Declaration.build ⟨"A", [⟨"x", ⟨.struct "B", .scalar⟩⟩]⟩ ⟨1, 1⟩,
      Declaration.build ⟨"B", [⟨"y", ⟨.struct "B", .map⟩⟩]⟩ ⟨2, 1⟩]
  exports := "A"

/-- The same struct, met where the search starts. -/
def selfSchema : Schema where
  structs := Parser.insertAll ∅
    [Declaration.build ⟨"B", [⟨"y", ⟨.struct "B", .map⟩⟩, ⟨"n", ⟨.builtin .u8, .scalar⟩⟩,
      ⟨"z", ⟨.struct "B", .fixedArray 2⟩⟩]⟩ ⟨2, 1⟩]
  exports := "B"

/-- A struct with a field made of one that is not there. -/
def danglingSchema : Schema where
  structs := Parser.insertAll ∅ [Declaration.build ⟨"A", [⟨"x", ⟨.struct "B", .scalar⟩⟩]⟩ ⟨1, 1⟩]
  exports := "A"

theorem called_first (h : s.structs.keys.head? = some name) : s.Called [] [] name := by
  obtain ⟨after, hkeys⟩ := List.head?_eq_some_iff.1 h
  exact @Called.start s [] after [] name hkeys (by rw [searchAll])

theorem Called.first_target {target : String} (h : s.Called path good name) (hgood : name ∉ good)
    (hpath : name ∉ path) (ht : (s.targets name).head? = some target) : s.Called (name :: path) good target := by
  obtain ⟨after, htargets⟩ := List.head?_eq_some_iff.1 ht
  cases hfind : s.structs.find? name with
  | none => simp [targets, hfind] at htargets
  | some t =>
    rw [targets_of_find? hfind] at htargets
    exact @Called.follow s path good [] after good name target t h hgood hpath hfind htargets (by rw [searchAll])

theorem evidence_of_loops :
    (detourSchema.checkAcyclic = .error (.cyclicReference ["A", "B", "B"]) ∧
      detourSchema.ComesBack ["A", "B", "B"]) ∧
    selfSchema.checkAcyclic = .error (.selfReference "B" ["y:B", "z:B"]) ∧
    danglingSchema.checkAcyclic = .error (.unknownType "B" "A") ∧ danglingSchema.outline.Refers "A" "B" := by
  refine ⟨?_, ?_, ?_⟩
  · have ha : detourSchema.Called [] [] "A" := called_first (by decide)
    have hb : detourSchema.Called ["A"] [] "B" := ha.first_target (by simp) (by simp) (by decide)
    have hb' : detourSchema.Called ["B", "A"] [] "B" := hb.first_target (by simp) (by simp) (by decide)
    obtain ⟨-, hway, -, -, -, -, hdeeper⟩ := checkAcyclic_evidence (s := detourSchema) (by decide)
    have herror := hdeeper ["A"] [] "B" hb' (by simp)
    exact ⟨herror, hway _ herror⟩
  · have hb : selfSchema.Called [] [] "B" := called_first (by decide)
    have hb' : selfSchema.Called ["B"] [] "B" := hb.first_target (by simp) (by simp) (by decide)
    obtain ⟨-, -, hfields, -, hself, -, -⟩ := checkAcyclic_evidence (s := selfSchema) (by decide)
    obtain ⟨fields, herror⟩ := (hself "B").2 ⟨[], hb'⟩
    obtain ⟨-, -, t, hfind, rfl⟩ := hfields "B" fields herror
    obtain rfl := Option.some.inj (hfind.symm.trans (Option.some_get (by decide)).symm)
    exact herror
  · have ha : danglingSchema.Called [] [] "A" := called_first (by decide)
    have hb : danglingSchema.Called ["A"] [] "B" := ha.first_target (by simp) (by simp) (by decide)
    have herror : danglingSchema.checkAcyclic = .error (.unknownType "B" "A") :=
      checkAcyclic_eq_error_iff.2 ⟨_, _, _, hb, .missing (by simp) (by simp) (by decide)⟩
    obtain ⟨-, -, -, hmissing, -, -, -⟩ := checkAcyclic_evidence (s := danglingSchema) (by decide)
    exact ⟨herror, (hmissing "B" "A" herror).2.2.1⟩

/-- A struct without a name, and a struct that has one, both with a field made of a struct that is not there. -/
def namelessSchema : Schema where
  structs := Parser.insertAll ∅
    [Declaration.build ⟨"", [⟨"a", ⟨.struct "B", .scalar⟩⟩]⟩ ⟨1, 1⟩,
      Declaration.build ⟨"X", [⟨"a", ⟨.struct "B", .scalar⟩⟩]⟩ ⟨1, 1⟩]
  exports := ""

/-- An unknown struct is told with an empty name if the struct that the search meets it in has no name. -/
theorem nameless_struct_told : namelessSchema.Built ∧ namelessSchema.checkAcyclic = .error (.unknownType "B" "") := by
  refine ⟨by decide, ?_⟩
  have hnameless : namelessSchema.Called [] [] "" := called_first (by decide)
  have hb : namelessSchema.Called [""] [] "B" := hnameless.first_target (by simp) (by simp) (by decide)
  exact checkAcyclic_eq_error_iff.2 ⟨_, _, _, hb, .missing (by simp) (by simp) (by decide)⟩

end BufferSchema.Schema
