import BufferSchema.Proofs.Schema.Reading
import BufferSchema.Schema.Order

/-!
# The order of helpers puts the used before the users

Placing a name puts it behind everything that it refers to. A name that lies on the way is not placed a second
time, but then it leads back to itself. So in the order of helpers every name stands behind the names that it
refers to, except for those which refer back to it along some way, and it is listed once. What is listed is what
the roots lead to: in an accepted schema, every struct that some other one refers to.
-/

namespace BufferSchema

open Relation (TransGen ReflTransGen)

/-- In the list `l`, `a` stands somewhere before `b`. -/
def Precedes (l : List String) (a b : String) : Prop := ∃ before after, l = before ++ b :: after ∧ a ∈ before

namespace Precedes

variable {l : List String} {a b : String}

theorem append (h : Precedes l a b) (more : List String) : Precedes (l ++ more) a b := by
  obtain ⟨before, after, rfl, ha⟩ := h
  exact ⟨before, after ++ more, by simp, ha⟩

theorem snoc (h : a ∈ l) : Precedes (l ++ [b]) a b := ⟨l, [], rfl, h⟩

theorem mem (h : Precedes l a b) : a ∈ l := by
  obtain ⟨before, after, rfl, ha⟩ := h
  exact List.mem_append_left _ ha

end Precedes

namespace Schema

variable {s : Schema} {path sorted mid result names : List String} {name : String}

theorem place_of_listed (h : name ∈ sorted ∨ name ∈ path) : s.place path sorted name = sorted := by
  rw [place]
  split
  · rfl
  · next hs => rw [dif_pos (h.resolve_left hs)]

/-- A new name comes last, behind what it refers to. -/
theorem place_of_new (hs : name ∉ sorted) (hp : name ∉ path) :
    s.place path sorted name = s.placeAll (name :: path) sorted (s.targets name) ++ [name] := by
  rw [place, if_neg hs, dif_neg hp]
  split
  · next hf => rw [targets, hf, placeAll]
  · next t hf => rw [targets_of_find? hf]

/-- Every listed name stands behind the names that it refers to, or these lead back to it and are listed too,
unless they lie on the way. -/
def Ordered (s : Schema) (path sorted : List String) : Prop :=
  ∀ source ∈ sorted, ∀ target, s.RefersTo source target →
    Precedes sorted target source ∨
      ReflTransGen s.RefersTo target source ∧ (target ∈ sorted ∨ target ∈ path)

/-- What placing `names` behind `sorted` does, when `path` has led there. -/
structure Placement (s : Schema) (path sorted names result : List String) : Prop where
  kept : sorted ⊆ result
  covered : ∀ name ∈ names, name ∈ result ∨ name ∈ path
  reached : ∀ x ∈ result, x ∈ sorted ∨ ∃ name ∈ names, ReflTransGen s.RefersTo name x
  nodup : sorted.Nodup → (∀ p ∈ path, p ∉ sorted) → result.Nodup ∧ ∀ p ∈ path, p ∉ result
  ordered : (∀ p ∈ path, ∀ name ∈ names, ReflTransGen s.RefersTo p name) → s.Ordered path sorted →
    s.Ordered path result

namespace Placement

theorem nil : s.Placement path sorted [] sorted where
  kept := List.Subset.refl _
  covered := by simp
  reached _ hx := .inl hx
  nodup hnodup hfree := ⟨hnodup, hfree⟩
  ordered _ h := h

theorem listed (h : name ∈ sorted ∨ name ∈ path) : s.Placement path sorted [name] sorted where
  kept := List.Subset.refl _
  covered := by simpa using h
  reached _ hx := .inl hx
  nodup hnodup hfree := ⟨hnodup, hfree⟩
  ordered _ h := h

theorem cons (hfirst : s.Placement path sorted [name] mid) (hrest : s.Placement path mid names result) :
    s.Placement path sorted (name :: names) result where
  kept := List.Subset.trans hfirst.kept hrest.kept
  covered n hn := by
    rcases List.mem_cons.1 hn with rfl | hn
    · exact (hfirst.covered n List.mem_cons_self).imp_left (@hrest.kept n)
    · exact hrest.covered n hn
  reached x hx := by
    rcases hrest.reached x hx with hx | ⟨n, hn, hreach⟩
    · rcases hfirst.reached x hx with hx | ⟨n, hn, hreach⟩
      · exact .inl hx
      · obtain rfl := List.mem_singleton.1 hn
        exact .inr ⟨n, List.mem_cons_self, hreach⟩
    · exact .inr ⟨n, List.mem_cons_of_mem name hn, hreach⟩
  nodup hnodup hfree := by
    obtain ⟨hnodup', hfree'⟩ := hfirst.nodup hnodup hfree
    exact hrest.nodup hnodup' hfree'
  ordered hpath h :=
    hrest.ordered (fun p hp n hn => hpath p hp n (List.mem_cons_of_mem name hn)) <|
      hfirst.ordered (fun p hp n hn => hpath p hp n (List.mem_singleton.1 hn ▸ List.mem_cons_self)) h

/-- A name is listed when everything that it refers to has been placed. -/
theorem snoc (hs : name ∉ sorted) (hp : name ∉ path)
    (h : s.Placement (name :: path) sorted (s.targets name) mid) :
    s.Placement path sorted [name] (mid ++ [name]) where
  kept x hx := List.mem_append_left _ (h.kept hx)
  covered := by simp
  reached x hx := by
    rcases List.mem_append.1 hx with hx | hx
    · rcases h.reached x hx with hx | ⟨target, ht, hreach⟩
      · exact .inl hx
      · exact .inr ⟨name, List.mem_cons_self, .head ht hreach⟩
    · exact .inr ⟨name, List.mem_cons_self, List.mem_singleton.1 hx ▸ .refl⟩
  nodup hnodup hfree := by
    have hfree' : ∀ p ∈ name :: path, p ∉ sorted := by
      intro p hmem
      rcases List.mem_cons.1 hmem with rfl | hmem
      · exact hs
      · exact hfree p hmem
    obtain ⟨hmid, hnew⟩ := h.nodup hnodup hfree'
    constructor
    · rw [List.nodup_append]
      refine ⟨hmid, by simp, fun a ha b hb hab => ?_⟩
      rw [hab, List.mem_singleton.1 hb] at ha
      exact hnew name List.mem_cons_self ha
    · intro p hmem hlisted
      rcases List.mem_append.1 hlisted with hlisted | hlisted
      · exact hnew p (List.mem_cons_of_mem name hmem) hlisted
      · exact hp (List.mem_singleton.1 hlisted ▸ hmem)
  ordered hpath hsorted := by
    have hreach : ∀ p ∈ path, ReflTransGen s.RefersTo p name := fun p hmem => hpath p hmem name List.mem_cons_self
    have hmid : s.Ordered (name :: path) mid := by
      refine h.ordered (fun p hmem target ht => ?_) fun source hsource target ht => ?_
      · rcases List.mem_cons.1 hmem with rfl | hmem
        · exact .single ht
        · exact (hreach p hmem).tail ht
      · exact (hsorted source hsource target ht).imp_right
          fun hback => ⟨hback.1, hback.2.imp_right (List.mem_cons_of_mem name)⟩
    intro source hsource target ht
    rcases List.mem_append.1 hsource with hsource | hsource
    · rcases hmid source hsource target ht with hbefore | ⟨hback, hlisted⟩
      · exact .inl (hbefore.append [name])
      · refine .inr ⟨hback, ?_⟩
        rcases hlisted with hlisted | hlisted
        · exact .inl (List.mem_append_left _ hlisted)
        · rcases List.mem_cons.1 hlisted with rfl | hlisted
          · exact .inl (by simp)
          · exact .inr hlisted
    · obtain rfl := List.mem_singleton.1 hsource
      -- what the new name refers to is listed, or it lies on the way to the new name
      rcases h.covered target ht with hlisted | hlisted
      · exact .inl (.snoc hlisted)
      · rcases List.mem_cons.1 hlisted with rfl | hlisted
        · exact .inr ⟨.refl, .inl (by simp)⟩
        · exact .inr ⟨hreach target hlisted, .inr hlisted⟩

end Placement

mutual

theorem placement_place (path sorted : List String) (name : String) :
    s.Placement path sorted [name] (s.place path sorted name) := by
  by_cases hlisted : name ∈ sorted ∨ name ∈ path
  · rw [place_of_listed hlisted]
    exact .listed hlisted
  · obtain ⟨hs, hp⟩ := not_or.1 hlisted
    rw [place_of_new hs hp]
    cases hf : s.structs.find? name with
    | none =>
      have hnone : s.targets name = [] := by rw [targets, hf]
      rw [hnone, placeAll]
      exact .snoc hs hp (hnone ▸ .nil)
    | some t => exact .snoc hs hp (placement_placeAll (name :: path) sorted (s.targets name))
termination_by (s.unentered path, 0)
decreasing_by exact Prod.Lex.left _ _ (unentered_cons_lt (Table.mem_of_find?_eq_some ‹_›) ‹_›)

theorem placement_placeAll (path sorted names : List String) :
    s.Placement path sorted names (s.placeAll path sorted names) := by
  cases names with
  | nil =>
    rw [placeAll]
    exact .nil
  | cons name names =>
    rw [placeAll]
    exact .cons (placement_place path sorted name) (placement_placeAll path (s.place path sorted name) names)
termination_by (s.unentered path, names.length + 1)
decreasing_by
  · exact Prod.Lex.right _ (by simp)
  · subst_vars
    exact Prod.Lex.right _ (by simp)

end

theorem mem_helperRoots_iff : name ∈ s.helperRoots ↔
    ∃ t, s.structs.find? name = some t ∧ name ≠ s.exports ∧ t.everReferenced = true := by
  simp only [helperRoots, List.mem_map, List.mem_filter, Bool.and_eq_true, bne_iff_ne, Prod.exists,
    exists_and_right, exists_eq_right, Table.find?_eq_some_iff]

theorem nodup_helperOrder (s : Schema) : s.helperOrder.Nodup :=
  ((placement_placeAll [] [] s.helperRoots).nodup List.nodup_nil (by simp)).1

theorem ordered_helperOrder (s : Schema) : s.Ordered [] s.helperOrder :=
  (placement_placeAll [] [] s.helperRoots).ordered (by simp) (fun _ h => absurd h List.not_mem_nil)

theorem target_mem_helperOrder {source target : String} (h : source ∈ s.helperOrder)
    (ht : s.RefersTo source target) : target ∈ s.helperOrder := by
  rcases s.ordered_helperOrder source h target ht with hbefore | ⟨-, hlisted⟩
  · exact hbefore.mem
  · exact hlisted.resolve_right List.not_mem_nil

/-- What the roots lead to is listed, and nothing else. -/
theorem mem_helperOrder_iff :
    name ∈ s.helperOrder ↔ ∃ root ∈ s.helperRoots, ReflTransGen s.RefersTo root name := by
  have hplaced := placement_placeAll (s := s) [] [] s.helperRoots
  constructor
  · intro h
    exact (hplaced.reached name h).resolve_left List.not_mem_nil
  · rintro ⟨root, hroot, hreach⟩
    induction hreach with
    | refl => exact (hplaced.covered root hroot).resolve_right List.not_mem_nil
    | tail _ ht ih => exact target_mem_helperOrder ih ht

namespace Sound

theorem refersTo_eq (h : s.Sound) : s.RefersTo = s.outline.Refers := h.indexed.refersTo_eq

/-- Of an accepted schema, every struct is listed that another one refers to. -/
theorem mem_helperOrder_iff (h : s.Sound) :
    name ∈ s.helperOrder ↔ name ≠ s.exports ∧ ∃ source, s.outline.Refers source name := by
  have hroot : ∀ {name : String}, name ≠ s.exports → (∃ source, s.outline.Refers source name) →
      name ∈ s.helperRoots := by
    rintro name hne ⟨source, hsource⟩
    obtain ⟨t, ht⟩ := Table.exists_find?_of_mem (h.declared source name hsource)
    exact mem_helperRoots_iff.2 ⟨t, ht, hne, (h.everReferenced_iff name t ht).2 ⟨source, hsource⟩⟩
  rw [Schema.mem_helperOrder_iff, h.refersTo_eq]
  constructor
  · rintro ⟨root, hmem, hreach⟩
    obtain ⟨t, ht, hne, hmarked⟩ := mem_helperRoots_iff.1 hmem
    rcases ReflTransGen.cases_tail hreach with rfl | ⟨source, -, hsource⟩
    · exact ⟨hne, (h.everReferenced_iff _ t ht).1 hmarked⟩
    · refine ⟨?_, source, hsource⟩
      rintro rfl
      exact h.unreferenced source hsource
  · rintro ⟨hne, hsource⟩
    exact ⟨name, hroot hne hsource, .refl⟩

/-- In an accepted schema no reference leads back, so every listed struct stands behind those it refers to. -/
theorem precedes_helperOrder (h : s.Sound) {source target : String} (hsource : source ∈ s.helperOrder)
    (ht : s.outline.Refers source target) : Precedes s.helperOrder target source := by
  refine (s.ordered_helperOrder source hsource target (h.refersTo_eq ▸ ht)).resolve_right ?_
  rintro ⟨hback, -⟩
  rw [h.refersTo_eq] at hback
  exact h.acyclic source (TransGen.head' ht hback)

end Sound

/-- The order of helpers lists each name once. It lists what can be reached from the structs that are marked as
referred to, the exported one excepted. What a listed struct refers to is listed too, and stands before it unless
it leads back to it. Of an accepted schema, the order lists all structs that some struct refers to, each behind
those it refers to itself. -/
theorem helperOrder_sorted :
    (∀ s : Schema, s.helperOrder.Nodup ∧
      (∀ name, name ∈ s.helperOrder ↔ ∃ root t, s.structs.find? root = some t ∧ root ≠ s.exports ∧
        t.everReferenced = true ∧ ReflTransGen s.RefersTo root name) ∧
      ∀ source ∈ s.helperOrder, ∀ target, s.RefersTo source target →
        target ∈ s.helperOrder ∧
          (¬ ReflTransGen s.RefersTo target source → Precedes s.helperOrder target source)) ∧
    ∀ (tokens : TokenStream) (s : Schema), (parse tokens).result = .ok s →
      (∀ name, name ∈ s.helperOrder ↔ name ≠ s.exports ∧ ∃ source, s.outline.Refers source name) ∧
      s.helperOrder.Nodup ∧
      ∀ source ∈ s.helperOrder, ∀ target, s.outline.Refers source target →
        Precedes s.helperOrder target source := by
  constructor
  · intro s
    refine ⟨s.nodup_helperOrder, fun name => ?_, fun source hsource target ht => ?_⟩
    · rw [mem_helperOrder_iff]
      simp only [mem_helperRoots_iff]
      constructor
      · rintro ⟨root, ⟨t, hfind, hne, hmarked⟩, hreach⟩
        exact ⟨root, t, hfind, hne, hmarked, hreach⟩
      · rintro ⟨root, t, hfind, hne, hmarked, hreach⟩
        exact ⟨root, ⟨t, hfind, hne, hmarked⟩, hreach⟩
    · refine ⟨target_mem_helperOrder hsource ht, fun hforward => ?_⟩
      exact (s.ordered_helperOrder source hsource target ht).resolve_right fun hback => hforward hback.1
  · intro tokens s hparse
    have hs := sound_of_parse hparse
    exact ⟨fun name => hs.mem_helperOrder_iff, s.nodup_helperOrder,
      fun source hsource target ht => hs.precedes_helperOrder hsource ht⟩

/-- Two structs that refer to each other, and one of them to a struct that is not there. -/
def loopSchema : Schema :=
  markReferences
    { structs := Parser.insertAll ∅
        [Declaration.build ⟨"A", [⟨"b", ⟨.struct "B", .scalar⟩⟩]⟩ ⟨1, 1⟩,
          Declaration.build ⟨"B", [⟨"a", ⟨.struct "A", .map⟩⟩, ⟨"m", ⟨.struct "Missing", .dynamicArray⟩⟩]⟩ ⟨2, 1⟩]
      exports := "Other" }

theorem helperOrder_of_loop_and_pair :
    ("A" ∈ loopSchema.helperOrder ∧ "B" ∈ loopSchema.helperOrder ∧ Precedes loopSchema.helperOrder "Missing" "B") ∧
    ∃ tokens s, (parse tokens).result = .ok s ∧ s.outline = pairOutline ∧ "A" ∈ s.helperOrder ∧
      "B" ∉ s.helperOrder := by
  constructor
  · obtain ⟨-, hmem, hbefore⟩ := helperOrder_sorted.1 loopSchema
    have hb : "B" ∈ loopSchema.helperOrder :=
      (hmem "B").2 ⟨"B", _, (Option.some_get (by decide)).symm, by decide, by decide, .refl⟩
    have hloop : loopSchema.RefersTo "B" "A" := show "A" ∈ loopSchema.targets "B" by decide
    have hmissing : loopSchema.RefersTo "B" "Missing" := show "Missing" ∈ loopSchema.targets "B" by decide
    have hend : loopSchema.targets "Missing" = [] := by decide
    refine ⟨(hbefore "B" hb "A" hloop).1, hb, (hbefore "B" hb "Missing" hmissing).2 fun hback => ?_⟩
    rcases ReflTransGen.cases_head hback with heq | ⟨next, hnext, -⟩
    · exact absurd heq (by decide)
    · simp [RefersTo, hend] at hnext
  · obtain ⟨tokens, s, -, hparse, houtline⟩ := exists_accepted_pair
    obtain ⟨hmem, -, -⟩ := helperOrder_sorted.2 tokens s hparse
    have hexports : s.exports = "B" := congrArg Outline.exports houtline
    refine ⟨tokens, s, hparse, houtline, (hmem "A").2 ⟨?_, "B", ?_⟩, fun hb => ((hmem "B").1 hb).1 hexports.symm⟩
    · rw [hexports]
      decide
    · rw [houtline]
      decide

end Schema

end BufferSchema
