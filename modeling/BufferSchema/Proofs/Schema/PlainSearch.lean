import BufferSchema.Proofs.Schema.Acyclic

/-!
# The search without memory

The search for cycles remembers the structs that it has found good and enters none of them again. The plain
search remembers nothing: from every struct it walks along all ways that lead on. The two have the same
outcome, also where they fail. What is remembered can be built, so no way from there comes back to a struct on
the way that led to it, and the plain search, which walks there once more, ends well.
-/

namespace BufferSchema.Schema

open Relation (TransGen ReflTransGen)

mutual

/-- Walks along all references from the struct `name`, to which the way `path` has led. -/
def walk (s : Schema) (path : List String) (name : String) : Except CompileError Unit :=
  if _hp : name ∈ path then .error (s.revisit path name)
  else match _hf : s.structs.find? name with
    | none => .error (.unknownType name (path.headD ""))
    | some t => s.walkAll (name :: path) t.references.keys
termination_by (s.unentered path, 0)
decreasing_by exact Prod.Lex.left _ _ (unentered_cons_lt (Table.mem_of_find?_eq_some _hf) _hp)

/-- Walks from several structs, one after the other, each time on the same way. -/
def walkAll (s : Schema) (path : List String) : List String → Except CompileError Unit
  | [] => .ok ()
  | name :: names =>
    match s.walk path name with
    | .error e => .error e
    | .ok () => s.walkAll path names
termination_by names => (s.unentered path, names.length + 1)
decreasing_by
  · exact Prod.Lex.right _ (by simp)
  · exact Prod.Lex.right _ (by simp)

end

variable {s : Schema}

theorem walk_of_mem {path : List String} {name : String} (hp : name ∈ path) :
    s.walk path name = .error (s.revisit path name) := by
  rw [walk, dif_pos hp]

theorem walk_of_missing {path : List String} {name : String} (hp : name ∉ path)
    (hf : s.structs.find? name = none) : s.walk path name = .error (.unknownType name (path.headD "")) := by
  rw [walk, dif_neg hp]
  split
  · rfl
  · next h => simp [hf] at h

theorem walk_of_find? {path : List String} {name : String} {t : Struct} (hp : name ∉ path)
    (hf : s.structs.find? name = some t) : s.walk path name = s.walkAll (name :: path) t.references.keys := by
  rw [walk, dif_neg hp]
  split
  · next h => simp [hf] at h
  · next h => rw [Option.some.inj (hf.symm.trans h)]

theorem walkAll_eq_ok {path names : List String} (h : ∀ name ∈ names, s.walk path name = .ok ()) :
    s.walkAll path names = .ok () := by
  induction names with
  | nil => rw [walkAll]
  | cons name names ih =>
    rw [walkAll, h name List.mem_cons_self]
    exact ih fun n hn => h n (List.mem_cons_of_mem name hn)

/-- The walk ends well at a struct that can be built, unless it comes back to the way it took. -/
theorem walk_eq_ok_of_buildable {name : String} (h : s.Buildable name) :
    ∀ path, (∀ p ∈ path, ¬ ReflTransGen s.RefersTo name p) → s.walk path name = .ok () := by
  induction h with
  | @intro name hmem htargets ih =>
    intro path hpath
    have hnew : name ∉ path := fun hname => hpath name hname .refl
    obtain ⟨t, ht⟩ := Table.exists_find?_of_mem hmem
    rw [walk_of_find? hnew ht]
    refine walkAll_eq_ok fun target htarget => ?_
    rw [← targets_of_find? ht] at htarget
    refine ih target htarget (name :: path) fun p hp hreach => ?_
    rcases List.mem_cons.1 hp with rfl | hp
    · exact (Buildable.intro hmem htargets).not_cyclic (TransGen.head' htarget hreach)
    · exact hpath p hp (.head htarget hreach)

/-- Every struct on the way leads to the next one. -/
def Leads (s : Schema) (path : List String) (name : String) : Prop := ∀ p ∈ path, TransGen s.RefersTo p name

theorem Leads.cons {path : List String} {name target : String} (h : s.Leads path name)
    (ht : s.RefersTo name target) : s.Leads (name :: path) target := by
  intro p hp
  rcases List.mem_cons.1 hp with rfl | hp
  · exact .single ht
  · exact (h p hp).tail ht

/-- What can be built does not come back to the way that led to it. -/
theorem Leads.walk_eq_ok {path : List String} {name : String} (h : s.Leads path name) (hname : s.Buildable name) :
    s.walk path name = .ok () :=
  walk_eq_ok_of_buildable hname path fun p hp hreach =>
    hname.not_cyclic (TransGen.trans_right hreach (h p hp))

mutual

/-- As long as all that is remembered can be built, the search and the walk end alike. -/
theorem search_eq_walk (path good : List String) (name : String) (hgood : ∀ g ∈ good, s.Buildable g)
    (hpath : s.Leads path name) : (s.search path good name).map (fun _ => ()) = s.walk path name := by
  rw [search]
  split
  · next hmem =>
    rw [hpath.walk_eq_ok (hgood name hmem)]
    rfl
  · split
    · next hp =>
      rw [walk_of_mem hp]
      rfl
    · next hp =>
      split
      · next hfind =>
        rw [walk_of_missing hp hfind]
        rfl
      · next t hfind =>
        have htargets : ∀ target ∈ t.references.keys, s.Leads (name :: path) target := by
          intro target ht
          rw [← targets_of_find? hfind] at ht
          exact hpath.cons ht
        rw [walk_of_find? hp hfind, ← searchAll_eq_walkAll (name :: path) good _ hgood htargets]
        cases s.searchAll (name :: path) good t.references.keys <;> rfl
termination_by (s.unentered path, 0)
decreasing_by exact Prod.Lex.left _ _ (unentered_cons_lt (Table.mem_of_find?_eq_some ‹_›) ‹_›)

theorem searchAll_eq_walkAll (path good names : List String) (hgood : ∀ g ∈ good, s.Buildable g)
    (hpath : ∀ name ∈ names, s.Leads path name) :
    (s.searchAll path good names).map (fun _ => ()) = s.walkAll path names := by
  cases names with
  | nil => rw [searchAll, walkAll]; rfl
  | cons name names =>
    have hfirst := search_eq_walk path good name hgood (hpath name List.mem_cons_self)
    rw [searchAll, walkAll, ← hfirst]
    cases hsearch : s.search path good name with
    | error e => rfl
    | ok later =>
      have hlater := (buildable_of_search path good name later hsearch hgood).1
      exact searchAll_eq_walkAll path later names hlater fun n hn => hpath n (List.mem_cons_of_mem name hn)
termination_by (s.unentered path, names.length + 1)
decreasing_by
  · exact Prod.Lex.right _ (by simp)
  · subst_vars
    exact Prod.Lex.right _ (by simp)

end

/-- Whether or not the search remembers what it found good, it has the same outcome: it ends well for the same
structs, and where it fails, the error is the same. -/
theorem checkAcyclic_eq_walkAll (s : Schema) : s.checkAcyclic = s.walkAll [] s.structs.keys := by
  have hpath : ∀ name ∈ s.structs.keys, s.Leads [] name := fun _ _ _ hp => absurd hp List.not_mem_nil
  rw [← searchAll_eq_walkAll [] [] s.structs.keys (fun _ hg => absurd hg List.not_mem_nil) hpath]
  unfold checkAcyclic
  cases s.searchAll [] [] s.structs.keys <;> rfl

end BufferSchema.Schema
