import BufferSchema.Proofs.Schema.PlainSearch
import Mathlib.Data.List.Chain
import Mathlib.Data.List.Nodup

/-!
# The calls of the search for cycles

The search for cycles calls itself for each struct that it comes to. `Called` says which calls it makes: where they
are, by which way they came there and what had been found good by then. A search that fails does so because one of
these calls stops, at a struct that lies on its own way or is not there. So what is true of all calls is true of the
error: the way of a call leads from reference to reference and meets no struct twice, and nothing on it has been
found good.
-/

namespace BufferSchema.Schema

open Relation (TransGen)

variable {s : Schema} {path good names : List String} {name : String} {e : CompileError}

/-- Searching several structs fails with the first one that fails. -/
theorem searchAll_eq_error_iff : s.searchAll path good names = .error e ↔
    ∃ before name after later, names = before ++ name :: after ∧ s.searchAll path good before = .ok later ∧
      s.search path later name = .error e := by
  induction names generalizing good with
  | nil =>
    rw [searchAll]
    constructor
    · intro h
      cases h
    · rintro ⟨before, name, after, later, hnames, -⟩
      simp at hnames
  | cons first names ih =>
    rw [searchAll_cons]
    constructor
    · intro h
      cases hfirst : s.search path good first with
      | error e' =>
        rw [hfirst] at h
        obtain rfl := Except.error.inj h
        exact ⟨[], first, names, good, rfl, by rw [searchAll], hfirst⟩
      | ok later =>
        rw [hfirst] at h
        obtain ⟨before, name, after, last, rfl, hbefore, hname⟩ := ih.1 h
        exact ⟨first :: before, name, after, last, rfl, by rw [searchAll_cons, hfirst]; exact hbefore, hname⟩
    · rintro ⟨before, name, after, last, hnames, hbefore, hname⟩
      cases before with
      | nil =>
        obtain ⟨rfl, rfl⟩ := List.cons.inj hnames
        rw [searchAll] at hbefore
        obtain rfl := Except.ok.inj hbefore
        rw [hname]
      | cons n before =>
        obtain ⟨rfl, rfl⟩ := List.cons.inj hnames
        rw [searchAll_cons] at hbefore
        cases hfirst : s.search path good first with
        | error e' => rw [hfirst] at hbefore; cases hbefore
        | ok later =>
          rw [hfirst] at hbefore
          exact ih.2 ⟨before, name, after, last, rfl, hbefore, hname⟩

/-- The search for cycles comes to the struct `name` by the way `path`, the last struct first, when it has found the
structs `good`. -/
inductive Called (s : Schema) : (path good : List String) → (name : String) → Prop where
  | start {before after good : List String} {name : String} (hkeys : s.structs.keys = before ++ name :: after)
      (hbefore : s.searchAll [] [] before = .ok good) : Called s [] good name
  | follow {path good before after later : List String} {name target : String} {t : Struct}
      (hcall : Called s path good name) (hgood : name ∉ good) (hpath : name ∉ path)
      (hfind : s.structs.find? name = some t) (hkeys : t.references.keys = before ++ target :: after)
      (hbefore : s.searchAll (name :: path) good before = .ok later) : Called s (name :: path) later target

/-- A call ends with an error of its own: its struct lies on the way to it, or is not there. -/
inductive Stops (s : Schema) (path good : List String) (name : String) : CompileError → Prop where
  | back (hgood : name ∉ good) (hpath : name ∈ path) : Stops s path good name (s.revisit path name)
  | missing (hgood : name ∉ good) (hpath : name ∉ path) (hfind : s.structs.find? name = none) :
      Stops s path good name (.unknownType name (path.headD ""))

theorem Stops.search_eq (h : s.Stops path good name e) : s.search path good name = .error e := by
  cases h with
  | back hgood hpath => rw [Schema.search_eq, if_neg hgood, if_pos hpath]
  | missing hgood hpath hfind => rw [Schema.search_eq, if_neg hgood, if_neg hpath, hfind]

/-- A call that fails makes a call that stops. -/
theorem Called.exists_stops (path good : List String) (name : String) (h : s.Called path good name)
    (hfail : s.search path good name = .error e) :
    ∃ path good name, s.Called path good name ∧ s.Stops path good name e := by
  by_cases hgood : name ∈ good
  · rw [search_eq, if_pos hgood] at hfail
    cases hfail
  · by_cases hpath : name ∈ path
    · rw [search_eq, if_neg hgood, if_pos hpath] at hfail
      obtain rfl := Except.error.inj hfail
      exact ⟨path, good, name, h, .back hgood hpath⟩
    · rw [search_eq, if_neg hgood, if_neg hpath] at hfail
      cases hfind : s.structs.find? name with
      | none =>
        rw [hfind] at hfail
        obtain rfl := Except.error.inj hfail
        exact ⟨path, good, name, h, .missing hgood hpath hfind⟩
      | some t =>
        have hall : s.searchAll (name :: path) good t.references.keys = .error e := by
          rw [hfind] at hfail
          cases hall : s.searchAll (name :: path) good t.references.keys with
          | error e' => simpa [hall] using hfail
          | ok later => simp [hall] at hfail
        obtain ⟨before, target, after, later, hkeys, hbefore, htarget⟩ := searchAll_eq_error_iff.1 hall
        exact exists_stops (name :: path) later target (.follow h hgood hpath hfind hkeys hbefore) htarget
termination_by s.unentered path
decreasing_by exact unentered_cons_lt (Table.mem_of_find?_eq_some ‹_›) ‹_›

/-- The search for cycles fails as soon as one of its calls does. -/
theorem Called.checkAcyclic_eq (h : s.Called path good name) (hfail : s.search path good name = .error e) :
    s.checkAcyclic = .error e := by
  induction h with
  | start hkeys hbefore =>
    unfold checkAcyclic
    rw [searchAll_eq_error_iff.2 ⟨_, _, _, _, hkeys, hbefore, hfail⟩]
  | follow hcall hgood hpath hfind hkeys hbefore ih =>
    apply ih
    rw [search_eq, if_neg hgood, if_neg hpath, hfind]
    simp only [searchAll_eq_error_iff.2 ⟨_, _, _, _, hkeys, hbefore, hfail⟩]

/-- The errors of the search for cycles are those with which its calls stop. -/
theorem checkAcyclic_eq_error_iff : s.checkAcyclic = .error e ↔
    ∃ path good name, s.Called path good name ∧ s.Stops path good name e := by
  constructor
  · intro h
    unfold checkAcyclic at h
    split at h
    · next e' hall =>
      obtain rfl := Except.error.inj h
      obtain ⟨before, name, after, good, hkeys, hbefore, hname⟩ := searchAll_eq_error_iff.1 hall
      exact Called.exists_stops [] good name (.start hkeys hbefore) hname
    · cases h
  · rintro ⟨path, good, name, hcall, hstop⟩
    exact hcall.checkAcyclic_eq hstop.search_eq

/-! What has been found good when the search goes on. -/

/-- What the structs of `good` refer to is found good with them. -/
def Closed (s : Schema) (good : List String) : Prop := ∀ g ∈ good, ∀ target, s.RefersTo g target → target ∈ good

theorem Closed.cons (h : s.Closed good) (hname : ∀ target, s.RefersTo name target → target ∈ good) :
    s.Closed (name :: good) := by
  intro g hg target htarget
  rcases List.mem_cons.1 hg with rfl | hg
  · exact List.mem_cons_of_mem g (hname target htarget)
  · exact List.mem_cons_of_mem name (h g hg target htarget)

mutual

/-- A struct is found good after all that it refers to, and none that lies on the way is. -/
theorem closed_of_search (path good : List String) (name : String) (good' : List String)
    (h : s.search path good name = .ok good') (hbuild : ∀ g ∈ good, s.Buildable g) (hclosed : s.Closed good) :
    s.Closed good' ∧ ∀ g ∈ good', g ∈ good ∨ g ∉ path := by
  rw [search] at h
  split at h
  · obtain rfl := Except.ok.inj h
    exact ⟨hclosed, fun g hg => .inl hg⟩
  · split at h
    · cases h
    · next hp =>
      split at h
      · cases h
      · next t hfind =>
        split at h
        · cases h
        · next later hlater =>
          obtain rfl := Except.ok.inj h
          obtain ⟨hclosed', hnew⟩ := closed_of_searchAll (name :: path) good _ later hlater hbuild hclosed
          -- Before the struct itself is found good, all that it refers to has been.
          obtain ⟨-, -, hall⟩ := buildable_of_searchAll (name :: path) good _ later hlater hbuild
          rw [← targets_of_find? hfind] at hall
          refine ⟨hclosed'.cons hall, fun g hg => ?_⟩
          rcases List.mem_cons.1 hg with rfl | hg
          · exact .inr hp
          · exact (hnew g hg).imp_right fun hg' => mt (List.mem_cons_of_mem name) hg'
termination_by (s.unentered path, 0)
decreasing_by exact Prod.Lex.left _ _ (unentered_cons_lt (Table.mem_of_find?_eq_some ‹_›) ‹_›)

theorem closed_of_searchAll (path good names good' : List String) (h : s.searchAll path good names = .ok good')
    (hbuild : ∀ g ∈ good, s.Buildable g) (hclosed : s.Closed good) :
    s.Closed good' ∧ ∀ g ∈ good', g ∈ good ∨ g ∉ path := by
  cases names with
  | nil =>
    rw [searchAll] at h
    obtain rfl := Except.ok.inj h
    exact ⟨hclosed, fun g hg => .inl hg⟩
  | cons name names =>
    rw [searchAll] at h
    split at h
    · cases h
    · next later hlater =>
      obtain ⟨hclosed', hnew⟩ := closed_of_search path good name later hlater hbuild hclosed
      obtain ⟨hbuild', -, -⟩ := buildable_of_search path good name later hlater hbuild
      obtain ⟨hclosed'', hnew'⟩ := closed_of_searchAll path later names good' h hbuild' hclosed'
      exact ⟨hclosed'', fun g hg => (hnew' g hg).elim (hnew g) .inr⟩
termination_by (s.unentered path, names.length + 1)
decreasing_by
  · exact Prod.Lex.right _ (by simp)
  · subst_vars
    exact Prod.Lex.right _ (by simp)

end

/-! What is true of every call. -/

namespace Called

theorem nodup (h : s.Called path good name) : path.Nodup := by
  induction h with
  | start => exact List.nodup_nil
  | follow _ _ hpath _ _ _ ih => exact List.nodup_cons.2 ⟨hpath, ih⟩

theorem mem_structs (h : s.Called path good name) : ∀ p ∈ path, p ∈ s.structs := by
  induction h with
  | start => simp
  | follow _ _ _ hfind _ _ ih => exact List.forall_mem_cons.2 ⟨Table.mem_of_find?_eq_some hfind, ih⟩

/-- Each struct on the way refers to the next one, and the last one to where the call is. -/
theorem isChain (h : s.Called path good name) : (path.reverse ++ [name]).IsChain s.RefersTo := by
  induction h with
  | start => exact List.isChain_singleton _
  | @follow path good before after later name target t _ _ _ hfind hkeys _ ih =>
    have hrefers : s.RefersTo name target := by
      rw [RefersTo, targets_of_find? hfind, hkeys]
      simp
    rw [List.reverse_cons, List.append_assoc, List.singleton_append, List.isChain_append_cons_cons]
    exact ⟨ih, hrefers, List.isChain_singleton _⟩

theorem refersTo {last : String} (h : s.Called (last :: path) good name) : s.RefersTo last name := by
  have hchain := h.isChain
  rw [List.reverse_cons, List.append_assoc, List.singleton_append, List.isChain_append_cons_cons] at hchain
  exact hchain.2.1

theorem leads (h : s.Called path good name) : s.Leads path name := by
  induction h with
  | start => exact fun _ hp => absurd hp List.not_mem_nil
  | follow _ _ _ hfind hkeys _ ih =>
    refine ih.cons ?_
    rw [RefersTo, targets_of_find? hfind, hkeys]
    simp

theorem buildable (h : s.Called path good name) : ∀ g ∈ good, s.Buildable g := by
  induction h with
  | start _ hbefore => exact (buildable_of_searchAll _ _ _ _ hbefore (by simp)).1
  | follow _ _ _ _ _ hbefore ih => exact (buildable_of_searchAll _ _ _ _ hbefore ih).1

theorem closed (h : s.Called path good name) : s.Closed good := by
  induction h with
  | start _ hbefore => exact (closed_of_searchAll _ _ _ _ hbefore (by simp) fun g hg => absurd hg List.not_mem_nil).1
  | follow hcall _ _ _ _ hbefore ih => exact (closed_of_searchAll _ _ _ _ hbefore hcall.buildable ih).1

/-- What lies on the way is still being looked at. -/
theorem not_mem_good {p : String} (h : s.Called path good name) (hp : p ∈ path) : p ∉ good := by
  induction h with
  | start => simp at hp
  | follow hcall hgood _ _ _ hbefore ih =>
    intro hlater
    have hold := ((closed_of_searchAll _ _ _ _ hbefore hcall.buildable hcall.closed).2 p hlater).resolve_right
      (not_not_intro hp)
    rcases List.mem_cons.1 hp with rfl | hp
    · exact hgood hold
    · exact ih hp hold

/-- Where the search starts is a struct of the schema. -/
theorem ne_nil_of_missing (h : s.Called path good name) (hfind : s.structs.find? name = none) : path ≠ [] := by
  rintro rfl
  cases h with
  | start hkeys _ =>
    refine Table.find?_eq_none_iff.1 hfind ?_
    rw [Table.mem_iff, hkeys]
    simp

end Called

end BufferSchema.Schema
