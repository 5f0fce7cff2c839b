import BufferSchema.Proofs.Table
import BufferSchema.Schema.Cycle
import Mathlib.Logic.Relation

/-!
# The search for cycles finds every cycle

A struct can be built if it is there and everything it refers to can be built. This is what the search
for cycles decides: it ends well exactly when every struct can be built, from whichever of them it
starts and whatever it met before. Since there are finitely many structs, the ones that refer to what is
there and do not go round can all be built.
-/

namespace BufferSchema.Schema

open Relation (TransGen ReflTransGen)

variable {s : Schema}

/-- A struct that is there, as is everything that it is built of. -/
inductive Buildable (s : Schema) : String → Prop where
  | intro {name : String} (hmem : name ∈ s.structs) (h : ∀ target ∈ s.targets name, Buildable s target) :
      Buildable s name

/-- The struct `source` refers to `target`. -/
def RefersTo (s : Schema) (source target : String) : Prop := target ∈ s.targets source

instance (s : Schema) (source target : String) : Decidable (s.RefersTo source target) :=
  inferInstanceAs (Decidable (target ∈ s.targets source))

theorem mem_structs_of_refersTo {source target : String} (h : s.RefersTo source target) : source ∈ s.structs := by
  cases hfind : s.structs.find? source with
  | none => simp [RefersTo, targets, hfind] at h
  | some t => exact Table.mem_of_find?_eq_some hfind

theorem Buildable.mem {name : String} (h : s.Buildable name) : name ∈ s.structs := by
  cases h with
  | intro hmem _ => exact hmem

theorem Buildable.target {name target : String} (h : s.Buildable name) (ht : target ∈ s.targets name) :
    s.Buildable target := by
  cases h with
  | intro _ h => exact h target ht

theorem Buildable.of_reflTransGen {name target : String} (h : s.Buildable name)
    (hreach : ReflTransGen s.RefersTo name target) : s.Buildable target := by
  induction hreach with
  | refl => exact h
  | tail _ ht ih => exact ih.target ht

theorem Buildable.not_cyclic {name : String} (h : s.Buildable name) : ¬ TransGen s.RefersTo name name := by
  induction h with
  | @intro name _ _ ih =>
    intro hcycle
    obtain ⟨target, hfirst, hlater⟩ := TransGen.head'_iff.1 hcycle
    exact ih target hfirst (TransGen.tail' hlater hfirst)

theorem targets_of_find? {name : String} {t : Struct} (h : s.structs.find? name = some t) :
    s.targets name = t.references.keys := by
  simp only [targets, h]

/-- What `search` does for one struct. -/
theorem search_eq (s : Schema) (path good : List String) (name : String) : s.search path good name =
    if name ∈ good then .ok good
    else if name ∈ path then .error (s.revisit path name)
    else match s.structs.find? name with
      | none => .error (.unknownType name (path.headD ""))
      | some t =>
        match s.searchAll (name :: path) good t.references.keys with
        | .error e => .error e
        | .ok good' => .ok (name :: good') := by
  rw [search]
  split
  · rfl
  · split
    · rfl
    · split
      · next hf => rw [hf]
      · next hf => exact hf ▸ rfl

theorem searchAll_cons (s : Schema) (path good : List String) (name : String) (names : List String) :
    s.searchAll path good (name :: names) =
      match s.search path good name with
      | .error e => .error e
      | .ok good' => s.searchAll path good' names := by
  cases hsearch : s.search path good name <;> simp only [searchAll, hsearch]

theorem searchAll_eq_foldlM (s : Schema) (path good names : List String) :
    s.searchAll path good names = names.foldlM (s.search path) good := by
  induction names generalizing good with
  | nil =>
    rw [searchAll]
    rfl
  | cons name names ih =>
    rw [searchAll_cons, List.foldlM_cons]
    cases s.search path good name with
    | error e => rfl
    | ok later => exact ih later

mutual

/-- What the search calls good can be built, and it forgets nothing. -/
theorem buildable_of_search (path good : List String) (name : String) (good' : List String)
    (h : s.search path good name = .ok good') (hgood : ∀ g ∈ good, s.Buildable g) :
    (∀ g ∈ good', s.Buildable g) ∧ (∀ g ∈ good, g ∈ good') ∧ name ∈ good' := by
  rw [search] at h
  split at h
  · next hmem =>
    obtain rfl := Except.ok.inj h
    exact ⟨hgood, fun g hg => hg, hmem⟩
  · split at h
    · cases h
    · next hp =>
      split at h
      · cases h
      · next t hfind =>
        split at h
        · cases h
        · next later hlater =>
          obtain rfl := Except.ok.inj h
          obtain ⟨hbuild, hkeep, hall⟩ := buildable_of_searchAll (name :: path) good _ later hlater hgood
          have hname : s.Buildable name := by
            apply Buildable.intro (Table.mem_of_find?_eq_some hfind)
            intro target ht
            rw [targets_of_find? hfind] at ht
            exact hbuild target (hall target ht)
          refine ⟨fun g hg => ?_, fun g hg => List.mem_cons_of_mem _ (hkeep g hg), List.mem_cons_self⟩
          rcases List.mem_cons.1 hg with rfl | hg
          · exact hname
          · exact hbuild g hg
termination_by (s.unentered path, 0)
decreasing_by exact Prod.Lex.left _ _ (unentered_cons_lt (Table.mem_of_find?_eq_some ‹_›) ‹_›)

theorem buildable_of_searchAll (path good names good' : List String)
    (h : s.searchAll path good names = .ok good') (hgood : ∀ g ∈ good, s.Buildable g) :
    (∀ g ∈ good', s.Buildable g) ∧ (∀ g ∈ good, g ∈ good') ∧ ∀ name ∈ names, name ∈ good' := by
  cases names with
  | nil =>
    rw [searchAll] at h
    obtain rfl := Except.ok.inj h
    exact ⟨hgood, fun g hg => hg, by simp⟩
  | cons name names =>
    rw [searchAll] at h
    split at h
    · cases h
    · next later hlater =>
      obtain ⟨hbuild, hkeep, hname⟩ := buildable_of_search path good name later hlater hgood
      obtain ⟨hbuild', hkeep', hnames⟩ := buildable_of_searchAll path later names good' h hbuild
      refine ⟨hbuild', fun g hg => hkeep' g (hkeep g hg), fun n hn => ?_⟩
      rcases List.mem_cons.1 hn with rfl | hn
      · exact hkeep' n hname
      · exact hnames n hn
termination_by (s.unentered path, names.length + 1)
decreasing_by
  · exact Prod.Lex.right _ (by simp)
  · subst_vars
    exact Prod.Lex.right _ (by simp)

end

theorem searchAll_eq_ok {path : List String} {names : List String}
    (h : ∀ name ∈ names, ∀ good, ∃ good', s.search path good name = .ok good') (good : List String) :
    ∃ good', s.searchAll path good names = .ok good' := by
  induction names generalizing good with
  | nil => exact ⟨good, by rw [searchAll]⟩
  | cons name names ih =>
    obtain ⟨later, hlater⟩ := h name List.mem_cons_self good
    obtain ⟨good', hgood'⟩ := ih (fun n hn => h n (List.mem_cons_of_mem name hn)) later
    refine ⟨good', ?_⟩
    rw [searchAll, hlater]
    exact hgood'

/-- The search ends well at a struct that can be built, unless it comes back to the way it took. -/
theorem search_eq_ok_of_buildable {name : String} (h : s.Buildable name) :
    ∀ path, (∀ p ∈ path, ¬ ReflTransGen s.RefersTo name p) →
      ∀ good, ∃ good', s.search path good name = .ok good' := by
  induction h with
  | @intro name hmem htargets ih =>
    intro path hpath good
    have hnew : name ∉ path := fun hname => hpath name hname .refl
    obtain ⟨t, ht⟩ := Table.exists_find?_of_mem hmem
    have hlater : ∀ target ∈ t.references.keys, ∀ good,
        ∃ good', s.search (name :: path) good target = .ok good' := by
      intro target htarget good
      rw [← targets_of_find? ht] at htarget
      refine ih target htarget (name :: path) (fun p hp hreach => ?_) good
      rcases List.mem_cons.1 hp with rfl | hp
      · exact (Buildable.intro hmem htargets).not_cyclic (TransGen.head' htarget hreach)
      · exact hpath p hp (.head htarget hreach)
    rw [search]
    split
    · exact ⟨good, rfl⟩
    · split
      · next hfind => simp [ht] at hfind
      · next t' hfind =>
        obtain rfl : t = t' := Option.some.inj (ht.symm.trans hfind)
        obtain ⟨good', hgood'⟩ := searchAll_eq_ok hlater good
        exact ⟨name :: good', by rw [hgood']⟩

/-- The search ends well exactly when every struct can be built. -/
theorem checkAcyclic_eq_ok_iff : s.checkAcyclic = .ok () ↔ ∀ name ∈ s.structs, s.Buildable name := by
  unfold checkAcyclic
  constructor
  · intro h name hname
    split at h
    · cases h
    · next good hgood =>
      obtain ⟨hbuild, -, hall⟩ := buildable_of_searchAll [] [] s.structs.keys good hgood (by simp)
      exact hbuild name (hall name hname)
  · intro h
    have hsearch : ∀ name ∈ s.structs.keys, ∀ good, ∃ good', s.search [] good name = .ok good' :=
      fun name hname => search_eq_ok_of_buildable (h name hname) [] (by simp)
    obtain ⟨good, hgood⟩ := searchAll_eq_ok hsearch []
    rw [hgood]

/-- Where no struct is missing and none contains itself, all structs can be built: a way along the
references never meets a struct twice, so it ends. -/
theorem buildable_of_not_cyclic (hdeclared : ∀ source target, s.RefersTo source target → target ∈ s.structs)
    (hacyclic : ∀ name, ¬ TransGen s.RefersTo name name) {name : String} (hmem : name ∈ s.structs) :
    s.Buildable name := by
  suffices h : ∀ n path name, s.unentered path ≤ n → name ∈ s.structs →
      (∀ p ∈ path, TransGen s.RefersTo p name) → s.Buildable name from h _ [] name (Nat.le_refl _) hmem (by simp)
  intro n
  induction n with
  | zero =>
    intro path name hn hmem hpath
    have hnew : name ∉ path := fun hname => hacyclic name (hpath name hname)
    have := unentered_cons_lt hmem hnew
    omega
  | succ n ih =>
    intro path name hn hmem hpath
    have hnew : name ∉ path := fun hname => hacyclic name (hpath name hname)
    have hless := unentered_cons_lt hmem hnew
    refine .intro hmem fun target ht => ih (name :: path) target (by omega) (hdeclared name target ht) ?_
    intro p hp
    rcases List.mem_cons.1 hp with rfl | hp
    · exact .single ht
    · exact (hpath p hp).tail ht

end BufferSchema.Schema
