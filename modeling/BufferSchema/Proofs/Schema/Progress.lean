import BufferSchema.Proofs.Schema.Acyclic
import Mathlib.Data.Finset.Card

/-!
# The search for cycles with books

A search for cycles can keep books and change them as it goes: the way that it has taken, the structs on it as a set,
and the set of the structs that are done with. A struct is put on the way and into its set before the references from
it are followed, and is taken off both behind that. `Schema.Visits` has the rules of this search, for books that may
hold anything; that it ends is no part of them. If the way in the books has no struct twice, it does end, and ends as
`Schema.search` does, which only hands on what it has found good and has nothing to put back.
-/

namespace BufferSchema

section Each

variable {α β ε σ : Type}

/-- A step at each place of a list, from where the step before has ended. The first error ends it. -/
inductive Each (step : σ → α → Except ε σ → Prop) : σ → List α → Except ε σ → Prop where
  | nil {x : σ} : Each step x [] (.ok x)
  | stop {x : σ} {a : α} {as : List α} {e : ε} (hfirst : step x a (.error e)) : Each step x (a :: as) (.error e)
  | next {x y : σ} {a : α} {as : List α} {outcome : Except ε σ} (hfirst : step x a (.ok y))
      (hrest : Each step y as outcome) : Each step x (a :: as) outcome

/-- Where the steps are those of a function, seen through `f`, one after the other is its fold. -/
theorem each_map_iff {step : σ → α → Except ε σ → Prop} {f : β → σ} {g : β → α → Except ε β}
    (hstep : ∀ b a outcome, step (f b) a outcome ↔ outcome = (g b a).map f) (b : β) (as : List α)
    (outcome : Except ε σ) : Each step (f b) as outcome ↔ outcome = (as.foldlM g b).map f := by
  induction as generalizing b with
  | nil =>
    constructor
    · intro h
      cases h with
      | nil => rfl
    · rintro rfl
      exact .nil
  | cons a as ih =>
    have hfirst := hstep b a
    rw [List.foldlM_cons]
    cases hg : g b a with
    | error e =>
      rw [hg] at hfirst
      constructor
      · intro h
        cases h with
        | stop h => exact (hfirst _).1 h
        | next h => cases (hfirst _).1 h
      · rintro rfl
        exact .stop ((hfirst _).2 rfl)
    | ok later =>
      rw [hg] at hfirst
      constructor
      · intro h
        cases h with
        | stop h => cases (hfirst _).1 h
        | next h hrest =>
          cases (hfirst _).1 h
          exact (ih later).1 hrest
      · intro h
        exact .next ((hfirst _).2 rfl) ((ih later).2 h)

end Each

/-- The books of a search for cycles. -/
structure Progress where
  /-- The structs on the way, the last one last. -/
  path : List String := []
  /-- The structs on the way. -/
  active : Finset String := ∅
  /-- The structs that need not be looked at again. -/
  done : Finset String := ∅
deriving DecidableEq

namespace Progress

/-- The books with the struct `name` put on the way. -/
def enter (p : Progress) (name : String) : Progress :=
  { p with active := insert name p.active, path := p.path ++ [name] }

/-- The books with the last struct, `name`, taken off the way and done with. -/
def leave (p : Progress) (name : String) : Progress where
  path := p.path.dropLast
  active := p.active.erase name
  done := insert name p.done

/-- The books that hold the way `path`, the last struct first, and are done with the structs `good`. -/
def holding (path good : List String) : Progress where
  path := path.reverse
  active := path.toFinset
  done := good.toFinset

variable {path good : List String} {name : String}

@[simp] theorem mem_active_holding : name ∈ (holding path good).active ↔ name ∈ path := List.mem_toFinset

@[simp] theorem mem_done_holding : name ∈ (holding path good).done ↔ name ∈ good := List.mem_toFinset

theorem last_path_holding : (holding path good).path.getLast?.getD "" = path.headD "" := by
  simp [holding, List.headD_eq_head?_getD]

theorem holding_nil (good : List String) : holding [] good = { done := good.toFinset } := by
  simp [holding]

theorem enter_holding (path good : List String) (name : String) :
    (holding path good).enter name = holding (name :: path) good := by
  simp [enter, holding]

theorem leave_holding (good : List String) (hpath : name ∉ path) :
    (holding (name :: path) good).leave name = holding path (name :: good) := by
  have hactive : name ∉ path.toFinset := by simpa using hpath
  simp [leave, holding, Finset.erase_insert hactive]

end Progress

namespace Schema

/-- What is wrong when the search comes back to the struct `name` on its way. The set tells whether it is alone. -/
def comeBack (s : Schema) (p : Progress) (name : String) : CompileError :=
  if p.active.card = 1 then
    .selfReference name (((s.structs.find? name).map (·.fieldsReferencing name)).getD [])
  else .cyclicReference (p.path ++ [name])

/-- The search at the struct `name` finds the books `p` and ends with an error, or with the books as it leaves them. -/
inductive Visits (s : Schema) : (p : Progress) → (name : String) → Except CompileError Progress → Prop where
  | done {p : Progress} {name : String} (hdone : name ∈ p.done) : Visits s p name (.ok p)
  | back {p : Progress} {name : String} (hdone : name ∉ p.done) (hactive : name ∈ p.active) :
      Visits s p name (.error (s.comeBack p name))
  | missing {p : Progress} {name : String} (hdone : name ∉ p.done) (hactive : name ∉ p.active)
      (hfind : s.structs.find? name = none) :
      Visits s p name (.error (.unknownType name (p.path.getLast?.getD "")))
  | follow {p : Progress} {name : String} {t : Struct} {outcome : Except CompileError Progress}
      (hdone : name ∉ p.done) (hactive : name ∉ p.active) (hfind : s.structs.find? name = some t)
      (htargets : Each (Visits s) (p.enter name) t.references.keys outcome) :
      Visits s p name (outcome.map (·.leave name))

/-- The search from the struct `name` on a new way. What is done with stays so. -/
def VisitsFrom (s : Schema) (done : Finset String) (name : String) (outcome : Except CompileError (Finset String)) :
    Prop :=
  ∃ later, s.Visits { done } name later ∧ outcome = later.map (·.done)

/-- The search from every struct. -/
def VisitsAll (s : Schema) (outcome : Except CompileError Unit) : Prop :=
  ∃ later, Each s.VisitsFrom ∅ s.structs.keys later ∧ outcome = later.map fun _ => ()

variable {s : Schema} {p : Progress} {name : String} {path : List String} {outcome : Except CompileError Progress}

theorem visits_of_done (hdone : name ∈ p.done) : s.Visits p name outcome ↔ outcome = .ok p := by
  constructor
  · intro h
    cases h with
    | done => rfl
    | back h | missing h | follow h => exact absurd hdone h
  · rintro rfl
    exact .done hdone

theorem visits_of_active (hdone : name ∉ p.done) (hactive : name ∈ p.active) :
    s.Visits p name outcome ↔ outcome = .error (s.comeBack p name) := by
  constructor
  · intro h
    cases h with
    | done h => exact absurd h hdone
    | back => rfl
    | missing _ h | follow _ h => exact absurd hactive h
  · rintro rfl
    exact .back hdone hactive

theorem visits_of_missing (hdone : name ∉ p.done) (hactive : name ∉ p.active) (hfind : s.structs.find? name = none) :
    s.Visits p name outcome ↔ outcome = .error (.unknownType name (p.path.getLast?.getD "")) := by
  constructor
  · intro h
    cases h with
    | done h => exact absurd h hdone
    | back _ h => exact absurd h hactive
    | missing => rfl
    | follow _ _ h => exact absurd (hfind.symm.trans h) (by simp)
  · rintro rfl
    exact .missing hdone hactive hfind

theorem visits_of_find? {t : Struct} (hdone : name ∉ p.done) (hactive : name ∉ p.active)
    (hfind : s.structs.find? name = some t) : s.Visits p name outcome ↔
      ∃ later, Each s.Visits (p.enter name) t.references.keys later ∧ outcome = later.map (·.leave name) := by
  constructor
  · intro h
    cases h with
    | done h => exact absurd h hdone
    | back _ h => exact absurd h hactive
    | missing _ _ h => exact absurd (hfind.symm.trans h) (by simp)
    | follow _ _ h htargets =>
      obtain rfl := Option.some.inj (hfind.symm.trans h)
      exact ⟨_, htargets, rfl⟩
  · rintro ⟨later, htargets, rfl⟩
    exact .follow hdone hactive hfind htargets

theorem comeBack_holding (s : Schema) (good : List String) (name : String) (hnodup : path.Nodup) :
    s.comeBack (.holding path good) name = s.revisit path name := by
  simp [comeBack, revisit, Progress.holding, List.toFinset_card_of_nodup hnodup]

/-- On a way without repetition the search ends as `search` does, and puts the way back as it was. -/
theorem visits_holding (path : List String) (hnodup : path.Nodup) (good : List String) (name : String)
    (outcome : Except CompileError Progress) :
    s.Visits (.holding path good) name outcome ↔ outcome = (s.search path good name).map (.holding path) := by
  rw [search_eq]
  by_cases hgood : name ∈ good
  · rw [visits_of_done (Progress.mem_done_holding.2 hgood), if_pos hgood]
    rfl
  · have hdone : name ∉ (Progress.holding path good).done := mt Progress.mem_done_holding.1 hgood
    rw [if_neg hgood]
    by_cases hpath : name ∈ path
    · rw [visits_of_active hdone (Progress.mem_active_holding.2 hpath), if_pos hpath,
        comeBack_holding s good name hnodup]
      rfl
    · have hactive : name ∉ (Progress.holding path good).active := mt Progress.mem_active_holding.1 hpath
      rw [if_neg hpath]
      cases hfind : s.structs.find? name with
      | none =>
        rw [visits_of_missing hdone hactive hfind, Progress.last_path_holding]
        rfl
      | some t =>
        -- The struct is new on the way, so the calls from here have one less to put on it.
        have htargets := each_map_iff (visits_holding (name :: path) (List.nodup_cons.2 ⟨hpath, hnodup⟩)) good
          t.references.keys
        rw [visits_of_find? hdone hactive hfind, Progress.enter_holding]
        simp only [htargets, exists_eq_left, ← searchAll_eq_foldlM]
        cases s.searchAll (name :: path) good t.references.keys with
        | error e => rfl
        | ok later =>
          show outcome = .ok ((Progress.holding (name :: path) later).leave name) ↔ _
          rw [Progress.leave_holding later hpath]
          rfl
termination_by s.unentered path
decreasing_by exact unentered_cons_lt (Table.mem_of_find?_eq_some ‹_›) ‹_›

theorem each_visits_holding (hnodup : path.Nodup) (good names : List String)
    (outcome : Except CompileError Progress) :
    Each s.Visits (.holding path good) names outcome ↔ outcome = (s.searchAll path good names).map (.holding path) := by
  rw [searchAll_eq_foldlM]
  exact each_map_iff (visits_holding path hnodup) good names outcome

theorem each_visitsFrom (good names : List String) (outcome : Except CompileError (Finset String)) :
    Each s.VisitsFrom good.toFinset names outcome ↔ outcome = (s.searchAll [] good names).map List.toFinset := by
  rw [searchAll_eq_foldlM]
  refine each_map_iff (fun good name outcome => ?_) good names outcome
  rw [VisitsFrom, ← Progress.holding_nil]
  simp only [visits_holding [] List.nodup_nil, exists_eq_left]
  cases s.search [] good name <;> rfl

/-- The search with books ends in one way only, as the search for cycles does. -/
theorem visitsAll_iff (s : Schema) (outcome : Except CompileError Unit) :
    s.VisitsAll outcome ↔ outcome = s.checkAcyclic := by
  rw [VisitsAll, ← List.toFinset_nil, checkAcyclic]
  simp only [each_visitsFrom, exists_eq_left]
  cases s.searchAll [] [] s.structs.keys <;> rfl

end Schema

end BufferSchema
