import BufferSchema.Proofs.Schema.Calls
import BufferSchema.Proofs.Schema.Progress
import BufferSchema.Proofs.Schema.Spelling

/-!
# The books at every call of the search for cycles

`Visited` says at which structs the search with books is called, and what it finds in its books there. The way in them
has no struct twice and leads along the references to where the call is; the set holds what is on the way; what is
done with is not on the way, and nothing leads from it out of it, to a cycle or out of the schema. A call that goes
well leaves the way as it has found it. A call that goes on puts one more struct of the schema on the way, so none
goes on for ever.
-/

namespace BufferSchema.Schema

open Relation (TransGen ReflTransGen)

/-- The call of the search at `name` that finds the books `p` makes a call at `target`. The calls at the references
before have left the books `p'`. -/
inductive Follows (s : Schema) (p : Progress) (name : String) : Progress → String → Prop where
  | intro {t : Struct} {before after : List String} {target : String} {p' : Progress} (hdone : name ∉ p.done)
      (hactive : name ∉ p.active) (hfind : s.structs.find? name = some t)
      (hkeys : t.references.keys = before ++ target :: after)
      (hbefore : Each s.Visits (p.enter name) before (.ok p')) : Follows s p name p' target

/-- The search of the whole schema makes a call at `name`, which finds the books `p`. -/
inductive Visited (s : Schema) : Progress → String → Prop where
  | start {before after : List String} {name : String} {done : Finset String}
      (hkeys : s.structs.keys = before ++ name :: after) (hbefore : Each s.VisitsFrom ∅ before (.ok done)) :
      Visited s { done } name
  | follow {p p' : Progress} {name target : String} (hvisited : Visited s p name)
      (hfollows : s.Follows p name p' target) : Visited s p' target

variable {s : Schema} {p p' : Progress} {path good : List String} {name target : String}

/-! The calls are those of the search that hands on what it has found. -/

theorem map_eq_ok {ε α β : Type} {f : α → β} {x : Except ε α} {b : β} (h : .ok b = x.map f) :
    ∃ a, x = .ok a ∧ b = f a := by
  cases x with
  | error e => cases h
  | ok a => exact ⟨a, rfl, Except.ok.inj h⟩

theorem Called.follows (h : s.Called path good name) (hfollows : s.Follows (.holding path good) name p' target) :
    ∃ later, s.Called (name :: path) later target ∧ p' = .holding (name :: path) later := by
  obtain @⟨t, before, after, _, _, hdone, hactive, hfind, hkeys, hbefore⟩ := hfollows
  have hgood : name ∉ good := mt Progress.mem_done_holding.2 hdone
  have hpath : name ∉ path := mt Progress.mem_active_holding.2 hactive
  rw [Progress.enter_holding, each_visits_holding (List.nodup_cons.2 ⟨hpath, h.nodup⟩)] at hbefore
  obtain ⟨later, hall, rfl⟩ := map_eq_ok hbefore
  exact ⟨later, .follow h hgood hpath hfind hkeys hall, rfl⟩

theorem Visited.exists_called (h : s.Visited p name) :
    ∃ path good, s.Called path good name ∧ p = .holding path good := by
  induction h with
  | @start before after name done hkeys hbefore =>
    rw [← List.toFinset_nil, each_visitsFrom] at hbefore
    obtain ⟨good, hall, rfl⟩ := map_eq_ok hbefore
    exact ⟨[], good, .start hkeys hall, (Progress.holding_nil good).symm⟩
  | follow _ hfollows ih =>
    obtain ⟨path, good, hcall, rfl⟩ := ih
    obtain ⟨later, hlater, rfl⟩ := hcall.follows hfollows
    exact ⟨_, later, hlater, rfl⟩

theorem Called.visited (h : s.Called path good name) : s.Visited (.holding path good) name := by
  induction h with
  | @start before after good name hkeys hbefore =>
    rw [Progress.holding_nil]
    refine .start hkeys ?_
    rw [← List.toFinset_nil, each_visitsFrom, hbefore]
    rfl
  | @follow path good before after later name target t hcall hgood hpath hfind hkeys hbefore ih =>
    refine ih.follow (.intro (by simpa using hgood) (by simpa using hpath) hfind hkeys ?_)
    rw [Progress.enter_holding, each_visits_holding (List.nodup_cons.2 ⟨hpath, hcall.nodup⟩), hbefore]
    rfl

/-- The calls of the two searches are the same, and the books hold what the calls of the other one hand on. -/
theorem visited_iff : s.Visited p name ↔ ∃ path good, s.Called path good name ∧ p = .holding path good := by
  constructor
  · exact Visited.exists_called
  · rintro ⟨path, good, hcall, rfl⟩
    exact hcall.visited

/-! What the books hold. -/

/-- Structs of the schema from which nothing leads out of them, and none of which leads to a cycle. -/
structure Finished (s : Schema) (done : Finset String) : Prop where
  mem_structs : ∀ n ∈ done, n ∈ s.structs
  closed : ∀ n ∈ done, ∀ target, s.RefersTo n target → target ∈ done
  acyclic : ∀ n ∈ done, ∀ m, ReflTransGen s.RefersTo n m → ¬ TransGen s.RefersTo m m

theorem finished_of_buildable (hbuild : ∀ g ∈ good, s.Buildable g) (hclosed : s.Closed good) :
    s.Finished good.toFinset where
  mem_structs n hn := (hbuild n (List.mem_toFinset.1 hn)).mem
  closed n hn target htarget := List.mem_toFinset.2 (hclosed n (List.mem_toFinset.1 hn) target htarget)
  acyclic n hn _ hreach := ((hbuild n (List.mem_toFinset.1 hn)).of_reflTransGen hreach).not_cyclic

/-- The books fit each other and a call at `name`. -/
structure InStep (s : Schema) (p : Progress) (name : String) : Prop where
  nodup : p.path.Nodup
  active_eq : p.active = p.path.toFinset
  isChain : (p.path ++ [name]).IsChain s.RefersTo
  disjoint : Disjoint p.active p.done
  finished : s.Finished p.done

theorem Called.inStep (h : s.Called path good name) : s.InStep (.holding path good) name where
  nodup := List.nodup_reverse.2 h.nodup
  active_eq := (List.toFinset_reverse ..).symm
  isChain := h.isChain
  disjoint := by
    refine Finset.disjoint_left.2 fun n hn => ?_
    rw [Progress.mem_done_holding]
    exact h.not_mem_good (Progress.mem_active_holding.1 hn)
  finished := finished_of_buildable h.buildable h.closed

/-- A call that goes well leaves the way as it was, and is done with its struct. -/
theorem Called.of_visits (h : s.Called path good name) (hvisits : s.Visits (.holding path good) name (.ok p')) :
    ∃ later, p' = .holding path later ∧ (∀ g ∈ good, g ∈ later) ∧ name ∈ later ∧ s.Finished later.toFinset := by
  rw [visits_holding path h.nodup] at hvisits
  obtain ⟨later, hsearch, rfl⟩ := map_eq_ok hvisits
  obtain ⟨hbuild, hkeep, hname⟩ := buildable_of_search path good name later hsearch h.buildable
  obtain ⟨hclosed, -⟩ := closed_of_search path good name later hsearch h.buildable h.closed
  exact ⟨later, rfl, hkeep, hname, finished_of_buildable hbuild hclosed⟩

theorem unentered_reverse (s : Schema) (path : List String) : s.unentered path.reverse = s.unentered path := by
  simp only [unentered, List.mem_reverse]

/-- The search with books ends as the search for cycles does. At every call that it makes, the books are in step, and
the call ends in one way. If it goes well, the way and its set are left as they were, and at least the struct is added
to what is done with. If it calls on, it has put a struct of the schema on the way that was not there, so fewer are
left to be put on it: this is why every call ends. -/
theorem visits_in_step (s : Schema) :
    (∀ outcome, s.VisitsAll outcome ↔ outcome = s.checkAcyclic) ∧
    ∀ p name, s.Visited p name →
      s.InStep p name ∧
      (∃! outcome, s.Visits p name outcome) ∧
      (∀ p', s.Visits p name (.ok p') →
        p'.path = p.path ∧ p'.active = p.active ∧ insert name p.done ⊆ p'.done ∧ s.Finished p'.done) ∧
      ∀ p' target, s.Follows p name p' target →
        name ∈ s.structs ∧ name ∉ p.active ∧ p'.active = insert name p.active ∧
          s.unentered p'.path < s.unentered p.path := by
  refine ⟨visitsAll_iff s, fun p name hvisited => ?_⟩
  obtain ⟨path, good, hcall, rfl⟩ := visited_iff.1 hvisited
  refine ⟨hcall.inStep, ?_, fun p' hvisits => ?_, fun p' target hfollows => ?_⟩
  · simp only [visits_holding path hcall.nodup, existsUnique_eq]
  · obtain ⟨later, rfl, hkeep, hname, hfinished⟩ := hcall.of_visits hvisits
    refine ⟨rfl, rfl, fun n hn => ?_, hfinished⟩
    rcases Finset.mem_insert.1 hn with rfl | hn
    · exact Progress.mem_done_holding.2 hname
    · exact Progress.mem_done_holding.2 (hkeep n (Progress.mem_done_holding.1 hn))
  · have ⟨_, hactive, hfind, _, _⟩ := hfollows
    have hmem : name ∈ s.structs := Table.mem_of_find?_eq_some hfind
    obtain ⟨later, -, rfl⟩ := hcall.follows hfollows
    refine ⟨hmem, hactive, List.toFinset_cons, ?_⟩
    simp only [Progress.holding, unentered_reverse]
    exact unentered_cons_lt hmem (mt Progress.mem_active_holding.2 hactive)

/-- A struct that refers to two others, of which the one met later refers to the one met first. -/
def sharedSchema : Schema where
  structs := Parser.insertAll ∅
    [Declaration.build ⟨"A", [⟨"x", ⟨.struct "C", .scalar⟩⟩, ⟨"y", ⟨.struct "B", .map⟩⟩]⟩ ⟨1, 1⟩,
      Declaration.build ⟨"B", [⟨"z", ⟨.struct "C", .dynamicArray⟩⟩]⟩ ⟨2, 1⟩,
      Declaration.build ⟨"C", [⟨"v", ⟨.builtin .u8, .scalar⟩⟩]⟩ ⟨3, 1⟩]
  exports := "A"

theorem shared_visits_in_step :
    sharedSchema.Visited ⟨["A"], {"A"}, {"C"}⟩ "B" ∧ sharedSchema.InStep ⟨["A"], {"A"}, {"C"}⟩ "B" ∧
    sharedSchema.Visits ⟨["A"], {"A"}, {"C"}⟩ "B" (.ok ⟨["A"], {"A"}, {"B", "C"}⟩) ∧
    sharedSchema.Finished {"B", "C"} ∧
    sharedSchema.Follows ⟨["A"], {"A"}, {"C"}⟩ "B" ⟨["A", "B"], {"B", "A"}, {"C"}⟩ "C" ∧
    sharedSchema.unentered ["A", "B"] < sharedSchema.unentered ["A"] := by
  have hleaf : sharedSchema.Visits ⟨["A"], {"A"}, ∅⟩ "C" (.ok ⟨["A"], {"A"}, {"C"}⟩) :=
    (visits_of_find? (by decide) (by decide) (Option.some_get (by decide)).symm).2 ⟨_, .nil, rfl⟩
  have hfirst : sharedSchema.Visited {} "A" := @Visited.start _ [] ["B", "C"] "A" ∅ (by decide) .nil
  have hnext : sharedSchema.Follows {} "A" ⟨["A"], {"A"}, {"C"}⟩ "B" :=
    @Follows.intro _ _ _ _ ["C"] [] "B" _ (by decide) (by decide) (Option.some_get (by decide)).symm (by decide)
      (.next hleaf .nil)
  have hlast : sharedSchema.Follows ⟨["A"], {"A"}, {"C"}⟩ "B" ⟨["A", "B"], {"B", "A"}, {"C"}⟩ "C" :=
    @Follows.intro _ _ _ _ [] [] "C" _ (by decide) (by decide) (Option.some_get (by decide)).symm (by decide) .nil
  have hvisits : sharedSchema.Visits ⟨["A"], {"A"}, {"C"}⟩ "B" (.ok ⟨["A"], {"A"}, {"B", "C"}⟩) :=
    (visits_of_find? (by decide) (by decide) (Option.some_get (by decide)).symm).2
      ⟨_, .next (.done (by decide)) .nil, rfl⟩
  have hvisited := hfirst.follow hnext
  obtain ⟨-, hcalls⟩ := visits_in_step sharedSchema
  obtain ⟨hstep, -, hkept, hdeeper⟩ := hcalls _ _ hvisited
  exact ⟨hvisited, hstep, hvisits, (hkept _ hvisits).2.2.2, hlast, (hdeeper _ _ hlast).2.2.2⟩

end BufferSchema.Schema
