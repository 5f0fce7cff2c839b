import BufferSchema.Proofs.Luau.Execution
import Mathlib.Data.List.Forall2

/-!
# What a body does

The variables of a body only carry the cursor and the values from statement to statement. What the body does
can be said without them: the fields are written, or read, one behind the other, each with its codec.
-/

namespace BufferSchema.Luau

variable {Buffer Cell Value : Type}

namespace Env

/-- The variables when the fields of the steps have been read up to the cursor `c`. -/
def fill (env : Env Buffer Value) (steps : List Step) (c : Nat) (values : List Value) : Env Buffer Value :=
  Env.assign (Function.update env "cursor" (some (.number c))) (steps.map (·.target)) (values.map .value)

variable {env : Env Buffer Value} {names : List String} {ds : List (Datum Buffer Value)}

theorem assign_of_not_mem {name : String} (h : name ∉ names) : env.assign names ds name = env name := by
  induction names generalizing env ds with
  | nil => rfl
  | cons n names ih =>
    rw [List.mem_cons, not_or] at h
    cases ds with
    | nil => rfl
    | cons d ds => rw [assign, ih h.2, Function.update_of_ne h.1]

/-- Variables that differ hold what was put into them. -/
theorem forall₂_assign (env : Env Buffer Value) (hnodup : names.Nodup) (hlength : names.length = ds.length) :
    List.Forall₂ (fun name d => env.assign names ds name = some d) names ds := by
  induction names generalizing env ds with
  | nil =>
    cases ds with
    | nil => exact .nil
    | cons d ds => cases hlength
  | cons name names ih =>
    cases ds with
    | nil => cases hlength
    | cons d ds =>
      rw [List.nodup_cons] at hnodup
      refine .cons ?_ (ih _ hnodup.2 (by simpa using hlength))
      rw [assign, assign_of_not_mem hnodup.1, Function.update_self]

variable {steps : List Step} {c : Nat} {values : List Value}

theorem fill_cursor (hfree : ∀ s ∈ steps, isTaken s.target = false) :
    Env.fill env steps c values "cursor" = some (.number c) := by
  have hcursor : "cursor" ∉ steps.map (·.target) := by
    intro hmem
    obtain ⟨s, hs, heq⟩ := List.mem_map.1 hmem
    exact ne_cursor_of_free (hfree s hs) heq
  rw [fill, assign_of_not_mem hcursor, Function.update_self]

theorem forall₂_fill (hnodup : (steps.map (·.target)).Nodup) (hlength : values.length = steps.length) :
    List.Forall₂ (fun s x => Env.fill env steps c values s.target = some (.value x)) steps values := by
  have hsame : (steps.map (·.target)).length = (values.map Datum.value : List (Datum Buffer Value)).length := by
    simp [hlength]
  have hassigned := forall₂_assign (Function.update env "cursor" (some (.number c))) hnodup hsame
  rwa [List.forall₂_map_left_iff, List.forall₂_map_right_iff] at hassigned

end Env

namespace Runtime

section Fields

variable (R : Runtime Buffer Cell Value) (h : Helpers Buffer Value)

/-- Writes the fields of a record, one behind the other. -/
def writeFields (v : Value) : List Step → Buffer → Nat → Option (Buffer × Nat)
  | [], b, c => some (b, c)
  | s :: steps, b, c => do
    let x ← R.entry? v s.field
    let (b', c') ← R.codecWriter h s.codec b c x
    writeFields v steps b' c'

/-- Reads the values of fields, one behind the other. -/
def readFields (b : Buffer) : List Step → Nat → Option (Nat × List Value)
  | [], c => some (c, [])
  | s :: steps, c => do
    let (c', x) ← R.codecReader h s.codec b c
    let (c'', xs) ← readFields b steps c'
    some (c'', x :: xs)

end Fields

variable {R : Runtime Buffer Cell Value} {h : Helpers Buffer Value} {names : List String} {b : Buffer}
  {c c' : Nat} {env : Env Buffer Value} {v : Value} {steps : List Step} {t : Struct}

theorem length_readFields {values : List Value} (hread : R.readFields h b steps c = some (c', values)) :
    values.length = steps.length := by
  induction steps generalizing c values with
  | nil =>
    obtain ⟨-, rfl⟩ := Prod.mk.inj (Option.some.inj hread)
    rfl
  | cons s steps ih =>
    simp only [readFields, bind, Option.bind_eq_some_iff] at hread
    obtain ⟨⟨c₁, x⟩, -, ⟨c₂, xs⟩, hrest, hresult⟩ := hread
    obtain ⟨rfl, rfl⟩ := Prod.mk.inj (Option.some.inj hresult)
    simp [ih hrest]

theorem run_cons (s : Statement) (ss : List Statement) :
    R.run b env (s :: ss) = (R.exec b env s).bind fun r => R.run r.2 r.1 ss :=
  rfl

/-- The helpers that the steps need are those of `names`. -/
def Closed (names : List String) (steps : List Step) : Prop :=
  ∀ s ∈ steps, ∀ name, s.codec.structName? = some name → name ∈ names

theorem Closed.tail {s : Step} (hclosed : Closed names (s :: steps)) : Closed names steps :=
  fun t ht => hclosed t (List.mem_cons_of_mem s ht)

theorem Closed.take (hclosed : Closed names steps) (k : Nat) : Closed names (steps.take k) :=
  fun t ht => hclosed t (List.mem_of_mem_take ht)

theorem run_writes (hclosed : Closed names steps) (hframe : Frame h names c env)
    (hinput : env "input" = some (.value v)) :
    R.run b env (steps.map Step.write) =
      (R.writeFields h v steps b c).map fun r => (Function.update env "cursor" (some (.number r.2)), r.1) := by
  induction steps generalizing b c env with
  | nil =>
    have hsame : Function.update env "cursor" (some (.number c)) = env := by
      rw [← hframe.cursor, Function.update_eq_self]
    simp only [writeFields, Option.map_some, hsame]
    rfl
  | cons s steps ih =>
    rw [List.map_cons, run_cons, exec_write hframe (hclosed s List.mem_cons_self) hinput, writeFields]
    cases R.entry? v s.field with
    | none => rfl
    | some x =>
      cases hwrite : R.codecWriter h s.codec b c x with
      | none => simp [hwrite]
      | some r =>
        obtain ⟨b₁, c₁⟩ := r
        have hinput' : Function.update env "cursor" (some (.number c₁)) "input" = some (.value v) := by
          rw [Function.update_of_ne (by decide)]
          exact hinput
        have hrest := @ih b₁ c₁ _ hclosed.tail hframe.update_cursor hinput'
        simp only [Option.bind_some, Option.map_some, hwrite, bind, hrest, Function.update_idem]

theorem run_reads (hclosed : Closed names steps) (hfree : ∀ s ∈ steps, isTaken s.target = false)
    (hframe : Frame h names c env) :
    R.run b env (steps.map Step.read) =
      (R.readFields h b steps c).map fun r => (env.fill steps r.1 r.2, b) := by
  induction steps generalizing c env with
  | nil =>
    have hsame : Function.update env "cursor" (some (.number c)) = env := by
      rw [← hframe.cursor, Function.update_eq_self]
    simp only [readFields, Option.map_some, Env.fill, hsame]
    rfl
  | cons s steps ih =>
    have htarget := hfree s List.mem_cons_self
    have hcursor := ne_cursor_of_free htarget
    rw [List.map_cons, run_cons, exec_read hframe (hclosed s List.mem_cons_self), readFields]
    cases R.codecReader h s.codec b c with
    | none => rfl
    | some r =>
      obtain ⟨c₁, x⟩ := r
      have hrest := ih hclosed.tail (fun t ht => hfree t (List.mem_cons_of_mem s ht))
        ((hframe.update_cursor (d := c₁)).update_free htarget (some (.value x)))
      simp only [Option.bind_some, Option.map_some, bind, hrest]
      cases R.readFields h b steps c₁ with
      | none => rfl
      | some r =>
        -- the cursor moves on past a variable that is filled already
        simp only [Option.bind_some, Option.map_some, Env.fill, List.map_cons, Env.assign,
          Function.update_comm hcursor, Function.update_idem]

/-- The variables of a reader when it has declared its own ones. -/
def readEnv (h : Helpers Buffer Value) (names vars : List String) (c : Nat) : Env Buffer Value :=
  vars.foldl (fun env name => Function.update env name none)
    ((h.env names).assign ["buff", "cursor"] [.buffer, .number c])

theorem frame_readEnv {vars : List String} (hfree : ∀ v ∈ vars, isTaken v = false) :
    Frame h names c (readEnv h names vars c) :=
  (Frame.of_read c).declare hfree

/-- A reader that has declared its variables reads the fields of its steps into them. -/
theorem run_declared_reads {vars : List String} (hvars : ∀ v ∈ vars, isTaken v = false)
    (hclosed : Closed names steps) (hfree : ∀ s ∈ steps, isTaken s.target = false) :
    R.run b ((h.env names).assign ["buff", "cursor"] [.buffer, .number c])
        (.declare vars :: steps.map Step.read) =
      (R.readFields h b steps c).map fun r => ((readEnv h names vars c).fill steps r.1 r.2, b) :=
  run_reads hclosed hfree (frame_readEnv hvars)

/-- A body that writes does nothing but write the fields of its steps. -/
theorem bodyWriter_eq {body : Body} (hclosed : Closed names body.steps) :
    R.bodyWriter (h.env names) body b c v = R.writeFields h v body.steps b c := by
  have hrun := run_writes (b := b) (R := R) hclosed (Frame.of_write (h := h) c v) rfl
  simp only [bodyWriter, Body.writes, hrun, bind]
  cases R.writeFields h v body.steps b c with
  | none => rfl
  | some r => simp only [Option.map_some, Option.bind_some, number?, Function.update_self]

theorem build_result {body : Body} {values : List Value}
    (hvalues : List.Forall₂ (fun s x => env s.target = some (.value x)) body.steps values) :
    R.build env body.result = some (R.record ((body.steps.map (·.field)).zip values)) := by
  have hread : (body.result.entries.mapM fun entry => value? env entry.2) = some values := by
    unfold Body.result
    generalize body.steps = steps at hvalues
    induction hvalues with
    | nil => rfl
    | @cons s x steps values hx _ ih =>
      have hvalue : value? env s.target = some x := by simp only [value?, hx]
      simp only [List.map_cons, List.mapM_cons, hvalue, ih]
      rfl
  have hnames : body.result.entries.map Prod.fst = body.steps.map (·.field) := by
    simp [Body.result]
  simp only [build, hread, hnames, bind, Option.bind_some]

/-- A body that reads does nothing but read the fields of its steps and make a record of the values. -/
theorem bodyReader_eq {body : Body} (hclosed : Closed names body.steps)
    (hfree : ∀ s ∈ body.steps, isTaken s.target = false) (hnodup : (body.steps.map (·.target)).Nodup) :
    R.bodyReader (h.env names) body b c =
      (R.readFields h b body.steps c).map fun r => (r.1, R.record ((body.steps.map (·.field)).zip r.2)) := by
  have htargets : ∀ v ∈ body.steps.map (·.target), isTaken v = false := by simpa using hfree
  have hrun := run_declared_reads (R := R) (h := h) (b := b) (c := c) htargets hclosed hfree
  simp only [bodyReader, Body.reads, hrun, bind]
  cases hread : R.readFields h b body.steps c with
  | none => rfl
  | some r =>
    obtain ⟨c', values⟩ := r
    have hvalues := length_readFields hread
    simp only [Option.map_some, Option.bind_some, number?, Env.fill_cursor hfree,
      build_result (Env.forall₂_fill hnodup hvalues)]

end Runtime

/-! The steps of a struct's fields. -/

namespace Body

variable {t : Struct}

theorem map_field_ofStruct (t : Struct) : (ofStruct t).steps.map (·.field) = t.fields.map (·.name) := by
  have hfst : (t.fields.zip (fieldVariables t)).map Prod.fst = t.fields :=
    List.map_fst_zip (Nat.le_of_eq (length_fieldVariables t).symm)
  have hnames := congrArg (List.map (·.name)) hfst
  rw [List.map_map] at hnames
  rw [ofStruct, List.map_map]
  exact hnames

theorem map_target_ofStruct (t : Struct) : (ofStruct t).steps.map (·.target) = fieldVariables t := by
  have hsnd : (t.fields.zip (fieldVariables t)).map Prod.snd = fieldVariables t :=
    List.map_snd_zip (Nat.le_of_eq (length_fieldVariables t))
  rw [ofStruct, List.map_map]
  exact hsnd

theorem codec_of_mem_ofStruct {s : Step} (hs : s ∈ (ofStruct t).steps) :
    ∃ f ∈ t.fields, s.field = f.name ∧ s.codec = f.type.codec := by
  obtain ⟨⟨f, v⟩, hmem, rfl⟩ := List.mem_map.1 hs
  exact ⟨f, (List.of_mem_zip hmem).1, rfl, rfl⟩

/-- A step needs the helper of a struct that some field is made of. -/
theorem exists_field_of_structName? {s : Step} (hs : s ∈ (ofStruct t).steps) {name : String}
    (hname : s.codec.structName? = some name) : ∃ f ∈ t.fields, f.type.element.structName? = some name := by
  obtain ⟨f, hf, -, hcodec⟩ := codec_of_mem_ofStruct hs
  rw [hcodec] at hname
  exact ⟨f, hf, TypeRef.structName?_codec hname⟩

theorem forall₂_zip {r : String → Codec → Value → Prop} {fs : List Field} {vs : List String}
    {values : List Value} (h : List.Forall₂ (fun f x => r f.name f.type.codec x) fs values)
    (hlength : vs.length = fs.length) :
    List.Forall₂ (fun s x => r s.field s.codec x)
      ((fs.zip vs).map fun (f, v) => (⟨f.name, v, f.type.codec⟩ : Step)) values := by
  induction h generalizing vs with
  | nil => exact .nil
  | cons hx _ ih =>
    cases vs with
    | nil => cases hlength
    | cons v vs => exact .cons hx (ih (by simpa using hlength))

theorem isTaken_target_ofStruct {s : Step} (hs : s ∈ (ofStruct t).steps) : isTaken s.target = false := by
  apply isTaken_fieldVariables (s := t)
  rw [← map_target_ofStruct]
  exact List.mem_map_of_mem hs

/-- What holds of the fields and their values holds of the steps. -/
theorem forall₂_ofStruct {r : String → Codec → Value → Prop} {values : List Value}
    (h : List.Forall₂ (fun f x => r f.name f.type.codec x) t.fields values) :
    List.Forall₂ (fun s x => r s.field s.codec x) (ofStruct t).steps values :=
  forall₂_zip h (length_fieldVariables t)

end Body

namespace Runtime

section Structs

variable (R : Runtime Buffer Cell Value) (h : Helpers Buffer Value) (t : Struct)

/-- Writes the fields of a struct's record. -/
def structWriter : Writer Buffer Value := fun b c v => R.writeFields h v (Body.ofStruct t).steps b c

/-- Reads the fields of a struct and makes a record of their values. -/
def structReader : Reader Buffer Value := fun b c =>
  (R.readFields h b (Body.ofStruct t).steps c).map fun r =>
    (r.1, R.record ((t.fields.map (·.name)).zip r.2))

end Structs

variable {R : Runtime Buffer Cell Value} {h : Helpers Buffer Value} {names : List String} {t : Struct}

theorem closed_ofStruct (hnames : ∀ f ∈ t.fields, ∀ name, f.type.element.structName? = some name → name ∈ names) :
    Closed names (Body.ofStruct t).steps := by
  intro s hs name hname
  obtain ⟨f, hf, helement⟩ := Body.exists_field_of_structName? hs hname
  exact hnames f hf name helement

theorem bodyWriter_ofStruct (hclosed : Closed names (Body.ofStruct t).steps) :
    R.bodyWriter (h.env names) (Body.ofStruct t) = R.structWriter h t := by
  funext b c v
  exact bodyWriter_eq hclosed

theorem bodyReader_ofStruct (hclosed : Closed names (Body.ofStruct t).steps)
    (hnodup : (t.fields.map (·.name)).Nodup) :
    R.bodyReader (h.env names) (Body.ofStruct t) = R.structReader h t := by
  have htargets : ((Body.ofStruct t).steps.map (·.target)).Nodup := by
    rw [Body.map_target_ofStruct]
    exact nodup_fieldVariables hnodup
  funext b c
  rw [bodyReader_eq hclosed (fun s hs => Body.isTaken_target_ofStruct hs) htargets, Body.map_field_ofStruct]
  rfl

end Runtime

end BufferSchema.Luau
