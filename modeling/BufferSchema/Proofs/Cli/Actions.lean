import BufferSchema.Cli.Session
import BufferSchema.Cli.Settings

/-!
# Actions of a run

What a run does in a session, it does in one of two ways. Some actions look at the files and the clock and show
something: they `Observe`. Others write a file, and change nothing where they fail: they `Perform`. Either way what an
action returns, and the files behind it, are a plain function of the files and the clock in front of it, and actions
one behind the other are functions one behind the other.
-/

namespace BufferSchema

namespace Session

variable {α β : Type} {σ σ' : Session}

/-- What a run does in a session. -/
abbrev Action (α : Type) : Type := ExceptT CompileError (StateM Session) α

/-- The result of an action, and the session behind it. -/
def outcome (σ : Session) (x : Action α) : Except CompileError α × Session := x.run.run σ

/-- Behind an action that succeeds the next one runs in the session that the first one left. -/
theorem outcome_bind_of_ok {x : Action α} {f : α → Action β} {a : α} (h : σ.outcome x = (.ok a, σ')) :
    σ.outcome (x >>= f) = σ'.outcome (f a) := by
  simp only [outcome, ExceptT.run_bind, StateT.run_bind] at h ⊢
  rw [h]
  rfl

/-- Behind an action that fails nothing runs. -/
theorem outcome_bind_of_error {x : Action α} {f : α → Action β} {e : CompileError} (h : σ.outcome x = (.error e, σ')) :
    σ.outcome (x >>= f) = (.error e, σ') := by
  simp only [outcome, ExceptT.run_bind, StateT.run_bind] at h ⊢
  rw [h]
  rfl

/-- A request that the session serves does not fail. -/
theorem outcome_lift (σ : Session) (x : StateM Session α) :
    σ.outcome (x : Action α) = (.ok (x.run σ).1, (x.run σ).2) := rfl

theorem outcome_kindOf? (σ : Session) (path : String) :
    σ.outcome (Host.kindOf? (m := StateM Session) path : Action _) = (.ok (σ.kindOf? path), σ) := rfl

theorem outcome_readFile_of_file (σ : Session) {path : String} {bytes : List UInt8}
    (h : σ.files.lookup? path = some (.file bytes)) :
    σ.outcome (Host.readFile (m := StateM Session) path : Action _) = (.ok (.ok bytes), σ) := by
  show (Except.ok (σ.readFile path), σ) = _
  rw [Session.readFile, h]

/-- A file that can be written is, and only the files change. -/
theorem outcome_writeFile_of_some {path content : String} {files : FileTree}
    (h : σ.files.write? path (Text.encode content) = some files) :
    σ.outcome (Host.writeFile (m := StateM Session) path content : Action _) = (.ok (.ok ()), { σ with files }) := by
  have hwrite : σ.writeFile path (Text.encode content) = .ok { σ with files } := by
    rw [Session.writeFile, h]
  rw [outcome_lift]
  simp only [Host.writeFile, StateT.run_bind, StateT.run_get, pure_bind, hwrite]
  rfl

theorem outcome_writeFile_of_none {path content : String} (h : σ.files.write? path (Text.encode content) = none) :
    σ.outcome (Host.writeFile (m := StateM Session) path content : Action _) =
      (.ok (.error "cannot be written"), σ) := by
  have hwrite : σ.writeFile path (Text.encode content) = .error "cannot be written" := by
    rw [Session.writeFile, h]
  rw [outcome_lift]
  simp only [Host.writeFile, StateT.run_bind, StateT.run_get, pure_bind, hwrite]
  rfl

end Session

open Session

/-! Actions that only look. -/

/-- The action shows something at most, and its result is a function of the files and the clock. -/
def Observes {α : Type} (x : Action α) (r : FileTree → Timestamp → Except CompileError α) : Prop :=
  ∀ σ : Session, ∃ shown, σ.outcome x = (r σ.files σ.clock, { σ with shown })

theorem observes_showEvents (threshold : Log.Level) (events : List Log.Event) :
    Observes (showEvents threshold events) fun _ _ => .ok () := fun _ => ⟨_, rfl⟩

theorem observes_showLogged {α : Type} (threshold : Log.Level) (x : Logged α) :
    Observes (showLogged threshold x) fun _ _ => x.result := fun _ => ⟨_, rfl⟩

theorem observes_now : Observes (Host.now (m := StateM Session)) fun _ now => .ok now := fun σ => ⟨σ.shown, rfl⟩

/-- The text of the schema at a path, which must lead to a file with the extension of a schema. -/
def FileTree.schemaAt (t : FileTree) (path : String) : Except CompileError String :=
  match t.lookup? path with
  | none => .error (.missingPath path)
  | some .directory => .error (.pathIsDirectory path)
  | some (.file bytes) =>
    if !hasSchemaExtension path then
      .error (.wrongExtension path (", ".intercalate (schemaExtensions.map ("." ++ ·))))
    else match Text.decode? bytes with
      | none => .error (.io Text.invalidEncoding)
      | some text => .ok text

/-- Loading a schema looks at the files, and shows that it reads one. -/
theorem observes_loadSchema (threshold : Log.Level) (path : String) :
    Observes (loadSchema threshold path) fun t _ => t.schemaAt path := by
  intro σ
  unfold loadSchema
  rw [outcome_bind_of_ok (outcome_kindOf? σ path), Session.kindOf?]
  dsimp only [FileTree.schemaAt]
  cases hnode : σ.files.lookup? path with
  | none => exact ⟨σ.shown, rfl⟩
  | some node =>
    cases node with
    | directory => exact ⟨σ.shown, rfl⟩
    | file bytes =>
      dsimp only [Option.map_some]
      split
      · exact ⟨σ.shown, rfl⟩
      · obtain ⟨shown, hshow⟩ := observes_showEvents threshold [⟨.info, s!"reading '{path}'"⟩] σ
        have hread := outcome_readFile_of_file { σ with shown } hnode
        rw [outcome_bind_of_ok hshow, outcome_bind_of_ok hread]
        dsimp only
        cases Text.decode? bytes with
        | none => exact ⟨shown, rfl⟩
        | some text => exact ⟨shown, rfl⟩

/-! Actions that write. -/

/-- The files behind an action with the result `r`. An action that fails leaves them alone. -/
def FileTree.behind {α : Type} (t : FileTree) : Except CompileError (α × FileTree) → FileTree
  | .ok (_, t') => t'
  | .error _ => t

/-- The action shows something at most, and its result and the files behind it are functions of the files and the
clock. Where it fails, the files are the same as before. -/
def Performs {α : Type} (x : Action α) (r : FileTree → Timestamp → Except CompileError (α × FileTree)) : Prop :=
  ∀ σ : Session, ∃ shown, σ.outcome x =
    ((r σ.files σ.clock).map Prod.fst, { σ with files := σ.files.behind (r σ.files σ.clock), shown })

section

variable {α β : Type} {x : Action α} {f : α → Action β}

theorem Performs.result {r : FileTree → Timestamp → Except CompileError (α × FileTree)} (h : Performs x r)
    (σ : Session) : (σ.outcome x).1 = (r σ.files σ.clock).map Prod.fst := by
  obtain ⟨shown, h⟩ := h σ
  rw [h]

theorem Performs.files {r : FileTree → Timestamp → Except CompileError (α × FileTree)} (h : Performs x r)
    (σ : Session) : (σ.outcome x).2.files = σ.files.behind (r σ.files σ.clock) := by
  obtain ⟨shown, h⟩ := h σ
  rw [h]

/-- In front of an action that writes may stand one that looks: its result is handed on. -/
theorem Observes.bind_performs {r : FileTree → Timestamp → Except CompileError α}
    {g : α → FileTree → Timestamp → Except CompileError (β × FileTree)} (hx : Observes x r)
    (hf : ∀ a, Performs (f a) (g a)) : Performs (x >>= f) fun t now => r t now >>= fun a => g a t now := by
  intro σ
  obtain ⟨shown, hx⟩ := hx σ
  dsimp only
  cases hr : r σ.files σ.clock with
  | error e =>
    rw [hr] at hx
    exact ⟨shown, outcome_bind_of_error hx⟩
  | ok a =>
    rw [hr] at hx
    obtain ⟨shown', hf⟩ := hf a { σ with shown }
    exact ⟨shown', (outcome_bind_of_ok hx).trans hf⟩

/-- Behind an action that writes may stand one that only shows something. -/
theorem Performs.bind_observes {r : FileTree → Timestamp → Except CompileError (α × FileTree)} {f : α → Action α}
    (hx : Performs x r) (hf : ∀ a, Observes (f a) fun _ _ => .ok a) : Performs (x >>= f) r := by
  intro σ
  obtain ⟨shown, hx⟩ := hx σ
  cases hr : r σ.files σ.clock with
  | error e =>
    rw [hr] at hx
    exact ⟨shown, outcome_bind_of_error hx⟩
  | ok a =>
    rw [hr] at hx
    obtain ⟨shown', hf⟩ := hf a.1 { σ with files := a.2, shown }
    exact ⟨shown', (outcome_bind_of_ok hx).trans hf⟩

end

/-- The tree with a text at a path. -/
def FileTree.put (t : FileTree) (path content : String) : Except CompileError (String × FileTree) :=
  match t.write? path (Text.encode content) with
  | some t' => .ok (path, t')
  | none => .error (.io "cannot be written")

/-- The tree with a text in a directory. -/
def FileTree.deliver (t : FileTree) (dir name content : String) : Except CompileError (String × FileTree) :=
  if t.lookup? dir = some .directory then t.put (Path.join dir name) content
  else .error (.outputNotDirectory dir)

theorem performs_writeFile (path content : String) :
    Performs (do
      match ← Host.writeFile (m := StateM Session) path content with
      | .error detail => throw (CompileError.io detail)
      | .ok () => pure path) fun t _ => t.put path content := by
  intro σ
  refine ⟨σ.shown, ?_⟩
  dsimp only [FileTree.put]
  cases hwrite : σ.files.write? path (Text.encode content) with
  | none =>
    rw [outcome_bind_of_ok (outcome_writeFile_of_none hwrite)]
    rfl
  | some t' =>
    rw [outcome_bind_of_ok (outcome_writeFile_of_some hwrite)]
    rfl

/-- Writing a module puts it into the directory, which must be there. -/
theorem performs_writeOutput (threshold : Log.Level) (dir name content : String) :
    Performs (writeOutput threshold dir name content) fun t _ => t.deliver dir name content := by
  intro σ
  unfold writeOutput
  rw [outcome_bind_of_ok (outcome_kindOf? σ dir), Session.kindOf?]
  dsimp only [FileTree.deliver]
  cases hnode : σ.files.lookup? dir with
  | none => exact ⟨σ.shown, rfl⟩
  | some node =>
    cases node with
    | file bytes => exact ⟨σ.shown, rfl⟩
    | directory =>
      dsimp only [Option.map_some]
      rw [outcome_bind_of_ok (outcome_kindOf? σ (Path.join dir name)), if_pos rfl]
      have hwrite := performs_writeFile (Path.join dir name) content
      split
      · exact (observes_showEvents _ _).bind_performs (fun _ => hwrite) σ
      · exact hwrite σ

theorem Performs.showing {α : Type} {x : Action α} {r : FileTree → Timestamp → Except CompileError (α × FileTree)}
    (h : Performs x r) (shows : Prop) [Decidable shows] (threshold : Log.Level) (events : List Log.Event) :
    Performs (if shows then showEvents threshold events >>= fun _ => x else x) r := by
  split
  · exact (observes_showEvents threshold events).bind_performs fun _ => h
  · exact h

/-! When a schema is read and a module is written. -/

namespace FileTree

variable {t t' : FileTree} {path source : String}

/-- A schema is loaded from a file with the right extension whose bytes are a text, and from nothing else. -/
theorem schemaAt_eq_ok_iff : t.schemaAt path = .ok source ↔ hasSchemaExtension path = true ∧
    ∃ bytes, t.lookup? path = some (.file bytes) ∧ Text.decode? bytes = some source := by
  unfold schemaAt
  cases t.lookup? path with
  | none => simp
  | some node =>
    cases node with
    | directory => simp
    | file bytes =>
      cases hasSchemaExtension path with
      | false => simp
      | true => cases hdecode : Text.decode? bytes <;> simp [hdecode]

theorem put_eq_ok_iff {content path' : String} : t.put path content = .ok (path', t') ↔
    path' = path ∧ t.write? path (Text.encode content) = some t' := by
  unfold put
  cases t.write? path (Text.encode content) with
  | none => simp
  | some t'' => simp [eq_comm]

theorem deliver_eq_ok_iff {dir name content : String} : t.deliver dir name content = .ok (path, t') ↔
    t.lookup? dir = some .directory ∧ path = Path.join dir name ∧
      t.write? (Path.join dir name) (Text.encode content) = some t' := by
  unfold deliver
  by_cases hdir : t.lookup? dir = some .directory
  · rw [if_pos hdir, put_eq_ok_iff, and_iff_right hdir]
  · simp [hdir]

end FileTree

end BufferSchema
