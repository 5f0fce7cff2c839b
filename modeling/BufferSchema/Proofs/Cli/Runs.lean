import BufferSchema.Cli.Command
import BufferSchema.Proofs.Cli.Actions
import BufferSchema.Proofs.FileTree
import BufferSchema.Proofs.Luau.Failures
import BufferSchema.Proofs.Schema.Reliable

/-!
# Runs of the command

A run reads a schema, compiles it, and writes one file. Up to the writing it looks at the files and shows something,
no more, and nothing behind the writing fails. So what a run returns and what it does to the files is one function of
the files and the clock, `Settings.effect`, in which the compilation is `Luau.compile` itself.
-/

namespace BufferSchema

open Session
open Schema.Parser (bind_eq_ok_iff)

/-- What a run returns and the files behind it: the schema is read, compiled, and its module is written. -/
def Settings.effect (s : Settings) (t : FileTree) (now : Timestamp) : Except CompileError (String × FileTree) := do
  let source ← t.schemaAt s.input
  let file ← Luau.compile { outputDir := s.output } now source
  t.deliver s.output file.name file.content

theorem Settings.performs_run (s : Settings) : Performs s.run s.effect := by
  have hstages : s.effect = fun t now => .ok () >>= fun () => t.schemaAt s.input >>= fun source =>
      (TokenStream.scan source).result >>= fun tokens => (Schema.parse tokens).result >>= fun schema =>
        .ok now >>= fun date => (Luau.generate { outputDir := s.output } date schema).result >>= fun file =>
          t.deliver s.output file.name file.content := by
    funext t now
    show _ = t.schemaAt s.input >>= _
    dsimp only [effect, Luau.compile, Schema.ofText]
    simp only [bind_assoc]
    rfl
  rw [hstages]
  unfold run
  refine (observes_showEvents _ _).bind_performs fun _ => ?_
  refine (observes_loadSchema _ _).bind_performs fun source => ?_
  refine (observes_showLogged _ _).bind_performs fun tokens => ?_
  refine Performs.showing ?_ _ _ _
  refine (observes_showLogged _ _).bind_performs fun schema => ?_
  refine observes_now.bind_performs fun date => ?_
  refine (observes_showLogged _ _).bind_performs fun file => ?_
  exact (performs_writeOutput _ _ _ _).bind_observes fun path σ => ⟨_, rfl⟩

/-! What a run returns. -/

theorem exists_name_of_hasSchemaExtension {path : String} (h : hasSchemaExtension path = true) :
    ∃ name, (Path.names path).getLast? = some name ∧ name ≠ ".." := by
  have hsome : Path.extension? path ≠ none := by
    intro hnone
    rw [hasSchemaExtension, hnone] at h
    revert h
    decide +kernel
  unfold Path.extension? at hsome
  cases hlast : (Path.names path).getLast? with
  | none =>
    rw [hlast] at hsome
    exact absurd rfl hsome
  | some name =>
    refine ⟨name, rfl, fun hdots => ?_⟩
    rw [hlast] at hsome
    exact hsome (if_pos hdots)

namespace Luau

variable {s : Schema}

/-- The name of a module is none of the names with a meaning of their own. -/
theorem fileName_ne (s : Schema) {name : String} (h : name.length ≤ 2) : fileName s ≠ name := by
  rintro rfl
  rw [fileName, String.length_append] at h
  have hsuffix : ".luau".length = 5 := by decide
  omega

theorem isPlainName_fileName (h : Name.Faultless s.exports) : FileTree.IsPlainName (fileName s) := by
  have hnot : ∀ c, Text.isNamePart c = false → c ≠ '.' → c ∉ (fileName s).toList :=
    fun c hpart hdot => not_mem_fileName h hpart hdot
  refine ⟨hnot _ (by decide) (by decide), fileName_ne s (by decide), fileName_ne s (by decide),
    fileName_ne s (by decide), ?_⟩
  have hbytes := Text.utf8ByteSize_of_isNamePart h.identifier.isNamePart
  have hlength : s.exports.length ≤ 64 := h.length_le
  have hsuffix : ".luau".utf8ByteSize = 5 := by decide
  have hsize : (fileName s).utf8ByteSize ≤ FileTree.maxNameBytes := by
    rw [fileName, String.utf8ByteSize_append, FileTree.maxNameBytes]
    omega
  simp [FileTree.isFileName, hsize, hnot '\x00' (by decide) (by decide)]

end Luau

/-- No schema is read from a file with the name of a module. -/
theorem hasSchemaExtension_of_module {path : String} {s : Schema} (hexports : Name.Faultless s.exports)
    (h : (Path.names path).getLast? = some (Luau.fileName s)) : hasSchemaExtension path = false := by
  have hne : s.exports ≠ "" := by
    intro hempty
    exact hexports.ne_nil (hempty ▸ rfl)
  have hname : Path.extensionOfName? (Luau.fileName s) = some "luau" :=
    Path.extensionOfName?_append "luau" hne (by decide)
  have hext : Path.extension? path = some "luau" := by
    rw [Path.extension?, h]
    exact (if_neg (Luau.fileName_ne s (by decide))).trans hname
  rw [hasSchemaExtension, hext]
  decide +kernel

namespace Settings

variable {s : Settings} {σ : Session}

/-- What a run has done that has returned a path: the module of the input's text is there, under the name of the
export, every path leads where it led before, and at every other place stands what stood there. -/
structure Delivered (s : Settings) (σ : Session) (path : String) (after : FileTree) : Prop where
  exists_module : ∃ bytes source schema file dir, σ.files.lookup? s.input = some (.file bytes) ∧
    Text.decode? bytes = some source ∧ Schema.ofText source = .ok schema ∧
    Luau.compile { outputDir := s.output } σ.clock source = .ok file ∧
    file.name = schema.exports ++ ".luau" ∧ path = Path.join s.output file.name ∧
    σ.files.resolve? s.output = some dir ∧ σ.files.resolve? path = some (dir ++ [file.name]) ∧
    after.lookup? path = some (.file (Text.encode file.content))
  resolve : ∀ other, after.resolve? other = σ.files.resolve? other
  elsewhere : ∀ place, σ.files.resolve? path ≠ some place → after.node? place = σ.files.node? place
  input : after.lookup? s.input = σ.files.lookup? s.input

theorem effect_of_schemaAt {t : FileTree} {now : Timestamp} {source : String} (h : t.schemaAt s.input = .ok source) :
    s.effect t now = Luau.compile { outputDir := s.output } now source >>= fun file =>
      t.deliver s.output file.name file.content := by
  rw [effect, h]
  rfl

theorem effect_eq_ok_iff {t t' : FileTree} {now : Timestamp} {path : String} : s.effect t now = .ok (path, t') ↔
    ∃ source file, t.schemaAt s.input = .ok source ∧ Luau.compile { outputDir := s.output } now source = .ok file ∧
      t.lookup? s.output = some .directory ∧ path = Path.join s.output file.name ∧
      t.write? (Path.join s.output file.name) (Text.encode file.content) = some t' := by
  unfold effect
  simp only [bind_eq_ok_iff, FileTree.deliver_eq_ok_iff, ← exists_and_left]

theorem files_of_error {e : CompileError} (h : (σ.outcome s.run).1 = .error e) :
    (σ.outcome s.run).2.files = σ.files := by
  rw [s.performs_run.result] at h
  rw [s.performs_run.files]
  cases heffect : s.effect σ.files σ.clock with
  | error e => rfl
  | ok a =>
    rw [heffect] at h
    cases h

/-- The input and the module differ in their extensions, so they do not lead to the same place. -/
theorem resolve?_module_ne {t : FileTree} {schema : Schema} {input dir : String}
    (hexports : Name.Faultless schema.exports) (hinput : hasSchemaExtension input = true) {place : List String}
    (hplace : t.resolve? input = some place) : t.resolve? (Path.join dir (Luau.fileName schema)) ≠ some place := by
  intro hmodule
  have hplain := Luau.isPlainName_fileName hexports
  obtain ⟨name, hlast, hdots⟩ := exists_name_of_hasSchemaExtension hinput
  have hjoin := Path.getLast?_names_join dir hplain.slash hplain.ne_empty hplain.ne_here
  have hsame : some name = some (Luau.fileName schema) :=
    (FileTree.getLast?_resolve? hplace hlast hdots).symm.trans
      (FileTree.getLast?_resolve? hmodule hjoin hplain.ne_above)
  have hno := hasSchemaExtension_of_module hexports (hsame ▸ hlast)
  rw [hinput] at hno
  cases hno

theorem delivered_of_ok {path : String} (h : (σ.outcome s.run).1 = .ok path) :
    s.Delivered σ path (σ.outcome s.run).2.files := by
  rw [s.performs_run.result] at h
  rw [s.performs_run.files]
  cases heffect : s.effect σ.files σ.clock with
  | error e =>
    rw [heffect] at h
    cases h
  | ok a =>
    obtain ⟨path', files⟩ := a
    rw [heffect] at h
    obtain rfl : path' = path := Except.ok.inj h
    obtain ⟨source, file, hload, hcompile, houtput, rfl, hwrite⟩ := effect_eq_ok_iff.1 heffect
    obtain ⟨hextension, bytes, hnode, hdecode⟩ := FileTree.schemaAt_eq_ok_iff.1 hload
    obtain ⟨schema, exported, hsource, -, rfl⟩ := Luau.compile_eq_ok_iff.1 hcompile
    have hexports := Schema.faultless_exports hsource
    obtain ⟨place, hplace, -⟩ := Option.bind_eq_some_iff.1 hnode
    have hinput : σ.files.resolve? (Path.join s.output (Luau.fileName schema)) ≠ σ.files.resolve? s.input :=
      hplace ▸ resolve?_module_ne hexports hextension hplace
    obtain ⟨q, hq, -, -⟩ := FileTree.write?_eq_some_iff.1 hwrite
    obtain ⟨dir, hdir, rfl⟩ := FileTree.exists_resolve?_join houtput (Luau.isPlainName_fileName hexports) hq
    exact
      { exists_module := ⟨bytes, source, schema, _, dir, hnode, hdecode, hsource, hcompile, rfl, rfl, hdir, hq,
          FileTree.lookup?_write_self hwrite⟩
        resolve := FileTree.resolve?_write hwrite
        elsewhere := fun _ => FileTree.node?_write_of_ne hwrite
        input := FileTree.lookup?_write_of_ne hwrite hinput }

theorem schemaAt_of_load {threshold : Log.Level} {path source : String}
    (h : (σ.outcome (loadSchema threshold path)).1 = .ok source) : σ.files.schemaAt path = .ok source := by
  obtain ⟨shown, hload⟩ := observes_loadSchema threshold path σ
  rw [hload] at h
  exact h

theorem isOfFiles_of_deliver {t : FileTree} {dir name content : String} {e : CompileError}
    (h : t.deliver dir name content = .error e) : e.isOfFiles = true := by
  unfold FileTree.deliver FileTree.put at h
  split at h
  · split at h
    · cases h
    · obtain rfl := Except.error.inj h
      rfl
  · obtain rfl := Except.error.inj h
    rfl

/-- Once the input is loaded, a run fails for a reason that has nothing to do with files exactly when the compilation
fails, and for the same one. -/
theorem compile_eq_error_iff {source : String} (h : σ.files.schemaAt s.input = .ok source) {e : CompileError} :
    Luau.compile { outputDir := s.output } σ.clock source = .error e ↔
      (σ.outcome s.run).1 = .error e ∧ e.isOfFiles = false := by
  rw [s.performs_run.result, effect_of_schemaAt h]
  cases hcompile : Luau.compile { outputDir := s.output } σ.clock source with
  | error e' =>
    have htextual := Luau.textual_compile _ _ _ e' hcompile
    constructor
    · intro h
      obtain rfl : e' = e := Except.error.inj h
      exact ⟨rfl, htextual⟩
    · rintro ⟨h, -⟩
      obtain rfl : e' = e := Except.error.inj h
      rfl
  | ok file =>
    constructor
    · intro h
      cases h
    · rintro ⟨h, hfiles⟩
      cases hdeliver : σ.files.deliver s.output file.name file.content with
      | ok a =>
        have hnone : Except.ok a.1 = Except.error e := (congrArg (Except.map Prod.fst) hdeliver).symm.trans h
        cases hnone
      | error e' =>
        have hsame : Except.error e' = Except.error e := (congrArg (Except.map Prod.fst) hdeliver).symm.trans h
        obtain rfl : e' = e := Except.error.inj hsame
        rw [isOfFiles_of_deliver hdeliver] at hfiles
        cases hfiles

/-- A run ends well where its input compiles and its module can be written. -/
theorem exists_ok {source : String} {file : Luau.SourceFile} (hload : σ.files.schemaAt s.input = .ok source)
    (hcompile : Luau.compile { outputDir := s.output } σ.clock source = .ok file)
    (houtput : σ.files.lookup? s.output = some .directory)
    (hfree : σ.files.lookup? (Path.join s.output file.name) ≠ some .directory)
    (hlength : (Path.join s.output file.name).utf8ByteSize ≤ FileTree.maxPathBytes) :
    ∃ path, (σ.outcome s.run).1 = .ok path := by
  obtain ⟨schema, exported, hsource, -, hfile⟩ := Luau.compile_eq_ok_iff.1 hcompile
  have hplain : FileTree.IsPlainName file.name :=
    hfile ▸ Luau.isPlainName_fileName (Schema.faultless_exports hsource)
  obtain ⟨files, hwrite⟩ := FileTree.exists_write?_join houtput hplain hfree hlength (Text.encode file.content)
  refine ⟨Path.join s.output file.name, ?_⟩
  rw [s.performs_run.result, effect_eq_ok_iff.2 ⟨source, file, hload, hcompile, houtput, rfl, hwrite⟩]
  rfl

end Settings

/-! The exit status. -/

namespace Command

variable {arguments : List String} {a : Arguments} {s : Settings} {σ σ' : Session}

theorem run_report (debug : Bool) (e : CompileError) (σ : Session) :
    ∃ shown, (report debug e : StateM Session Nat).run σ = (e.code, { σ with shown }) := ⟨_, rfl⟩

/-- Arguments that give settings run them. -/
theorem run_of_settings (ha : Arguments.parse arguments = .ok a) (hs : σ.outcome (settingsOf a) = (.ok s, σ')) :
    (run arguments : StateM Session Nat).run σ =
      match σ'.outcome s.run with
      | (.ok _, σ'') => (0, σ'')
      | (.error e, σ'') => (report s.debug e : StateM Session Nat).run σ'' := by
  unfold run
  rw [ha]
  dsimp only
  rw [StateT.run_bind]
  unfold outcome at hs
  rw [hs]
  show (s.run.run >>= _ : StateM Session Nat).run σ' = _
  rw [StateT.run_bind]
  rcases hrun : σ'.outcome s.run with ⟨e | path, σ''⟩
  · unfold outcome at hrun
    rw [hrun]
    rfl
  · unfold outcome at hrun
    rw [hrun]
    rfl

end Command

/-- **A run is all or nothing, and does what the compilation says.** A run that fails leaves every file as it was. One
that returns a path has written the module there, and nothing else. Between the reading of the input and the writing
it fails as the compilation does, and the writing fails only where the module cannot be written. The exit status tells
how the run has ended. -/
theorem Settings.run_all_or_nothing (s : Settings) (σ : Session) :
    (∀ e, (σ.outcome s.run).1 = .error e → (σ.outcome s.run).2.files = σ.files) ∧
    (∀ path, (σ.outcome s.run).1 = .ok path → s.Delivered σ path (σ.outcome s.run).2.files) ∧
    (∀ source, (σ.outcome (loadSchema s.logLevel s.input)).1 = .ok source →
      (∀ e, Luau.compile { outputDir := s.output } σ.clock source = .error e ↔
        (σ.outcome s.run).1 = .error e ∧ e.isOfFiles = false) ∧
      ∀ file, Luau.compile { outputDir := s.output } σ.clock source = .ok file →
        σ.files.lookup? s.output = some .directory →
        σ.files.lookup? (Path.join s.output file.name) ≠ some .directory →
        (Path.join s.output file.name).utf8ByteSize ≤ FileTree.maxPathBytes →
        ∃ path, (σ.outcome s.run).1 = .ok path) ∧
    (∀ arguments a σ₀, Arguments.parse arguments = .ok a → σ₀.outcome (Command.settingsOf a) = (.ok s, σ) →
      ((Command.run arguments : StateM Session Nat).run σ₀).2.files = (σ.outcome s.run).2.files ∧
      (((Command.run arguments : StateM Session Nat).run σ₀).1 = 0 ↔ ∃ path, (σ.outcome s.run).1 = .ok path) ∧
      ∀ e, (σ.outcome s.run).1 = .error e →
        ((Command.run arguments : StateM Session Nat).run σ₀).1 = e.code ∧ 0 < e.code ∧ e.code < 256) := by
  refine ⟨fun e => files_of_error, fun path => delivered_of_ok, fun source hload => ⟨fun e => ?_, fun file => ?_⟩, ?_⟩
  · exact compile_eq_error_iff (schemaAt_of_load hload)
  · exact exists_ok (schemaAt_of_load hload)
  · intro arguments a σ₀ ha hs
    rw [Command.run_of_settings ha hs]
    rcases σ.outcome s.run with ⟨e | path, σ'⟩
    · obtain ⟨shown, hreport⟩ := Command.run_report s.debug e σ'
      dsimp only
      rw [hreport]
      refine ⟨rfl, ⟨fun h => absurd h e.code_pos.ne', fun ⟨path, h⟩ => by cases h⟩, fun e' h => ?_⟩
      obtain rfl : e = e' := Except.error.inj h
      exact ⟨rfl, e.code_pos, e.code_lt⟩
    · exact ⟨rfl, ⟨fun _ => ⟨path, rfl⟩, fun _ => rfl⟩, fun e h => by cases h⟩

namespace Session

def pairText : String := "struct A \x7b field map : u8 \x7d struct B \x7b field cursor [ 007 ] A \x7d exports B"

/-- A session with the pair of structs in a file and nothing else. -/
def ofPair : Session := { files := { nodes := [(["pair.sqy"], .file (Text.encode pairText))] } }

theorem lookup?_ofPair : ofPair.files.lookup? "pair.sqy" = some (.file (Text.encode pairText)) := by decide +kernel

theorem decode?_pairText : Text.decode? (Text.encode pairText) = some pairText := by decide +kernel

theorem schemaAt_ofPair : ofPair.files.schemaAt "pair.sqy" = .ok pairText :=
  FileTree.schemaAt_eq_ok_iff.2 ⟨by decide +kernel, _, lookup?_ofPair, decode?_pairText⟩

/-- One run that writes its module, and one that does not find the directory for it. -/
theorem pair_all_or_nothing :
    ((ofPair.outcome (Settings.run ⟨"pair.sqy", "./", false, 0⟩)).1 = .ok "./B.luau" ∧
      (ofPair.outcome (Settings.run ⟨"pair.sqy", "./", false, 0⟩)).2.files.lookup? "pair.sqy" =
        ofPair.files.lookup? "pair.sqy" ∧
      ((Command.run ["pair.sqy"] : StateM Session Nat).run ofPair).1 = 0) ∧
    (ofPair.outcome (Settings.run ⟨"pair.sqy", "out", false, 0⟩)).1 = .error (.outputNotDirectory "out") ∧
      ((Command.run ["pair.sqy", "-o", "out"] : StateM Session Nat).run ofPair).1 = 8 ∧
      ((Command.run ["pair.sqy", "-o", "out"] : StateM Session Nat).run ofPair).2.files = ofPair.files := by
  obtain ⟨tokens, schema, hscan, hparse, houtline⟩ := Schema.exists_accepted_pair
  have hsource : Schema.ofText pairText = .ok schema := bind_eq_ok_iff.2 ⟨tokens, hscan, hparse⟩
  have hexports : schema.exports = "B" := congrArg Outline.exports houtline
  have hname : Luau.fileName schema = "B.luau" := by
    rw [Luau.fileName, hexports]
    rfl
  have hcompiles (dir : String) := @Luau.compile_of_ofText { outputDir := dir } ofPair.clock schema pairText hsource
  have hload (threshold : Log.Level) : (ofPair.outcome (loadSchema threshold "pair.sqy")).1 = .ok pairText := by
    obtain ⟨shown, h⟩ := observes_loadSchema threshold "pair.sqy" ofPair
    rw [h]
    exact schemaAt_ofPair
  constructor
  · obtain ⟨-, hdelivered, hfailure, hstatus⟩ := Settings.run_all_or_nothing ⟨"pair.sqy", "./", false, 0⟩ ofPair
    obtain ⟨exported, -, hcompile⟩ := hcompiles "./"
    obtain ⟨path, hok⟩ := (hfailure _ (hload _)).2 _ hcompile (by decide +kernel)
      (by dsimp only; rw [hname]; decide +kernel) (by dsimp only; rw [hname]; decide +kernel)
    have hstatus := hstatus ["pair.sqy"] { input := some "pair.sqy" } ofPair (by decide +kernel) rfl
    have hdone := hdelivered path hok
    obtain ⟨bytes, source, schema', file, dir, hnode, hdecode, hsource', -, hfile, hpath, -⟩ := hdone.exists_module
    obtain rfl : Text.encode pairText = bytes := by simpa using lookup?_ofPair.symm.trans hnode
    obtain rfl : pairText = source := Option.some.inj (decode?_pairText.symm.trans hdecode)
    obtain rfl : schema = schema' := Except.ok.inj (hsource.symm.trans hsource')
    obtain rfl : path = "./B.luau" := by
      rw [hpath, hfile, hexports]
      decide +kernel
    exact ⟨hok, hdone.input, hstatus.2.1.2 ⟨_, hok⟩⟩
  · obtain ⟨hfailed, -, -, hstatus⟩ := Settings.run_all_or_nothing ⟨"pair.sqy", "out", false, 0⟩ ofPair
    obtain ⟨exported, -, hcompile⟩ := hcompiles "out"
    have heffect : Settings.effect ⟨"pair.sqy", "out", false, 0⟩ ofPair.files ofPair.clock =
        .error (.outputNotDirectory "out") := by
      have houtput : ofPair.files.lookup? "out" ≠ some .directory := by decide +kernel
      rw [Settings.effect_of_schemaAt schemaAt_ofPair, hcompile]
      dsimp only [bind, Except.bind, FileTree.deliver]
      rw [if_neg houtput]
    have hrun := (Settings.performs_run ⟨"pair.sqy", "out", false, 0⟩).result ofPair
    rw [heffect] at hrun
    have hstatus := hstatus ["pair.sqy", "-o", "out"] { input := some "pair.sqy", output := some "out" } ofPair
      (by decide +kernel) rfl
    exact ⟨hrun, (hstatus.2.2 _ hrun).1, hstatus.1.trans (hfailed _ hrun)⟩

end Session

end BufferSchema
