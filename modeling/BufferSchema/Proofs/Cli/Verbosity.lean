import BufferSchema.Duration
import BufferSchema.Proofs.Cli.Runs
import BufferSchema.Proofs.Luau.Dates

/-!
# What verbosity changes

The settings say how much a run tells. What it returns and what it writes does not depend on that, and a run that tells
less tells those events of a run that tells more which its threshold lets through, in the same order. The second is a
law about two runs side by side: `Quieter` relates two actions, and a run is related to another one step by step.
-/

namespace BufferSchema

open Session

/-! Events without the time that a run took. -/

/-- What stands in front of the time. -/
def Log.timeLabel : String := "compiled in "

/-- An event in which the time that a run took is masked, if it tells one. -/
def Log.Event.untimed (e : Event) : Event :=
  if timeLabel.toList <+: e.message.toList then
    { e with message := timeLabel ++ "?" ++ String.ofList (e.message.toList.dropWhile (· != ',')) }
  else e

theorem Log.Event.level_untimed (e : Event) : e.untimed.level = e.level := by
  unfold untimed
  split <;> rfl

/-- What time was told does not matter once it is masked. -/
theorem Log.Event.untimed_congr {time other : String} (h : ',' ∉ time.toList) (h' : ',' ∉ other.toList) (level : Level)
    (path : String) : untimed ⟨level, s!"compiled in {time}, output written to '{path}'"⟩ =
      untimed ⟨level, s!"compiled in {other}, output written to '{path}'"⟩ := by
  have hmasked : ∀ time : String, ',' ∉ time.toList →
      untimed ⟨level, s!"compiled in {time}, output written to '{path}'"⟩ =
        ⟨level, timeLabel ++ "?" ++ s!", output written to '{path}'"⟩ := by
    intro time h
    have hchars : (s!"compiled in {time}, output written to '{path}'").toList =
        timeLabel.toList ++ (time.toList ++ (s!", output written to '{path}'").toList) := by
      simp [toString, timeLabel]
    have hfree : ∀ cs : List Char, ',' ∉ cs → ∀ c ∈ cs, (c != ',') = true := by
      intro cs hcs c hc
      rw [bne_iff_ne]
      rintro rfl
      exact hcs hc
    have hlabel : ',' ∉ timeLabel.toList := by decide
    -- So the first comma of the message is the one behind the time.
    have hrest : (s!", output written to '{path}'").toList.dropWhile (· != ',') =
        (s!", output written to '{path}'").toList := by
      simp [toString]
    unfold untimed
    dsimp only
    rw [hchars, if_pos (List.prefix_append _ _), List.dropWhile_append_of_pos (hfree _ hlabel),
      List.dropWhile_append_of_pos (hfree _ h), hrest, String.ofList_toList]
  rw [hmasked time h, hmasked other h']

theorem Duration.comma_not_mem_text (nanoseconds : Nat) : ',' ∉ (text nanoseconds).toList := by
  have hdecimals : ∀ dividend divisor, ',' ∉ (withDecimals dividend divisor).toList := by
    intro dividend divisor
    have hnumber : ∀ n : Nat, ',' ∉ (toString n).toList :=
      fun n hmem => absurd (Text.isDigit_of_mem_toString n _ hmem) (by decide)
    have hpadded : ∀ width n : Nat, ',' ∉ (Timestamp.padded width n).toList :=
      fun width n hmem => absurd (Timestamp.isDigit_of_mem_padded width n _ hmem) (by decide)
    show ',' ∉ (toString _ ++ "." ++ Timestamp.padded _ _).toList
    rw [String.toList_append, String.toList_append, List.mem_append, List.mem_append, not_or, not_or]
    exact ⟨⟨hnumber _, by decide⟩, hpadded _ _⟩
  unfold text
  split
  · simp [hdecimals]
  · split
    · simp [hdecimals]
    · split <;> simp [hdecimals]

namespace Session

/-- The events shown so far, with times masked. -/
def told (σ : Session) : List Log.Event := σ.events.map Log.Event.untimed

/-- Two sessions that a run cannot tell apart but for the dates, which are equally long. What the first was told is
what a threshold lets through of what the second was told. -/
structure Alike (threshold : Log.Level) (F : FileTree → FileTree → Prop) (σ τ : Session) : Prop where
  files : F σ.files τ.files
  clock : σ.clock.text.utf8ByteSize = τ.clock.text.utf8ByteSize
  elapsed : ',' ∉ σ.elapsed.toList ∧ ',' ∉ τ.elapsed.toList
  told : σ.told = τ.told.filter fun e => threshold.shownAt e.level

variable {threshold : Log.Level} {F G : FileTree → FileTree → Prop} {σ τ : Session}

theorem Alike.mono (h : Alike threshold F σ τ) (hFG : ∀ t t', F t t' → G t t') : Alike threshold G σ τ :=
  { h with files := hFG _ _ h.files }

end Session

/-- Side by side, two actions end alike, and the first tells what the threshold lets through of what the second tells.
`F` relates the files before, and `G` those behind. -/
def Quieter {α β : Type} (threshold : Log.Level) (F G : FileTree → FileTree → Prop) (x : Action α) (y : Action β)
    (R : α → β → Prop) : Prop :=
  ∀ ⦃σ τ : Session⦄, Alike threshold F σ τ →
    EndsAlike R (σ.outcome x).1 (τ.outcome y).1 ∧ Alike threshold G (σ.outcome x).2 (τ.outcome y).2

section

variable {α β α' β' : Type} {threshold threshold' : Log.Level} {F G H : FileTree → FileTree → Prop} {x : Action α}
  {y : Action β} {R : α → β → Prop} {S : α' → β' → Prop}

theorem quieter_pure {a : α} {b : β} (h : R a b) : Quieter threshold F F (pure a) (pure b) R :=
  fun _ _ halike => ⟨.ok h, halike⟩

theorem quieter_throw (e : CompileError) : Quieter threshold F F (throw e) (throw e) R :=
  fun _ _ halike => ⟨.error e, halike⟩

theorem Quieter.weaken (h : Quieter threshold F G x y R) (hGH : ∀ t t', G t t' → H t t') :
    Quieter threshold F H x y R :=
  fun _ _ halike => ⟨(h halike).1, (h halike).2.mono hGH⟩

theorem Quieter.bind {f : α → Action α'} {g : β → Action β'} (hx : Quieter threshold F G x y R)
    (hGH : ∀ t t', G t t' → H t t') (hfg : ∀ a b, R a b → Quieter threshold G H (f a) (g b) S) :
    Quieter threshold F H (x >>= f) (y >>= g) S := by
  intro σ τ h
  obtain ⟨hends, hbehind⟩ := hx h
  rcases houtcome : σ.outcome x with ⟨r, σ'⟩
  rcases houtcome' : τ.outcome y with ⟨r', τ'⟩
  rw [houtcome, houtcome'] at hends hbehind
  dsimp only at hends hbehind
  cases hends with
  | error e =>
    rw [outcome_bind_of_error houtcome, outcome_bind_of_error houtcome']
    exact ⟨.error e, hbehind.mono hGH⟩
  | ok hab =>
    rw [outcome_bind_of_ok houtcome, outcome_bind_of_ok houtcome']
    exact hfg _ _ hab hbehind

/-- A request that changes nothing is answered alike where the answers are related. -/
theorem quieter_request (r : Session → α) (r' : Session → β) (hx : ∀ σ : Session, σ.outcome x = (.ok (r σ), σ))
    (hy : ∀ σ : Session, σ.outcome y = (.ok (r' σ), σ)) (h : ∀ σ τ, Alike threshold F σ τ → R (r σ) (r' τ)) :
    Quieter threshold F F x y R := by
  intro σ τ halike
  rw [hx, hy]
  exact ⟨.ok (h σ τ halike), halike⟩

theorem quieter_kindOf? (path : String) : Quieter threshold Eq Eq (Host.kindOf? (m := StateM Session) path)
    (Host.kindOf? (m := StateM Session) path) Eq := by
  refine quieter_request _ _ (fun σ => outcome_kindOf? σ path) (fun σ => outcome_kindOf? σ path) fun σ τ h => ?_
  rw [kindOf?, h.files, kindOf?]

theorem quieter_readFile (path : String) : Quieter threshold Eq Eq (Host.readFile (m := StateM Session) path)
    (Host.readFile (m := StateM Session) path) Eq := by
  refine quieter_request (fun σ => σ.readFile path) (fun σ => σ.readFile path) (fun _ => rfl) (fun _ => rfl)
    fun σ τ h => ?_
  rw [readFile, h.files, readFile]

theorem quieter_now :
    Quieter threshold F F (Host.now (m := StateM Session)) (Host.now (m := StateM Session))
      fun now now' => now.text.utf8ByteSize = now'.text.utf8ByteSize :=
  quieter_request Session.clock Session.clock (fun _ => rfl) (fun _ => rfl) fun _ _ h => h.clock

theorem quieter_elapsed :
    Quieter threshold F F (Host.elapsed (m := StateM Session)) (Host.elapsed (m := StateM Session))
      fun time time' => ',' ∉ time.toList ∧ ',' ∉ time'.toList :=
  quieter_request Session.elapsed Session.elapsed (fun _ => rfl) (fun _ => rfl) fun _ _ h => h.elapsed

variable {events events' : List Log.Event}

theorem told_show (σ : Session) (threshold : Log.Level) (events : List Log.Event) :
    (σ.outcome (showEvents threshold events)).2.told =
      σ.told ++ (events.map Log.Event.untimed).filter fun e => threshold.shownAt e.level := by
  have hevents : (σ.outcome (showEvents threshold events)).2.events =
      σ.events ++ events.filter fun e => threshold.shownAt e.level := by
    show List.filterMap _ (σ.shown ++ _) = _
    rw [List.filterMap_append, List.filterMap_map]
    exact congrArg _ List.filterMap_some
  have hlevel : (fun e : Log.Event => threshold.shownAt e.level) ∘ Log.Event.untimed =
      fun e => threshold.shownAt e.level := by
    funext e
    rw [Function.comp_apply, e.level_untimed]
  rw [told, hevents, List.map_append, List.filter_map, hlevel]
  rfl

/-- A threshold that lets through less can be put behind one that lets through more. -/
theorem filter_shownAt (h : threshold.rank ≤ threshold'.rank) (events : List Log.Event) :
    ((events.filter fun e => threshold'.shownAt e.level).filter fun e => threshold.shownAt e.level) =
      events.filter fun e => threshold.shownAt e.level := by
  rw [List.filter_filter]
  refine List.filter_congr fun e _ => ?_
  cases hshown : threshold.shownAt e.level with
  | false => rfl
  | true => rw [Log.Level.shownAt_mono h hshown, Bool.and_true]

theorem quieter_showEvents (h : threshold.rank ≤ threshold'.rank)
    (hevents : events.map Log.Event.untimed = events'.map Log.Event.untimed) :
    Quieter threshold F F (showEvents threshold events) (showEvents threshold' events') Eq := by
  intro σ τ halike
  refine ⟨.ok rfl, { halike with told := ?_ }⟩
  rw [told_show, told_show, List.filter_append, filter_shownAt h, hevents, halike.told]

theorem quieter_showLogged {x : Logged α} {y : Logged β} (h : threshold.rank ≤ threshold'.rank)
    (hevents : x.events = y.events) (hresult : EndsAlike R x.result y.result) :
    Quieter threshold F F (showLogged threshold x) (showLogged threshold' y) R := by
  refine (quieter_showEvents h (congrArg _ hevents)).bind (fun _ _ => id) fun _ _ _ => ?_
  exact fun _ _ halike => ⟨hresult, halike⟩

/-- The second action may first show what the threshold does not let through. -/
theorem Quieter.behind_show (h : Quieter threshold F G x y R) (threshold' : Log.Level)
    (hquiet : ∀ e ∈ events, threshold.shownAt e.level = false) :
    Quieter threshold F G x (showEvents threshold' events >>= fun _ => y) R := by
  intro σ τ halike
  have hnone : ((events.map Log.Event.untimed).filter fun e => threshold'.shownAt e.level).filter
      (fun e => threshold.shownAt e.level) = [] := by
    rw [List.filter_eq_nil_iff]
    intro masked hmasked
    obtain ⟨e, he, rfl⟩ := List.mem_map.1 (List.mem_filter.1 hmasked).1
    rw [e.level_untimed, hquiet e he]
    exact Bool.false_ne_true
  obtain ⟨shown, hshow⟩ := observes_showEvents threshold' events τ
  have htold := told_show τ threshold' events
  rw [outcome_bind_of_ok hshow]
  rw [hshow] at htold
  refine h { halike with told := ?_ }
  rw [htold, List.filter_append, hnone, List.append_nil, halike.told]

/-- The second action may show events where the first shows none, if the threshold would not let them through. -/
theorem Quieter.showing {shows shows' : Prop} [Decidable shows] [Decidable shows'] (hxy : Quieter threshold F G x y R)
    (hFG : ∀ t t', F t t' → G t t') (h : threshold.rank ≤ threshold'.rank) (hshows : shows → shows')
    (hquiet : ¬ shows → shows' → ∀ e ∈ events, threshold.shownAt e.level = false) :
    Quieter threshold F G (if shows then showEvents threshold events >>= fun _ => x else x)
      (if shows' then showEvents threshold' events >>= fun _ => y else y) R := by
  by_cases hfirst : shows
  · rw [if_pos hfirst, if_pos (hshows hfirst)]
    exact (quieter_showEvents h rfl).bind hFG fun _ _ _ => hxy
  · rw [if_neg hfirst]
    split
    · next hsecond => exact hxy.behind_show _ (hquiet hfirst hsecond)
    · exact hxy

theorem quieter_loadSchema (h : threshold.rank ≤ threshold'.rank) (path : String) :
    Quieter threshold Eq Eq (loadSchema threshold path) (loadSchema threshold' path) Eq := by
  unfold loadSchema
  refine (quieter_kindOf? path).bind (fun _ _ => id) ?_
  rintro kind? _ rfl
  cases kind? with
  | none => exact quieter_throw _
  | some kind =>
    cases kind with
    | directory => exact quieter_throw _
    | file =>
      dsimp only
      split
      · exact (quieter_throw (R := fun _ _ => False) _).bind (fun _ _ => id) fun _ _ => False.elim
      · refine (quieter_showEvents h rfl).bind (fun _ _ => id) fun _ _ _ => ?_
        refine (quieter_readFile path).bind (fun _ _ => id) ?_
        rintro read _ rfl
        cases read with
        | error detail => exact quieter_throw _
        | ok bytes =>
          dsimp only
          cases Text.decode? bytes with
          | none => exact quieter_throw _
          | some text => exact quieter_pure rfl

/-- Where a file can be written does not depend on what is written. -/
theorem FileTree.exists_write?_eq_map (t : FileTree) (path : String) : ∃ place? : Option (List String),
    ∀ bytes, t.write? path bytes = place?.map fun place => t.set place (.file bytes) := by
  cases hplace : t.resolve? path with
  | none => exact ⟨none, fun bytes => by rw [write?, hplace]; rfl⟩
  | some place =>
    cases hdir : t.isDirectory place with
    | true => exact ⟨none, fun bytes => by simp [write?, hplace, hdir]⟩
    | false => exact ⟨some place, fun bytes => by simp [write?, hplace, hdir]⟩

theorem quieter_writeFile (path content content' : String) :
    Quieter threshold Eq (fun _ _ => True) (Host.writeFile (m := StateM Session) path content)
      (Host.writeFile (m := StateM Session) path content') Eq := by
  intro σ τ halike
  obtain ⟨place?, hplace⟩ := σ.files.exists_write?_eq_map path
  have hwrite := hplace (Text.encode content)
  have hwrite' := hplace (Text.encode content')
  rw [halike.files] at hwrite'
  cases place? with
  | none =>
    rw [outcome_writeFile_of_none hwrite, outcome_writeFile_of_none hwrite']
    exact ⟨.ok rfl, { halike with files := trivial }⟩
  | some place =>
    rw [outcome_writeFile_of_some hwrite, outcome_writeFile_of_some hwrite']
    exact ⟨.ok rfl, { halike with files := trivial }⟩

theorem quieter_writeOutput (h : threshold.rank ≤ threshold'.rank) (dir name content content' : String) :
    Quieter threshold Eq (fun _ _ => True) (writeOutput threshold dir name content)
      (writeOutput threshold' dir name content') Eq := by
  unfold writeOutput
  refine (quieter_kindOf? dir).bind (fun _ _ _ => trivial) ?_
  rintro kind? _ rfl
  cases kind? with
  | none => exact (quieter_throw _).weaken fun _ _ _ => trivial
  | some kind =>
    cases kind with
    | file => exact (quieter_throw _).weaken fun _ _ _ => trivial
    | directory =>
      dsimp only
      refine (quieter_kindOf? (Path.join dir name)).bind (fun _ _ _ => trivial) ?_
      rintro there _ rfl
      refine Quieter.showing ?_ (fun _ _ _ => trivial) h id fun hnot hthere => absurd hthere hnot
      refine (quieter_writeFile _ content content').bind (fun _ _ => id) ?_
      rintro written _ rfl
      cases written with
      | error detail => exact quieter_throw _
      | ok done => exact quieter_pure rfl

namespace Settings

variable {s s' : Settings}

/-- The first settings are for the same run as the second, and for telling a part of what it tells. -/
structure NoLouder (s s' : Settings) : Prop where
  input : s.input = s'.input
  output : s.output = s'.output
  threshold : s.logLevel.rank ≤ s'.logLevel.rank
  debug : s.debug = true → s'.debug = true
  listing : s.debug ≠ true → s'.debug = true → s.logLevel.shownAt .debug = false

theorem quieter_run (h : NoLouder s s') : Quieter s.logLevel Eq (fun _ _ => True) s.run s'.run Eq := by
  unfold run
  rw [h.input, h.output]
  refine (quieter_showEvents h.threshold rfl).bind (fun _ _ _ => trivial) fun _ _ _ => ?_
  refine (quieter_loadSchema h.threshold _).bind (fun _ _ _ => trivial) ?_
  rintro source _ rfl
  refine (quieter_showLogged h.threshold rfl (EndsAlike.refl _)).bind (fun _ _ _ => trivial) ?_
  rintro tokens _ rfl
  -- Only here the second run may take a step that the first does not take.
  refine Quieter.showing ?_ (fun _ _ _ => trivial) h.threshold h.debug ?quiet
  case quiet =>
    intro hfirst hsecond e he
    obtain ⟨token, -, rfl⟩ := List.mem_map.1 he
    exact h.listing hfirst hsecond
  refine (quieter_showLogged h.threshold rfl (EndsAlike.refl _)).bind (fun _ _ _ => trivial) ?_
  rintro schema _ rfl
  refine quieter_now.bind (fun _ _ _ => trivial) fun date date' hdate => ?_
  refine (quieter_showLogged h.threshold (Luau.events_generate hdate)
    (Luau.generate_undated _ date date' schema)).bind (fun _ _ _ => trivial) fun file file' hfile => ?_
  rw [hfile.name]
  -- From here on the files differ, and nothing looks at them any more.
  refine (quieter_writeOutput h.threshold _ _ _ _).bind (fun _ _ => id) ?_
  rintro path _ rfl
  refine quieter_elapsed.bind (fun _ _ => id) fun time time' htime => ?_
  refine (quieter_showEvents h.threshold ?_).bind (fun _ _ => id) fun _ _ _ => quieter_pure rfl
  rw [List.map_singleton, List.map_singleton, Log.Event.untimed_congr htime.1 htime.2]

end Settings

end

/-! Files without the dates that stand in them. -/

/-- What stands at a place, with the dates in its text masked. -/
def FileTree.Node.undated : Node → Node
  | .directory => .directory
  | .file bytes => .file (((Text.decode? bytes).map fun text => Text.encode (Text.undated text)).getD bytes)

/-- The tree with the dates in all its texts masked. -/
def FileTree.undated (t : FileTree) : FileTree := { t with nodes := t.nodes.map fun e => (e.1, e.2.undated) }

/-- Two paths written and the trees behind that, which differ in dates at most. -/
structure FileTree.SameUndated (a b : String × FileTree) : Prop where
  path : a.1 = b.1
  files : a.2.undated = b.2.undated

theorem FileTree.undated_set (t : FileTree) (place : List String) (node : Node) :
    (t.set place node).undated = t.undated.set place node.undated := by
  rw [undated, set, List.map_cons, undated, set]
  simp only [List.filter_map]
  rfl

theorem FileTree.deliver_undated (t : FileTree) (dir name : String) {content content' : String}
    (h : Text.undated content = Text.undated content') :
    EndsAlike SameUndated (t.deliver dir name content) (t.deliver dir name content') := by
  have hnode : Node.undated (.file (Text.encode content)) = Node.undated (.file (Text.encode content')) := by
    simp only [Node.undated, Text.decode?_encode, Option.map_some, Option.getD_some, h]
  unfold deliver put
  split
  · obtain ⟨place?, hplace⟩ := t.exists_write?_eq_map (Path.join dir name)
    rw [hplace, hplace]
    cases place? with
    | none => exact .error _
    | some place =>
      refine .ok ⟨rfl, ?_⟩
      dsimp only
      rw [undated_set, undated_set, hnode]
  · exact .error _

theorem EndsAlike.behind_undated {t : FileTree} {x y : Except CompileError (String × FileTree)}
    (h : EndsAlike FileTree.SameUndated x y) :
    x.map Prod.fst = y.map Prod.fst ∧ (t.behind x).undated = (t.behind y).undated := by
  cases h with
  | error e => exact ⟨rfl, rfl⟩
  | ok h => exact ⟨congrArg Except.ok h.path, h.files⟩

namespace Settings

/-- What a run returns and does to the files is a matter of the paths only. -/
theorem effect_congr {s s' : Settings} (hinput : s.input = s'.input) (houtput : s.output = s'.output) :
    s.effect = s'.effect := by
  funext t now
  rw [effect, effect, hinput, houtput]

theorem effect_undated (s : Settings) (t : FileTree) (now now' : Timestamp) :
    EndsAlike FileTree.SameUndated (s.effect t now) (s.effect t now') := by
  refine (EndsAlike.refl (t.schemaAt s.input)).bind ?_
  rintro source _ rfl
  refine (Luau.compile_undated _ now now' source).bind fun file file' hfile => ?_
  rw [hfile.name]
  exact t.deliver_undated _ _ hfile.content

/-- Two runs for the same paths, on the same files. -/
theorem run_same_outcome (s s' : Settings) (hinput : s.input = s'.input) (houtput : s.output = s'.output)
    {σ τ : Session} (h : σ.files = τ.files) :
    (σ.outcome s.run).1 = (τ.outcome s'.run).1 ∧
      (σ.outcome s.run).2.files.undated = (τ.outcome s'.run).2.files.undated ∧
      (σ.clock = τ.clock → (σ.outcome s.run).2.files = (τ.outcome s'.run).2.files) := by
  have hrun := s.performs_run
  have hrun' := s'.performs_run
  rw [← effect_congr hinput houtput] at hrun'
  rw [hrun.result, hrun'.result, hrun.files, hrun'.files, h]
  obtain ⟨hresult, hfiles⟩ := (s.effect_undated τ.files σ.clock τ.clock).behind_undated (t := τ.files)
  exact ⟨hresult, hfiles, fun hclock => hclock ▸ rfl⟩

end Settings

/-- When a run happens, how long it takes, and whether colours are shown. -/
structure Occasion where
  now : Timestamp
  nanoseconds : Nat
  colour : Bool

/-- The session at an occasion, with nothing shown yet. -/
def Session.on (σ : Session) (o : Occasion) : Session :=
  { σ with clock := o.now, elapsed := Duration.text o.nanoseconds, colour := o.colour, shown := [] }

theorem Session.alike_on (σ : Session) (threshold : Log.Level) {o o' : Occasion}
    (h : o.now.text.utf8ByteSize = o'.now.text.utf8ByteSize) : Alike threshold Eq (σ.on o) (σ.on o') where
  files := rfl
  clock := h
  elapsed := ⟨Duration.comma_not_mem_text _, Duration.comma_not_mem_text _⟩
  told := rfl

/-- **Verbosity does not change the outcome and only adds events.** However much is to be told, a run returns the same
and leaves the same files, up to the date in the module. With the time masked, the events of a run without debugging
are those with debugging up to the level of information, in their order, and these are those of a verbose run up to the
level of debugging. The size of the module is told, so the dates of the two runs must be equally long. -/
theorem Settings.run_verbosity (input output : String) (σ : Session) :
    let ends (debug : Bool) (verbose : Nat) (o : Occasion) := (σ.on o).outcome (run ⟨input, output, debug, verbose⟩)
    (∀ debug debug' verbose verbose' o o',
      (ends debug verbose o).1 = (ends debug' verbose' o').1 ∧
      (ends debug verbose o).2.files.undated = (ends debug' verbose' o').2.files.undated ∧
      (o.now = o'.now → (ends debug verbose o).2.files = (ends debug' verbose' o').2.files)) ∧
    ∀ o o', o.now.text.utf8ByteSize = o'.now.text.utf8ByteSize →
      ((ends false 0 o).2.told.Sublist (ends true 0 o').2.told ∧
        (ends false 0 o).2.told = (ends true 0 o').2.told.filter fun e => Log.Level.info.shownAt e.level) ∧
      ∀ verbose, 1 ≤ verbose →
        (ends true 0 o).2.told.Sublist (ends true verbose o').2.told ∧
        (ends true 0 o).2.told = (ends true verbose o').2.told.filter fun e => Log.Level.debug.shownAt e.level := by
  intro ends
  constructor
  · intro debug debug' verbose verbose' o o'
    have hfiles : (σ.on o).files = (σ.on o').files := rfl
    exact run_same_outcome ⟨input, output, debug, verbose⟩ ⟨input, output, debug', verbose'⟩ rfl rfl hfiles
  · intro o o' hdate
    have hdebug : NoLouder ⟨input, output, false, 0⟩ ⟨input, output, true, 0⟩ :=
      { input := rfl, output := rfl, threshold := Nat.le_succ 2, debug := fun _ => rfl, listing := fun _ _ => rfl }
    have hpart : ∀ {es fs : List Log.Event} {threshold : Log.Level},
        es = (fs.filter fun e => threshold.shownAt e.level) →
          es.Sublist fs ∧ es = fs.filter fun e => threshold.shownAt e.level :=
      fun h => ⟨h ▸ List.filter_sublist, h⟩
    refine ⟨hpart (quieter_run hdebug (σ.alike_on _ hdate)).2.told, fun verbose hverbose => ?_⟩
    have hlevel : logLevel ⟨input, output, true, verbose⟩ = .trace := if_pos hverbose
    have hverbose : NoLouder ⟨input, output, true, 0⟩ ⟨input, output, true, verbose⟩ :=
      { input := rfl, output := rfl, threshold := hlevel ▸ Nat.le_succ 3, debug := id,
        listing := fun hfirst => absurd rfl hfirst }
    exact hpart (quieter_run hverbose (σ.alike_on _ hdate)).2.told

/-- One schema, compiled without any verbosity and years later with much of it. -/
theorem Session.pair_run_verbosity :
    let early : Occasion := ⟨⟨2025, 3, 14, 9, 26, 53⟩, 1500, false⟩
    let late : Occasion := ⟨⟨2031, 12, 1, 0, 0, 7⟩, 2300000000, true⟩
    let run (debug : Bool) (verbose : Nat) (o : Occasion) :=
      (ofPair.on o).outcome (Settings.run ⟨"pair.sqy", "./", debug, verbose⟩)
    (run false 0 early).1 = (run true 2 late).1 ∧
    (run false 0 early).2.files.undated = (run true 2 late).2.files.undated ∧
    early.now.text.utf8ByteSize = late.now.text.utf8ByteSize ∧
    (run false 0 early).2.told.Sublist (run true 0 late).2.told ∧
    (run true 0 early).2.told.Sublist (run true 2 late).2.told := by
  intro early late run
  have hsize : early.now.text.utf8ByteSize = late.now.text.utf8ByteSize := by
    rw [Timestamp.utf8ByteSize_text (t := early.now) (by decide) (by decide) (by decide),
      Timestamp.utf8ByteSize_text (t := late.now) (by decide) (by decide) (by decide)]
  obtain ⟨hsame, htold⟩ := Settings.run_verbosity "pair.sqy" "./" ofPair
  obtain ⟨hresult, hfiles, -⟩ := hsame false true 0 2 early late
  obtain ⟨hdebug, hverbose⟩ := htold early late hsize
  exact ⟨hresult, hfiles, hsize, hdebug.1, (hverbose 2 (by decide)).1⟩

end BufferSchema
