import BufferSchema.Proofs.Luau.Bytes
import BufferSchema.Proofs.Schema.Reading

/-!
# What is written is read back

Over a sound runtime, the helpers that are generated for the structs of an accepted schema give back every
record that they write: each field is read with the codec that wrote it, at the cursor where it was written,
into a variable that nothing else uses.
-/

namespace BufferSchema.Luau.Runtime

variable {Buffer Cell Value : Type} {R : Runtime Buffer Cell Value} {K : Kinds Value}
  {P : String → Value → Prop} {h h' : Helpers Buffer Value} {b b' : Buffer} {c c' : Nat} {v : Value}
  {steps : List Step} {t : Struct}

/-! Fields one behind the other. -/

/-- Whatever the fields hold, writing them moves forward and changes nothing in front. -/
theorem keeps_writeFields (hkeeps : ∀ s ∈ steps, R.Keeps (R.codecWriter h s.codec))
    (hwrite : R.writeFields h v steps b c = some (b', c')) : c ≤ c' ∧ R.Agree c b b' := by
  induction steps generalizing b c with
  | nil =>
    obtain ⟨rfl, rfl⟩ := Prod.mk.inj (Option.some.inj hwrite)
    exact ⟨Nat.le_refl c, .refl c b⟩
  | cons s steps ih =>
    simp only [writeFields, bind, Option.bind_eq_some_iff] at hwrite
    obtain ⟨x, -, ⟨b₁, c₁⟩, hfirst, hrest⟩ := hwrite
    obtain ⟨hle, hagree⟩ := hkeeps s List.mem_cons_self _ _ _ _ _ hfirst
    obtain ⟨hle', hagree'⟩ := ih (fun t ht => hkeeps t (List.mem_cons_of_mem s ht)) hrest
    exact ⟨by omega, hagree.trans (hagree'.mono hle)⟩

/-- Fields are read from where they were written: none of the later ones reaches back into an earlier one. -/
theorem readFields_of_writeFields {values : List Value}
    (hcarry : ∀ s ∈ steps, R.Carries (K.codec P s.codec) (R.codecWriter h s.codec) (R.codecReader h s.codec))
    (hvalues : List.Forall₂ (fun s x => R.entry? v s.field = some x ∧ K.codec P s.codec x) steps values)
    (hwrite : R.writeFields h v steps b c = some (b', c')) (b'' : Buffer) (hlater : R.Agree c' b' b'') :
    R.readFields h b'' steps c = some (c', values) := by
  induction hvalues generalizing b c with
  | nil =>
    obtain ⟨-, rfl⟩ := Prod.mk.inj (Option.some.inj hwrite)
    rfl
  | @cons s x steps values hx _ ih =>
    have hcarry' := fun t ht => hcarry t (List.mem_cons_of_mem s ht)
    obtain ⟨hentry, hkind⟩ := hx
    simp only [writeFields, hentry, bind, Option.bind_some, Option.bind_eq_some_iff] at hwrite
    obtain ⟨⟨b₁, c₁⟩, hfirst, hrest⟩ := hwrite
    obtain ⟨hle, hagree⟩ := keeps_writeFields (fun t ht => (hcarry' t ht).keeps) hrest
    have hread := (hcarry s List.mem_cons_self).inverts b c x b₁ c₁ hkind hfirst b''
      (hagree.trans (hlater.mono hle))
    simp only [readFields, hread, ih hcarry' hrest, bind, Option.bind_some]

theorem accepts_writeFields {values : List Value}
    (haccepts : ∀ s ∈ steps, Accepts (K.codec P s.codec) (R.codecWriter h s.codec))
    (hvalues : List.Forall₂ (fun s x => R.entry? v s.field = some x ∧ K.codec P s.codec x) steps values)
    (b : Buffer) (c : Nat) : ∃ b' c', R.writeFields h v steps b c = some (b', c') := by
  induction hvalues generalizing b c with
  | nil => exact ⟨b, c, rfl⟩
  | @cons s x steps values hx _ ih =>
    obtain ⟨hentry, hkind⟩ := hx
    obtain ⟨b₁, c₁, hfirst⟩ := haccepts s List.mem_cons_self b c x hkind
    obtain ⟨b', c', hrest⟩ := ih (fun t ht => haccepts t (List.mem_cons_of_mem s ht)) b₁ c₁
    refine ⟨b', c', ?_⟩
    simp only [writeFields, hentry, hfirst, bind, Option.bind_some]
    exact hrest

/-! Records of one struct. -/

theorem mem_zip_of_forall₂ {r : Field → Value → Prop} {fs : List Field} {values : List Value}
    (hvalues : List.Forall₂ r fs values) {entries : List (String × Value)}
    (hsub : (fs.map (·.name)).zip values ⊆ entries) :
    List.Forall₂ (fun f x => (f.name, x) ∈ entries ∧ r f x) fs values := by
  induction hvalues with
  | nil => exact .nil
  | cons hx _ ih =>
    exact .cons ⟨hsub List.mem_cons_self, hx⟩ (ih fun e he => hsub (List.mem_cons_of_mem _ he))

/-- What a body finds in a record is what the record was made of. -/
theorem values_of_isRecord (hnodup : (t.fields.map (·.name)).Nodup) (hv : R.IsRecord K P t v) :
    ∃ values, v = R.record ((t.fields.map (·.name)).zip values) ∧
      List.Forall₂ (fun s x => R.entry? v s.field = some x ∧ K.codec P s.codec x) (Body.ofStruct t).steps
        values := by
  obtain ⟨values, hvalues, rfl⟩ := hv
  refine ⟨values, rfl, ?_⟩
  have hmem := mem_zip_of_forall₂ hvalues (List.Subset.refl _)
  have hkeys : ((t.fields.map (·.name)).zip values).map Prod.fst = t.fields.map (·.name) :=
    List.map_fst_zip (by simp [hvalues.length_eq])
  generalize (t.fields.map (·.name)).zip values = entries at hmem hkeys
  refine Body.forall₂_ofStruct
    (r := fun name codec x => R.entry? (R.record entries) name = some x ∧ K.codec P codec x) ?_
  exact hmem.imp fun f x hx => ⟨R.entry?_record entries (by rwa [hkeys]) _ hx.1, hx.2⟩

theorem carries_struct (hR : R.Sound K) (hnodup : (t.fields.map (·.name)).Nodup)
    (hhelpers : ∀ s ∈ (Body.ofStruct t).steps, ∀ name, s.codec.structName? = some name →
      R.Carries (P name) (h.write name) (h.read name)) :
    R.Carries (R.IsRecord K P t) (R.structWriter h t) (R.structReader h t) := by
  have hcarry := fun s hs => carries_codec (R := R) hR (hhelpers s hs)
  constructor
  · intro b c v b' c' hwrite
    exact keeps_writeFields (fun s hs => (hcarry s hs).keeps) hwrite
  · intro b c v b' c' hv hwrite b'' hlater
    obtain ⟨values, hrecord, hvalues⟩ := values_of_isRecord hnodup hv
    rw [structReader, readFields_of_writeFields hcarry hvalues hwrite b'' hlater, hrecord]
    rfl

theorem accepts_struct (hR : R.Complete K) (hnodup : (t.fields.map (·.name)).Nodup)
    (hhelpers : ∀ s ∈ (Body.ofStruct t).steps, ∀ name, s.codec.structName? = some name →
      Accepts (P name) (h.write name)) :
    Accepts (R.IsRecord K P t) (R.structWriter h t) := by
  intro b c v hv
  obtain ⟨values, -, hvalues⟩ := values_of_isRecord hnodup hv
  exact accepts_writeFields (fun s hs => accepts_codec hR (hhelpers s hs)) hvalues b c

/-! A struct needs no helpers but those of the structs that its fields are made of. -/

theorem codecWriter_congr {codec : Codec}
    (hsame : ∀ name, codec.structName? = some name → h.write name = h'.write name) :
    R.codecWriter h codec = R.codecWriter h' codec := by
  have helement : ∀ e : Element, (∀ name, e.structName? = some name → h.write name = h'.write name) →
      R.elementWriter h e = R.elementWriter h' e := by
    intro e hsame
    cases e with
    | builtin b => rfl
    | struct name => exact hsame name rfl
  cases codec with
  | single e => exact helement e hsame
  | bits count => rfl
  | dynamicBits => rfl
  | array e count | dynamicArray e | map e | shortMap e => simp only [codecWriter, helement e hsame]

theorem codecReader_congr {codec : Codec}
    (hsame : ∀ name, codec.structName? = some name → h.read name = h'.read name) :
    R.codecReader h codec = R.codecReader h' codec := by
  have helement : ∀ e : Element, (∀ name, e.structName? = some name → h.read name = h'.read name) →
      R.elementReader h e = R.elementReader h' e := by
    intro e hsame
    cases e with
    | builtin b => rfl
    | struct name => exact hsame name rfl
  cases codec with
  | single e => exact helement e hsame
  | bits count => rfl
  | dynamicBits => rfl
  | array e count | dynamicArray e | map e | shortMap e => simp only [codecReader, helement e hsame]

theorem structWriter_congr
    (hsame : ∀ s ∈ (Body.ofStruct t).steps, ∀ name, s.codec.structName? = some name →
      h.write name = h'.write name) :
    R.structWriter h t = R.structWriter h' t := by
  funext b c v
  unfold structWriter
  generalize (Body.ofStruct t).steps = steps at hsame
  induction steps generalizing b c with
  | nil => rfl
  | cons s steps ih =>
    have hrest := fun b c => ih b c fun t ht => hsame t (List.mem_cons_of_mem s ht)
    simp only [writeFields, codecWriter_congr (R := R) (hsame s List.mem_cons_self), hrest]

theorem structReader_congr
    (hsame : ∀ s ∈ (Body.ofStruct t).steps, ∀ name, s.codec.structName? = some name →
      h.read name = h'.read name) :
    R.structReader h t = R.structReader h' t := by
  have hfields : ∀ (b : Buffer) (c : Nat), R.readFields h b (Body.ofStruct t).steps c =
      R.readFields h' b (Body.ofStruct t).steps c := by
    intro b c
    generalize (Body.ofStruct t).steps = steps at hsame
    induction steps generalizing c with
    | nil => rfl
    | cons s steps ih =>
      have hrest := fun c => ih c fun t ht => hsame t (List.mem_cons_of_mem s ht)
      simp only [readFields, codecReader_congr (R := R) (hsame s List.mem_cons_self), hrest]
  funext b c
  rw [structReader, hfields, structReader]

/-! The helpers of a schema. -/

variable {s : Schema} {name : String}

/-- The structs whose helpers a body needs are those that its struct refers to. -/
theorem mem_targets_of_step (hs : s.WellFormed) (ht : s.structs.find? name = some t) {step : Step}
    (hstep : step ∈ (Body.ofStruct t).steps) {target : String} (htarget : step.codec.structName? = some target) :
    target ∈ s.targets name := by
  rw [Schema.targets_of_find? ht]
  exact ((hs.indexed _ (Table.find?_eq_some_iff.1 ht)).2 target).2
    (Body.exists_field_of_structName? hstep htarget)

/-- A helper writes and reads the fields of its struct with helpers that may call one level less deep. -/
theorem helpers_succ (hs : s.WellFormed) (ht : s.structs.find? name = some t) (n : Nat) :
    (R.helpers s (n + 1)).write name = R.structWriter (R.helpers s n) t ∧
      (R.helpers s (n + 1)).read name = R.structReader (R.helpers s n) t := by
  have hname := hs.buildable name (Table.mem_of_find?_eq_some ht)
  have hclosed : Closed s.structs.keys (Body.ofStruct t).steps :=
    fun step hstep target htarget => (hname.target (mem_targets_of_step hs ht hstep htarget)).mem
  constructor
  · rw [← bodyWriter_ofStruct hclosed]
    funext b c v
    simp only [helpers, ht, bind, Option.bind_some]
  · rw [← bodyReader_ofStruct hclosed (hs.fields_nodup name t ht)]
    funext b c
    simp only [helpers, ht, bind, Option.bind_some]

theorem exists_depth {q : Nat → String → Prop} {names : List String}
    (h : ∀ name ∈ names, ∃ depth, ∀ n, depth ≤ n → q n name) :
    ∃ depth, ∀ n, depth ≤ n → ∀ name ∈ names, q n name := by
  induction names with
  | nil => exact ⟨0, by simp⟩
  | cons name names ih =>
    obtain ⟨d, hd⟩ := h name List.mem_cons_self
    obtain ⟨e, he⟩ := ih fun other hother => h other (List.mem_cons_of_mem name hother)
    refine ⟨max d e, fun n hn other hother => ?_⟩
    rcases List.mem_cons.1 hother with rfl | hother
    · exact hd n (by omega)
    · exact he n (by omega) other hother

/-- What passes from the structs that a struct refers to on to the struct holds of every struct that can be
built, at every depth that is great enough. -/
theorem exists_depth_of_buildable {q : Nat → String → Prop}
    (hq : ∀ n name t, s.structs.find? name = some t → (∀ target ∈ s.targets name, q n target) → q (n + 1) name)
    (hname : s.Buildable name) : ∃ depth, ∀ n, depth ≤ n → q n name := by
  induction hname with
  | @intro name hmem _ ih =>
    obtain ⟨t, ht⟩ := Table.exists_find?_of_mem hmem
    obtain ⟨depth, hdepth⟩ := exists_depth ih
    refine ⟨depth + 1, fun n hn => ?_⟩
    obtain ⟨m, rfl⟩ : ∃ m, n = m + 1 := ⟨n - 1, by omega⟩
    exact hq m name t ht (hdepth m (by omega))

/-- At this depth the helper of a struct has all the depth that it needs, and it carries the records of the
struct. -/
structure Settled (R : Runtime Buffer Cell Value) (K : Kinds Value) (P : String → Value → Prop) (s : Schema)
    (depth : Nat) (name : String) : Prop where
  write_eq : ∀ n, depth ≤ n → (R.helpers s n).write name = (R.helpers s depth).write name
  read_eq : ∀ n, depth ≤ n → (R.helpers s n).read name = (R.helpers s depth).read name
  carries : R.Carries (P name) ((R.helpers s depth).write name) ((R.helpers s depth).read name)
  accepts : R.Complete K → Accepts (P name) ((R.helpers s depth).write name)

theorem settled_succ (hs : s.WellFormed) (hR : R.Sound K) (hP : R.Records K s P) {depth : Nat}
    (ht : s.structs.find? name = some t) (htargets : ∀ target ∈ s.targets name, R.Settled K P s depth target) :
    R.Settled K P s (depth + 1) name := by
  have hsteps : ∀ step ∈ (Body.ofStruct t).steps, ∀ target, step.codec.structName? = some target →
      R.Settled K P s depth target :=
    fun step hstep target htarget => htargets target (mem_targets_of_step hs ht hstep htarget)
  have hnodup := hs.fields_nodup name t ht
  obtain ⟨hwrite, hread⟩ := helpers_succ (R := R) hs ht depth
  refine ⟨fun n hn => ?_, fun n hn => ?_, ?_, fun hcomplete => ?_⟩
  · obtain ⟨m, rfl⟩ : ∃ m, n = m + 1 := ⟨n - 1, by omega⟩
    rw [hwrite, (helpers_succ hs ht m).1]
    exact structWriter_congr fun step hstep target htarget =>
      (hsteps step hstep target htarget).write_eq m (by omega)
  · obtain ⟨m, rfl⟩ : ∃ m, n = m + 1 := ⟨n - 1, by omega⟩
    rw [hread, (helpers_succ hs ht m).2]
    exact structReader_congr fun step hstep target htarget =>
      (hsteps step hstep target htarget).read_eq m (by omega)
  · rw [hwrite, hread]
    have hcarries := carries_struct (P := P) hR hnodup
      fun step hstep target htarget => (hsteps step hstep target htarget).carries
    exact ⟨hcarries.keeps, fun b c v b' c' hv => hcarries.inverts b c v b' c' (hP name t ht v hv)⟩
  · rw [hwrite]
    have haccepts := accepts_struct (P := P) hcomplete hnodup
      fun step hstep target htarget => (hsteps step hstep target htarget).accepts hcomplete
    exact fun b c v hv => haccepts b c v (hP name t ht v hv)

/-- The helpers that are generated for the structs of an accepted schema give back every record that they
have written, whatever is written later behind it, and they write every record if the runtime writes all it is
meant for. They call each other to a fixed depth only. Their bodies are the generated lines. -/
theorem helpers_carry_records {tokens : TokenStream} (hparse : (Schema.parse tokens).result = .ok s)
    (hR : R.Sound K) (hP : R.Records K s P) :
    ∃ depth, ∀ name t, s.structs.find? name = some t →
      (Body.ofStruct t).writes.map Statement.text = (Body.ofStruct t).writing ∧
      (Body.ofStruct t).reads.map Statement.text = (Body.ofStruct t).reading ∧
      (Body.ofStruct t).result.text = (Body.ofStruct t).record ∧ R.Settled K P s depth name := by
  have hs := Schema.wellFormed_of_parse hparse
  have hdepths : ∀ name ∈ s.structs.keys, ∃ depth, ∀ n, depth ≤ n → R.Settled K P s n name :=
    fun name hname => exists_depth_of_buildable
      (fun _ _ _ ht htargets => settled_succ hs hR hP ht htargets) (hs.buildable name hname)
  obtain ⟨depth, hdepth⟩ := exists_depth hdepths
  exact ⟨depth, fun name t ht => ⟨(Body.ofStruct t).text_writes, (Body.ofStruct t).text_reads,
    (Body.ofStruct t).text_result, hdepth depth (Nat.le_refl depth) name (Table.mem_of_find?_eq_some ht)⟩⟩

end BufferSchema.Luau.Runtime

namespace BufferSchema.Luau

/-- The records of two structs: one byte in the first, seven of the first in the second. -/
inductive PairRecord : String → Plain → Prop where
  | a {n : Nat} (hn : n < 256) : PairRecord "A" (.record [("map", .number n)])
  | b {items : List Plain} (hlength : items.length = 7) (hitems : ∀ x ∈ items, PairRecord "A" x) :
      PairRecord "B" (.record [("cursor", .list items)])

theorem records_pair {s : Schema} (hs : s.Indexed) (houtline : s.outline = Schema.pairOutline) :
    bytes.Records byteKinds s PairRecord := by
  intro name t ht v hv
  have hmem := Table.find?_eq_some_iff.1 ht
  have hname : name = t.name := (hs _ hmem).1
  have hdeclaration : t.declaration ∈ Schema.pairOutline.structs := by
    rw [← houtline]
    exact List.mem_map_of_mem (List.mem_map_of_mem (f := Prod.snd) hmem)
  simp only [Schema.pairOutline, Struct.declaration, List.mem_cons, Declaration.mk.injEq, List.not_mem_nil,
    or_false, ← hname] at hdeclaration
  cases hv with
  | @a n hn =>
    obtain ⟨-, hfields⟩ : _ ∧ t.fields = _ := hdeclaration.resolve_right (by simp)
    refine ⟨[.number n], ?_, ?_⟩
    · rw [hfields]
      exact .cons ⟨rfl, n, hn, rfl⟩ .nil
    · rw [hfields]
      rfl
  | @b items hlength hitems =>
    obtain ⟨-, hfields⟩ : _ ∧ t.fields = _ := hdeclaration.resolve_left (by simp)
    refine ⟨[.list items], ?_, ?_⟩
    · rw [hfields]
      exact .cons ⟨items, hlength, hitems, rfl⟩ .nil
    · rw [hfields]
      rfl

/-- Seven times the record of the byte 3. -/
def sevenThrees : Plain := .record [("cursor", .list (List.replicate 7 (.record [("map", .number 3)])))]

theorem pairRecord_sevenThrees : PairRecord "B" sevenThrees := by
  apply PairRecord.b (by simp)
  intro x hx
  rw [List.eq_of_mem_replicate hx]
  exact .a (by decide)

theorem pair_helpers_carry_records :
    ∃ tokens s depth b' c', (TokenStream.scan
        "struct A \x7b field map : u8 \x7d struct B \x7b field cursor [ 007 ] A \x7d exports B").result =
      .ok tokens ∧ (Schema.parse tokens).result = .ok s ∧
      (bytes.helpers s depth).write "B" (fun _ => 0) 4 sevenThrees = some (b', c') ∧
      (bytes.helpers s depth).read "B" b' 4 = some (c', sevenThrees) := by
  have hlaid : Lexeme.LaidOut Schema.pairWords (Lexeme.spaced Schema.pairWords) := Lexeme.laidOut_spaced _ _
  obtain ⟨⟨ts⟩, hscan, hwords⟩ := TokenStream.scan_laidOut .nil hlaid
    (Schema.spelling_pair.isKnownWord Schema.valid_pair) (Schema.spelling_pair.keyword_of_head? Schema.valid_pair)
  obtain ⟨hparse, houtline, hkeys⟩ := Schema.parse_of_classified Schema.valid_pair
    (hwords ▸ Schema.spelling_pair) (TokenStream.classified_of_scan hscan)
  have hrecords := records_pair (Schema.wellFormed_of_parse hparse).indexed houtline
  have hmem : "B" ∈ (Schema.ofOutline Schema.pairOutline (Schema.Parser.places ts)).structs := by
    rw [Table.mem_iff, hkeys]
    decide
  obtain ⟨t, ht⟩ := Table.exists_find?_of_mem hmem
  obtain ⟨depth, hdepth⟩ := Runtime.helpers_carry_records hparse bytes_sound hrecords
  obtain ⟨-, -, -, hsettled⟩ := hdepth "B" t ht
  obtain ⟨b', c', hwrite⟩ := hsettled.accepts bytes_complete (fun _ => 0) 4 sevenThrees pairRecord_sevenThrees
  have hread := hsettled.carries.inverts _ _ _ b' c' pairRecord_sevenThrees hwrite b' (.refl c' b')
  have htext : String.ofList ([] ++ Lexeme.spaced Schema.pairWords) =
      "struct A \x7b field map : u8 \x7d struct B \x7b field cursor [ 007 ] A \x7d exports B" := by decide
  exact ⟨⟨ts⟩, _, depth, b', c', htext ▸ hscan, hparse, hwrite, hread⟩

end BufferSchema.Luau
