import BufferSchema.Proofs.Luau.Scope

/-!
# Running one statement

The function that a statement calls is the codec of its field, once it is told the function of the elements
and their number. So a statement of a step does what the codec does: one that writes moves the cursor, one that
reads puts the value into the variable of the field as well.
-/

namespace BufferSchema

namespace Luau.Runtime

variable {Buffer Cell Value : Type} (R : Runtime Buffer Cell Value) (h : Helpers Buffer Value)

/-- The function of the runtime called `name`. -/
def runtimeDatum (name : String) : Direction → Datum Buffer Value
  | .write => .writer (R.write ("write_" ++ name))
  | .read => .reader (R.read ("read_" ++ name))

/-- The function of one element. -/
def elementDatum : Element → Direction → Datum Buffer Value
  | .builtin b, d => R.runtimeDatum b.name d
  | .struct name, .write => .writer fun _ => h.write name
  | .struct name, .read => .reader fun _ => h.read name

/-- The function of a codec. -/
def codecDatum : Codec → Direction → Datum Buffer Value
  | .single element, d => R.elementDatum h element d
  | .array .., d => R.runtimeDatum "array" d
  | .dynamicArray _, d => R.runtimeDatum "dynamicArray" d
  | .bits _, d => R.runtimeDatum "boolArray" d
  | .dynamicBits, d => R.runtimeDatum "dynamicBoolArray" d
  | .map _, d => R.runtimeDatum "map" d
  | .shortMap _, d => R.runtimeDatum "smap" d

/-- What the function of a codec is told beside the buffer, the cursor and the value. -/
def codecExtras : Codec → Direction → List (Datum Buffer Value)
  | .single _, _ | .dynamicBits, _ => []
  | .array element count, d => [R.elementDatum h element d, .number count]
  | .bits count, _ => [.number count]
  | .dynamicArray element, d | .map element, d | .shortMap element, d => [R.elementDatum h element d]

end Luau.Runtime

/-- The struct whose helper a codec needs. -/
def Codec.structName? : Codec → Option String
  | .single e | .array e _ | .dynamicArray e | .map e | .shortMap e => e.structName?
  | .bits _ | .dynamicBits => none

theorem TypeRef.structName?_codec {t : TypeRef} {name : String} (ht : t.codec.structName? = some name) :
    t.element.structName? = some name := by
  unfold TypeRef.codec at ht
  split at ht
  · exact ht
  · cases ht
  · exact ht
  · cases ht
  · exact ht
  · exact ht
  · exact ht

namespace Luau

variable {Buffer Cell Value : Type} {R : Runtime Buffer Cell Value} {h : Helpers Buffer Value}
  {names : List String} {c : Nat} {env : Env Buffer Value}

namespace Frame

theorem eval_runtime (hframe : Frame h names c env) (d : Direction) (name : String) :
    R.eval env (d.runtimeMember name) = some (R.runtimeDatum name d) := by
  have hmodule : env d.runtime = some (.module d) := by
    rw [hframe.outer d.runtime (by cases d <;> decide) (by cases d <;> decide)]
    exact Helpers.env_runtime d
  cases d with
  | write =>
    simp only [Direction.runtimeMember, Runtime.eval, hmodule]
    rfl
  | read =>
    simp only [Direction.runtimeMember, Runtime.eval, hmodule]
    rfl

theorem eval_element (hframe : Frame h names c env) (d : Direction) {e : Element}
    (hmem : ∀ name, e.structName? = some name → name ∈ names) :
    R.eval env (d.elementExpression e) = some (R.elementDatum h e d) := by
  cases e with
  | builtin b => exact hframe.eval_runtime d b.name
  | struct name =>
    have hown : d.helper name ∉ ["buff", "cursor", "input"] := by
      intro hbad
      apply helper_ne_own d name
      simp only [List.mem_cons, List.not_mem_nil, or_false] at hbad
      rcases hbad with hbad | hbad | hbad <;> rw [hbad] <;> decide
    have houter := hframe.outer (d.helper name) (isTaken_helper d name) hown
    cases d with
    | write => exact houter.trans (Helpers.env_write (hmem name rfl))
    | read => exact houter.trans (Helpers.env_read (hmem name rfl))

theorem eval_codec (hframe : Frame h names c env) (d : Direction) {codec : Codec}
    (hmem : ∀ name, codec.structName? = some name → name ∈ names) :
    R.eval env (codec.expression d) = some (R.codecDatum h codec d) := by
  cases codec with
  | single e => exact hframe.eval_element d hmem
  | _ => exact hframe.eval_runtime d _

theorem eval_extras (hframe : Frame h names c env) (d : Direction) {codec : Codec}
    (hmem : ∀ name, codec.structName? = some name → name ∈ names) :
    (codec.extras d).mapM (R.eval env) = some (R.codecExtras h codec d) := by
  cases codec with
  | single e => rfl
  | bits count => rfl
  | dynamicBits => rfl
  | array e count =>
    have helement := hframe.eval_element (R := R) d (e := e) hmem
    have hnumber : R.eval env (.number count) = some (.number count) := rfl
    simp [Codec.extras, Runtime.codecExtras, helement, hnumber]
  | dynamicArray e | map e | shortMap e =>
    have helement := hframe.eval_element (R := R) d (e := e) hmem
    simp [Codec.extras, Runtime.codecExtras, helement]

end Frame

/-! What the statements of a step do. -/

namespace Runtime

variable (R h)

def elementWriter : Element → Writer Buffer Value
  | .builtin b => R.write ("write_" ++ b.name) []
  | .struct name => h.write name

def elementReader : Element → Reader Buffer Value
  | .builtin b => R.read ("read_" ++ b.name) []
  | .struct name => h.read name

/-- How a codec puts a value into a buffer. -/
def codecWriter : Codec → Writer Buffer Value
  | .single e => R.elementWriter h e
  | .array e count => R.write "write_array" [.writer (R.elementWriter h e), .number count]
  | .dynamicArray e => R.write "write_dynamicArray" [.writer (R.elementWriter h e)]
  | .bits count => R.write "write_boolArray" [.number count]
  | .dynamicBits => R.write "write_dynamicBoolArray" []
  | .map e => R.write "write_map" [.writer (R.elementWriter h e)]
  | .shortMap e => R.write "write_smap" [.writer (R.elementWriter h e)]

/-- How a codec takes a value out of a buffer. -/
def codecReader : Codec → Reader Buffer Value
  | .single e => R.elementReader h e
  | .array e count => R.read "read_array" [.reader (R.elementReader h e), .number count]
  | .dynamicArray e => R.read "read_dynamicArray" [.reader (R.elementReader h e)]
  | .bits count => R.read "read_boolArray" [.number count]
  | .dynamicBits => R.read "read_dynamicBoolArray" []
  | .map e => R.read "read_map" [.reader (R.elementReader h e)]
  | .shortMap e => R.read "read_smap" [.reader (R.elementReader h e)]

variable {R h}

theorem extra?_elementDatum_write (e : Element) :
    (R.elementDatum h e .write).extra? = some (.writer (R.elementWriter h e)) := by
  cases e <;> rfl

theorem extra?_elementDatum_read (e : Element) :
    (R.elementDatum h e .read).extra? = some (.reader (R.elementReader h e)) := by
  cases e <;> rfl

theorem mapM_extra?_codecExtras_write (codec : Codec) :
    ∃ es, (R.codecExtras h codec .write).mapM Datum.extra? = some es ∧
      ∃ w, R.codecDatum h codec .write = .writer w ∧ w es = R.codecWriter h codec := by
  have hnumber : ∀ n, Datum.extra? (.number n : Datum Buffer Value) = some (.number n) := fun _ => rfl
  cases codec with
  | single e => cases e <;> exact ⟨[], rfl, _, rfl, rfl⟩
  | bits count => exact ⟨_, by simp [codecExtras, hnumber], _, rfl, rfl⟩
  | dynamicBits => exact ⟨[], rfl, _, rfl, rfl⟩
  | array e count => exact ⟨_, by simp [codecExtras, extra?_elementDatum_write, hnumber], _, rfl, rfl⟩
  | dynamicArray e | map e | shortMap e =>
    exact ⟨_, by simp [codecExtras, extra?_elementDatum_write], _, rfl, rfl⟩

theorem mapM_extra?_codecExtras_read (codec : Codec) :
    ∃ es, (R.codecExtras h codec .read).mapM Datum.extra? = some es ∧
      ∃ r, R.codecDatum h codec .read = .reader r ∧ r es = R.codecReader h codec := by
  have hnumber : ∀ n, Datum.extra? (.number n : Datum Buffer Value) = some (.number n) := fun _ => rfl
  cases codec with
  | single e => cases e <;> exact ⟨[], rfl, _, rfl, rfl⟩
  | bits count => exact ⟨_, by simp [codecExtras, hnumber], _, rfl, rfl⟩
  | dynamicBits => exact ⟨[], rfl, _, rfl, rfl⟩
  | array e count => exact ⟨_, by simp [codecExtras, extra?_elementDatum_read, hnumber], _, rfl, rfl⟩
  | dynamicArray e | map e | shortMap e =>
    exact ⟨_, by simp [codecExtras, extra?_elementDatum_read], _, rfl, rfl⟩

/-- Calling the function of a codec, with all that it is told, writes with the codec. -/
theorem call_codec_write (codec : Codec) (b : Buffer) (c : Nat) (x : Value) :
    (R.codecDatum h codec .write).call b (.buffer :: .number c :: .value x :: R.codecExtras h codec .write) =
      (R.codecWriter h codec b c x).map fun r => ([.number r.2], r.1) := by
  obtain ⟨es, hes, w, hdatum, hw⟩ := mapM_extra?_codecExtras_write (R := R) (h := h) codec
  rw [hdatum, ← hw]
  simp only [Datum.call, hes, bind, Option.bind]
  cases w es b c x <;> rfl

/-- Calling the function of a codec, with all that it is told, reads with the codec. -/
theorem call_codec_read (codec : Codec) (b : Buffer) (c : Nat) :
    (R.codecDatum h codec .read).call b (.buffer :: .number c :: R.codecExtras h codec .read) =
      (R.codecReader h codec b c).map fun r => ([.number r.1, .value r.2], b) := by
  obtain ⟨es, hes, r, hdatum, hr⟩ := mapM_extra?_codecExtras_read (R := R) (h := h) codec
  rw [hdatum, ← hr]
  simp only [Datum.call, hes, bind, Option.bind]
  cases r es b c <;> rfl

theorem exec_write {b : Buffer} {s : Step} {v : Value} (hframe : Frame h names c env)
    (hmem : ∀ name, s.codec.structName? = some name → name ∈ names) (hinput : env "input" = some (.value v)) :
    R.exec b env s.write = (R.entry? v s.field).bind fun x =>
      (R.codecWriter h s.codec b c x).map fun r => (Function.update env "cursor" (some (.number r.2)), r.1) := by
  have hentry : R.eval env (.member "input" s.field) = (R.entry? v s.field).map .value := by
    simp only [eval, hinput]
  have hbuff : R.eval env (.var "buff") = some .buffer := hframe.buff
  have hcursor : R.eval env (.var "cursor") = some (.number c) := hframe.cursor
  simp only [exec, Step.write, hframe.eval_codec .write hmem, List.mapM_cons, hbuff, hcursor, hentry,
    hframe.eval_extras .write hmem]
  cases R.entry? v s.field with
  | none => rfl
  | some x =>
    have hcall := call_codec_write (R := R) (h := h) s.codec b c x
    simp only [bind, Option.bind, Option.map, pure] at hcall ⊢
    rw [hcall]
    cases R.codecWriter h s.codec b c x <;> rfl

theorem exec_read {b : Buffer} {s : Step} (hframe : Frame h names c env)
    (hmem : ∀ name, s.codec.structName? = some name → name ∈ names) :
    R.exec b env s.read = (R.codecReader h s.codec b c).map fun r =>
      (Function.update (Function.update env "cursor" (some (.number r.1))) s.target (some (.value r.2)), b) := by
  have hbuff : R.eval env (.var "buff") = some .buffer := hframe.buff
  have hcursor : R.eval env (.var "cursor") = some (.number c) := hframe.cursor
  have hcall := call_codec_read (R := R) (h := h) s.codec b c
  simp only [exec, Step.read, hframe.eval_codec .read hmem, List.mapM_cons, hbuff, hcursor,
    hframe.eval_extras .read hmem]
  simp only [bind, Option.bind, Option.map, pure] at hcall ⊢
  rw [hcall]
  cases R.codecReader h s.codec b c <;> rfl

end Runtime

end Luau

end BufferSchema
