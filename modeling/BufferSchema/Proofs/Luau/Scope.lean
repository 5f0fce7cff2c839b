import BufferSchema.Proofs.Luau.Semantics
import BufferSchema.Proofs.Luau.Variables

/-!
# The names in a body

The runtime modules and the helpers of structs have names of their own, and no two helpers share one. In a
body, `buff` and `cursor` hold the buffer and a cursor, and these names mean what they mean outside. This
lasts when the cursor moves and when the variables of fields are filled.
-/

namespace BufferSchema

theorem Direction.helper_eq (d : Direction) (name : String) : d.helper name = d.verb ++ "_" ++ name := by
  simp [helper, toString]

/-- No two structs share a helper. -/
theorem Direction.helper_injective (d : Direction) {m n : String} (h : d.helper m = d.helper n) : m = n := by
  rw [helper_eq, helper_eq] at h
  exact (String.append_right_inj _).1 h

theorem Direction.write_helper_ne_read_helper (m n : String) : write.helper m ≠ read.helper n := by
  intro h
  rw [helper_eq, helper_eq] at h
  have hhead := congrArg (fun name => name.toList.head?) h
  simp [verb] at hhead

namespace Luau

/-- Names that start like a helper are kept from variables. -/
theorem isTaken_helper (d : Direction) (name : String) : isTaken (d.helper name) = true := by
  have hprefix : ∀ cs : List Char, (d.verb ++ "_").toList.isPrefixOf ((d.verb ++ "_").toList ++ cs) = true :=
    fun cs => List.isPrefixOf_iff_prefix.2 (List.prefix_append _ _)
  rw [d.helper_eq, isTaken, String.toList_append]
  cases d with
  | write =>
    have hwrite : "write_".toList.isPrefixOf _ = true := hprefix name.toList
    rw [hwrite, Bool.or_true]
  | read =>
    have hread : "read_".toList.isPrefixOf _ = true := hprefix name.toList
    rw [hread, Bool.or_true, Bool.true_or]

/-- No helper is called as one of the variables of the generated code. -/
theorem helper_ne_own (d : Direction) (name : String) : d.helper name ∉ ownVariables := by
  intro hmem
  have hunderscore : '_' ∈ (d.helper name).toList := by
    rw [d.helper_eq, String.toList_append, String.toList_append]
    simp
  simp only [ownVariables, List.mem_cons, List.not_mem_nil, or_false] at hmem
  rcases hmem with h | h | h | h | h | h | h <;> rw [h] at hunderscore <;> exact absurd hunderscore (by decide)

theorem helper_ne_runtime (d e : Direction) (name : String) : d.helper name ≠ e.runtime := by
  intro h
  have hown : e.runtime ∈ ownVariables := by cases e <;> decide
  exact helper_ne_own d name (h ▸ hown)

theorem ne_cursor_of_free {name : String} (hfree : isTaken name = false) : name ≠ "cursor" := by
  rintro rfl
  exact absurd hfree (by decide)

variable {Buffer Value : Type} {h : Helpers Buffer Value} {names : List String}

namespace Helpers

theorem env_runtime (d : Direction) : h.env names d.runtime = some (.module d) := by
  cases d <;> rfl

/-- A helper leads back to its struct. -/
theorem find?_helper (d : Direction) {name : String} (hmem : name ∈ names) :
    names.find? (fun n => d.helper n == d.helper name) = some name := by
  cases hfind : names.find? (fun n => d.helper n == d.helper name) with
  | none => simpa using List.find?_eq_none.1 hfind name hmem
  | some n =>
    have hsame := List.find?_some hfind
    rw [d.helper_injective (beq_iff_eq.1 hsame)]

theorem env_write {name : String} (hmem : name ∈ names) :
    h.env names (Direction.write.helper name) = some (.writer fun _ => h.write name) := by
  unfold env
  rw [if_neg (helper_ne_runtime _ _ _), if_neg (helper_ne_runtime _ _ _), find?_helper .write hmem]

/-- Outside the bodies, the name of a helper for reading holds just that, though those for writing are looked for
first. -/
theorem env_read {name : String} (hmem : name ∈ names) :
    h.env names (Direction.read.helper name) = some (.reader fun _ => h.read name) := by
  have hnone : names.find? (fun n => Direction.write.helper n == Direction.read.helper name) = none := by
    rw [List.find?_eq_none]
    intro n _ heq
    exact Direction.write_helper_ne_read_helper n name (beq_iff_eq.1 heq)
  unfold env
  rw [if_neg (helper_ne_runtime _ _ _), if_neg (helper_ne_runtime _ _ _), hnone, find?_helper .read hmem]
  rfl

end Helpers

/-- In the variables of a body, the buffer and the cursor are where the statements look for them, and the
names of the generated code have kept their meaning. -/
structure Frame (h : Helpers Buffer Value) (names : List String) (c : Nat) (env : Env Buffer Value) : Prop where
  buff : env "buff" = some .buffer
  cursor : env "cursor" = some (.number c)
  outer : ∀ name, isTaken name = true → name ∉ ["buff", "cursor", "input"] → env name = h.env names name

namespace Frame

variable {c d : Nat} {env : Env Buffer Value}

/-- Moving the cursor leaves the rest of the frame alone. -/
theorem update_cursor (hframe : Frame h names c env) :
    Frame h names d (Function.update env "cursor" (some (.number d))) := by
  refine ⟨?_, Function.update_self .., fun name htaken hname => ?_⟩
  · rw [Function.update_of_ne (by decide)]
    exact hframe.buff
  · rw [Function.update_of_ne fun heq => hname (by simp [heq])]
    exact hframe.outer name htaken hname

/-- A variable that is not the generated code's own can hold anything. -/
theorem update_free (hframe : Frame h names c env) {name : String} (hfree : isTaken name = false)
    (x : Option (Datum Buffer Value)) : Frame h names c (Function.update env name x) := by
  have hne : ∀ {other : String}, isTaken other = true → other ≠ name := by
    rintro other htaken rfl
    simp [hfree] at htaken
  refine ⟨?_, ?_, fun other htaken hother => ?_⟩
  · rw [Function.update_of_ne (hne (by decide))]
    exact hframe.buff
  · rw [Function.update_of_ne (hne (by decide))]
    exact hframe.cursor
  · rw [Function.update_of_ne (hne htaken)]
    exact hframe.outer other htaken hother

theorem assign (hframe : Frame h names c env) {vars : List String} (hfree : ∀ v ∈ vars, isTaken v = false)
    (ds : List (Datum Buffer Value)) : Frame h names c (env.assign vars ds) := by
  induction vars generalizing env ds with
  | nil => exact hframe
  | cons v vars ih =>
    cases ds with
    | nil => exact hframe
    | cons x ds =>
      exact ih (hframe.update_free (hfree v List.mem_cons_self) (some x))
        (fun w hw => hfree w (List.mem_cons_of_mem v hw)) ds

/-- A helper for writing starts in a frame, with the value besides. -/
theorem of_write (c : Nat) (v : Value) :
    Frame h names c ((h.env names).assign ["buff", "cursor", "input"] [.buffer, .number c, .value v]) := by
  refine ⟨rfl, rfl, fun name _ hname => ?_⟩
  simp only [List.mem_cons, List.not_mem_nil, or_false, not_or] at hname
  simp only [Env.assign]
  rw [Function.update_of_ne hname.2.2, Function.update_of_ne hname.2.1, Function.update_of_ne hname.1]

theorem of_read (c : Nat) : Frame h names c ((h.env names).assign ["buff", "cursor"] [.buffer, .number c]) := by
  refine ⟨rfl, rfl, fun name _ hname => ?_⟩
  simp only [List.mem_cons, List.not_mem_nil, or_false, not_or] at hname
  simp only [Env.assign]
  rw [Function.update_of_ne hname.2.1, Function.update_of_ne hname.1]

theorem declare (hframe : Frame h names c env) {vars : List String} (hfree : ∀ v ∈ vars, isTaken v = false) :
    Frame h names c (vars.foldl (fun env name => Function.update env name none) env) := by
  induction vars generalizing env with
  | nil => exact hframe
  | cons v vars ih =>
    exact ih (hframe.update_free (hfree v List.mem_cons_self) none)
      fun w hw => hfree w (List.mem_cons_of_mem v hw)

end Frame

end Luau

end BufferSchema
