import BufferSchema.Proofs.Lexeme.Grammar
import BufferSchema.Proofs.Luau.Chunks
import BufferSchema.Proofs.Luau.Functions

/-!
# The calls for a field

A field is written by one call and read by another, and an entry of the record that is built and a line of the type
declaration belong to it as well. The two calls say the same about the layout of the field in a buffer: one is the
other with the functions of writing turned into those of reading. What they say is also all there is to know of the
field's type, as two types with the same call are the same.
-/

namespace BufferSchema

open Text (IsIdentifier)
open Lexeme (takeWhile_append_of_stop)

namespace Luau

/-- A call in the text of a module. -/
def callText (function : String) (arguments : List String) : String :=
  function ++ "(" ++ ", ".intercalate arguments ++ ")"

/-! A call is known by its text. -/

/-- Texts that go on alike up to a character which neither of them has. -/
theorem append_inj_of_stop {x : Char} {as bs xs ys : List Char} (has : ∀ c ∈ as, (c != x) = true)
    (hbs : ∀ c ∈ bs, (c != x) = true) (hxs : ∀ c, xs.head? = some c → c = x) (hys : ∀ c, ys.head? = some c → c = x)
    (h : as ++ xs = bs ++ ys) : as = bs ∧ xs = ys := by
  have hstop {zs : List Char} (hzs : ∀ c, zs.head? = some c → c = x) :
      ∀ c, zs.head? = some c → (c != x) = false := by
    intro c hc
    simp [hzs c hc]
  have htake := congrArg (List.takeWhile (· != x)) h
  rw [takeWhile_append_of_stop has (hstop hxs), takeWhile_append_of_stop hbs (hstop hys)] at htake
  refine ⟨htake, ?_⟩
  rw [htake] at h
  exact List.append_cancel_left h

/-- The arguments behind the first ones of a call. -/
def further (arguments : List String) : String := String.join (arguments.map (", " ++ ·))

theorem toList_further_cons (a : String) (as : List String) :
    (further (a :: as)).toList = ',' :: ' ' :: (a.toList ++ (further as).toList) := by
  simp [further]

theorem head?_further (as : List String) : ∀ c, (further as).toList.head? = some c → c = ',' := by
  intro c hc
  cases as with
  | nil => simp [further] at hc
  | cons a as =>
    rw [toList_further_cons, List.head?_cons, Option.some.injEq] at hc
    exact hc.symm

theorem further_injective {as bs : List String} (has : ∀ a ∈ as, IsPath a) (hbs : ∀ b ∈ bs, IsPath b)
    (h : further as = further bs) : as = bs := by
  induction as generalizing bs with
  | nil =>
    cases bs with
    | nil => rfl
    | cons b bs =>
      have hchars := congrArg String.toList h
      rw [toList_further_cons] at hchars
      cases hchars
  | cons a as ih =>
    cases bs with
    | nil =>
      have hchars := congrArg String.toList h
      rw [toList_further_cons] at hchars
      cases hchars
    | cons b bs =>
      have hchars := congrArg String.toList h
      rw [toList_further_cons, toList_further_cons] at hchars
      have ha := (has a List.mem_cons_self).bne (x := ',') (by decide) (by decide)
      have hb := (hbs b List.mem_cons_self).bne (x := ',') (by decide) (by decide)
      obtain ⟨hab, hrest⟩ := append_inj_of_stop ha hb (head?_further as) (head?_further bs)
        (List.cons.inj (List.cons.inj hchars).2).2
      rw [String.toList_inj.1 hab, ih (fun c hc => has c (List.mem_cons_of_mem a hc))
        (fun c hc => hbs c (List.mem_cons_of_mem b hc)) (String.toList_inj.1 hrest)]

/-- A call is known by its text, where the first arguments are known. -/
theorem callText_injective {function function' : String} {front as bs : List String} (hfront : front ≠ [])
    (hfunction : IsPath function) (hfunction' : IsPath function') (has : ∀ a ∈ as, IsPath a) (hbs : ∀ b ∈ bs, IsPath b)
    (h : callText function (front ++ as) = callText function' (front ++ bs)) : function = function' ∧ as = bs := by
  have hchars := congrArg String.toList h
  simp only [callText, String.toList_append, List.append_assoc] at hchars
  obtain ⟨hcalled, hrest⟩ := append_inj_of_stop (hfunction.bne (x := '(') (by decide) (by decide))
    (hfunction'.bne (x := '(') (by decide) (by decide)) (by simp) (by simp) hchars
  refine ⟨String.toList_inj.1 hcalled, further_injective has hbs ?_⟩
  have harguments : ", ".intercalate (front ++ as) = ", ".intercalate (front ++ bs) :=
    String.toList_inj.1 (List.append_cancel_right (List.append_cancel_left hrest))
  have hjoined := congrArg (", " ++ ·) harguments
  simp only [Text.append_intercalate (List.append_ne_nil_of_left_ne_nil hfront _), List.map_append,
    String.join_append] at hjoined
  exact (String.append_right_inj _).1 hjoined

/-! The calls of a field. -/

/-- The call that writes a field of the record `input`. -/
def writeCall (f : Field) : String :=
  callText (f.type.codec.function .write) (["buff", "cursor", "input." ++ f.name] ++ f.type.codec.arguments .write)

/-- The call that reads a value of a type. -/
def readCall (t : TypeRef) : String :=
  callText (t.codec.function .read) (["buff", "cursor"] ++ t.codec.arguments .read)

/-- The text with `new` in place of `old` in front of it. -/
def replaceFront? (old new text : String) : Option String :=
  if old.toList.isPrefixOf text.toList then some (new ++ String.ofList (text.toList.drop old.toList.length)) else none

theorem replaceFront?_append (old new rest : String) : replaceFront? old new (old ++ rest) = some (new ++ rest) := by
  have hfront : old.toList.isPrefixOf (old ++ rest).toList = true := by
    rw [String.toList_append]
    exact List.isPrefixOf_iff_prefix.2 (List.prefix_append _ _)
  rw [replaceFront?, if_pos hfront, String.toList_append, List.drop_left, String.ofList_toList]

theorem replaceFront?_eq_none {old new text : String} (h : ¬ old.toList <+: text.toList) :
    replaceFront? old new text = none :=
  if_neg fun hfront => h (List.isPrefixOf_iff_prefix.1 hfront)

/-- A function that writes, turned into the one that reads; any other text as it is. -/
def mirrored (text : String) : String :=
  (replaceFront? "writer.write_" "reader.read_" text <|> replaceFront? "write_" "read_" text).getD text

theorem mirrored_runtimeFunction (name : String) :
    mirrored (Direction.write.runtimeFunction name) = Direction.read.runtimeFunction name := by
  have hwrite : Direction.write.runtimeFunction name = "writer.write_" ++ name :=
    Direction.write.runtimeFunction_eq name
  rw [hwrite, mirrored, replaceFront?_append]
  exact (Direction.read.runtimeFunction_eq name).symm

theorem mirrored_helper (name : String) : mirrored (Direction.write.helper name) = Direction.read.helper name := by
  have hwrite : Direction.write.helper name = "write_" ++ name := Direction.write.helper_eq name
  have hruntime : ¬ "writer.write_".toList <+: ("write_" ++ name).toList := by simp [List.cons_prefix_cons]
  rw [hwrite, mirrored, replaceFront?_eq_none hruntime, replaceFront?_append]
  exact (Direction.read.helper_eq name).symm

theorem mirrored_elementFunction (e : Element) :
    mirrored (Direction.write.elementFunction e) = Direction.read.elementFunction e := by
  cases e with
  | builtin b => exact mirrored_runtimeFunction b.name
  | struct name => exact mirrored_helper name

theorem mirrored_toString (n : Nat) : mirrored (toString n) = toString n := by
  -- digits start with no letter
  have hdigits {old : String} (hw : 'w' ∈ old.toList) : ¬ old.toList <+: (toString n).toList := fun h =>
    absurd (Text.isDigit_of_mem_toString n 'w' (h.subset hw)) (by decide)
  rw [mirrored, replaceFront?_eq_none (hdigits (by decide)), replaceFront?_eq_none (hdigits (by decide))]
  rfl

theorem mirrored_function (c : Codec) : mirrored (c.function .write) = c.function .read := by
  cases c with
  | single e => exact mirrored_elementFunction e
  | _ => exact mirrored_runtimeFunction _

theorem map_mirrored_arguments (c : Codec) : (c.arguments .write).map mirrored = c.arguments .read := by
  have hcount (n : Nat) : mirrored n.repr = n.repr := mirrored_toString n
  cases c <;> simp [Codec.arguments, mirrored_elementFunction, hcount]

/-- The reading call is the writing call, turned, without the value. -/
theorem readCall_eq (t : TypeRef) :
    readCall t = callText (mirrored (t.codec.function .write))
      (["buff", "cursor"] ++ (t.codec.arguments .write).map mirrored) := by
  rw [mirrored_function, map_mirrored_arguments, readCall]

theorem writeStatement_eq (f : Field) (v : String) :
    Step.writeStatement ⟨f.name, v, f.type.codec⟩ = "cursor = " ++ writeCall f := by
  simp [Step.writeStatement, writeCall, callText, toString, String.append_assoc]

theorem readStatement_eq (f : Field) (v : String) :
    Step.readStatement ⟨f.name, v, f.type.codec⟩ = "cursor, " ++ v ++ " = " ++ readCall f.type := by
  simp [Step.readStatement, readCall, callText, toString, String.append_assoc]

/-- Types with the same call are the same. -/
theorem eq_of_callText (d : Direction) {front : List String} (hfront : front ≠ []) {t t' : TypeRef}
    (ht : IsPath t.element.name) (ht' : IsPath t'.element.name)
    (h : callText (t.codec.function d) (front ++ t.codec.arguments d) =
      callText (t'.codec.function d) (front ++ t'.codec.arguments d)) : t = t' := by
  obtain ⟨hfunction, harguments⟩ := isPath_codec d ht
  obtain ⟨hfunction', harguments'⟩ := isPath_codec d ht'
  obtain ⟨hf, ha⟩ := callText_injective hfront hfunction hfunction' harguments harguments' h
  exact TypeRef.codec_injective (Codec.eq_of_function_of_arguments d hf ha)

/-! Field by field. -/

/-- The step of the field with a given number. -/
theorem exists_step {s : Struct} {k : Nat} {f : Field} (h : s.fields[k]? = some f) :
    ∃ v, (fieldVariables s)[k]? = some v ∧ (Body.ofStruct s).steps[k]? = some ⟨f.name, v, f.type.codec⟩ := by
  have hk : k < (fieldVariables s).length := by
    rw [length_fieldVariables]
    exact (List.getElem?_eq_some_iff.1 h).1
  have hv : (fieldVariables s)[k]? = some (fieldVariables s)[k] := List.getElem?_eq_getElem hk
  have hzip : (s.fields.zip (fieldVariables s))[k]? = some (f, (fieldVariables s)[k]) :=
    List.getElem?_zip_eq_some.2 ⟨h, hv⟩
  refine ⟨(fieldVariables s)[k], hv, ?_⟩
  rw [Body.ofStruct, List.getElem?_map, hzip]
  rfl

theorem typeDeclaration_eq (keyword indent : String) (s : Struct) :
    typeDeclaration keyword indent s =
      keyword ++ " " ++ s.name ++ " = \x7b\n" ++ Text.written (s.fields.map (fieldLine indent)) ++ "\x7d" := by
  rw [written_fieldLines, typeDeclaration]
  simp [toString, String.append_assoc]

theorem record_eq (b : Body) : b.record = "\x7b " ++ " ".intercalate (b.steps.map Step.entry) ++ " \x7d" := by
  simp [Body.record, toString, String.append_assoc]

/-- The statement that writes a field, the statement that reads it, the entry of the record and the line of the type
declaration stand at the field's place. The call that reads is the one that writes, turned, without the value. Two
types of which elements are named by identifiers are told apart by either call. -/
theorem field_calls_agree :
    (∀ (keyword indent : String) (s : Struct), ∃ entries lines : List String,
      (Body.ofStruct s).record = "\x7b " ++ " ".intercalate entries ++ " \x7d" ∧
      typeDeclaration keyword indent s =
        keyword ++ " " ++ s.name ++ " = \x7b\n" ++ Text.written lines ++ "\x7d" ∧
      (Body.ofStruct s).writing.length = s.fields.length ∧ (Body.ofStruct s).reading.length = s.fields.length + 1 ∧
      entries.length = s.fields.length ∧ lines.length = s.fields.length ∧
      ∀ (k : Nat) (f : Field), s.fields[k]? = some f → ∃ v, (fieldVariables s)[k]? = some v ∧
        (Body.ofStruct s).writing[k]? = some ("cursor = " ++ writeCall f) ∧
        (Body.ofStruct s).reading[k + 1]? = some ("cursor, " ++ v ++ " = " ++ readCall f.type) ∧
        entries[k]? = some (f.name ++ " = " ++ v ++ ";") ∧ lines[k]? = some (fieldLine indent f)) ∧
    (∀ f : Field,
      writeCall f = callText (f.type.codec.function .write)
        (["buff", "cursor", "input." ++ f.name] ++ f.type.codec.arguments .write) ∧
      readCall f.type = callText (mirrored (f.type.codec.function .write))
        (["buff", "cursor"] ++ (f.type.codec.arguments .write).map mirrored)) ∧
    ∀ (field m n : String) (sh sh' : Shape), IsIdentifier m.toList → IsIdentifier n.toList →
      (⟨.ofName m, sh⟩ : TypeRef) ≠ ⟨.ofName n, sh'⟩ →
      writeCall ⟨field, ⟨.ofName m, sh⟩⟩ ≠ writeCall ⟨field, ⟨.ofName n, sh'⟩⟩ ∧
        readCall ⟨.ofName m, sh⟩ ≠ readCall ⟨.ofName n, sh'⟩ := by
  refine ⟨fun keyword indent s => ?_, fun f => ⟨rfl, readCall_eq f.type⟩, fun field m n sh sh' hm hn hne => ?_⟩
  · have hsteps : (Body.ofStruct s).steps.length = s.fields.length := by
      simp [Body.ofStruct, length_fieldVariables]
    refine ⟨_, _, record_eq _, typeDeclaration_eq keyword indent s, by simp [Body.writing, hsteps],
      by simp [Body.reading, hsteps], by simp [hsteps], by simp, fun k f hf => ?_⟩
    obtain ⟨v, hv, hstep⟩ := exists_step hf
    refine ⟨v, hv, ?_, ?_, ?_, ?_⟩
    · rw [Body.writing, List.getElem?_map, hstep, Option.map_some, writeStatement_eq]
    · rw [Body.reading, List.getElem?_cons_succ, List.getElem?_map, hstep, Option.map_some, readStatement_eq]
    · rw [List.getElem?_map, hstep, Option.map_some]
      simp [Step.entry, toString, String.append_assoc]
    · rw [List.getElem?_map, hf, Option.map_some]
  · have hpath {name : String} (h : IsIdentifier name.toList) : IsPath (Element.ofName name).name := by
      rw [Element.name_ofName]
      exact isPath_of_isIdentifier h
    exact ⟨fun h => hne (eq_of_callText .write (List.cons_ne_nil _ _) (hpath hm) (hpath hn) h),
      fun h => hne (eq_of_callText .read (List.cons_ne_nil _ _) (hpath hm) (hpath hn) h)⟩

/-- The calls for arrays of truth values and for arrays of a struct that has the name of their codec. -/
theorem bool_boolArray_calls :
    (∃ v, (Body.ofStruct ⟨"Flags", .start, [⟨"bits", ⟨.ofName "bool", .fixedArray 8⟩⟩], ∅, false, ∅⟩).reading[1]? =
      some ("cursor, " ++ v ++ " = " ++ readCall ⟨.ofName "bool", .fixedArray 8⟩)) ∧
    writeCall ⟨"bits", ⟨.ofName "bool", .fixedArray 8⟩⟩ ≠ writeCall ⟨"bits", ⟨.ofName "boolArray", .fixedArray 8⟩⟩ := by
  obtain ⟨_, _, -, -, -, -, -, -, hfields⟩ := field_calls_agree.1 "type" "  "
    ⟨"Flags", .start, [⟨"bits", ⟨.ofName "bool", .fixedArray 8⟩⟩], ∅, false, ∅⟩
  obtain ⟨v, -, -, hread, -⟩ := hfields 0 ⟨"bits", ⟨.ofName "bool", .fixedArray 8⟩⟩ rfl
  exact ⟨⟨v, hread⟩, (field_calls_agree.2.2 "bits" "bool" "boolArray" (.fixedArray 8) (.fixedArray 8) (by decide)
    (by decide) (by decide)).1⟩

end Luau

end BufferSchema
