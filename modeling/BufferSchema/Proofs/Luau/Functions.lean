import BufferSchema.Proofs.Luau.Scope
import BufferSchema.Proofs.Text.Lines

/-!
# The functions of codecs

The functions that are called to write and to read values have names made of dots and of what names are made of. A
codec can be known by its function and what the function takes, and the type of a field by its codec.
-/

namespace BufferSchema

open Text (isNamePart IsIdentifier OneLine isNamePart_of_isDigit)

/-! Different functions and codecs are written differently. -/

namespace Direction

theorem runtimeFunction_eq (d : Direction) (name : String) :
    d.runtimeFunction name = d.runtime ++ "." ++ d.verb ++ "_" ++ name := by
  simp [runtimeFunction, toString]

theorem runtimeFunction_injective (d : Direction) {m n : String} (h : d.runtimeFunction m = d.runtimeFunction n) :
    m = n := by
  rw [runtimeFunction_eq, runtimeFunction_eq] at h
  exact (String.append_right_inj _).1 h

/-- A function of the runtime has a dot where a helper has none. -/
theorem runtimeFunction_ne_helper (d : Direction) (m n : String) : d.runtimeFunction m ≠ d.helper n := by
  intro h
  rw [runtimeFunction_eq, helper_eq] at h
  cases d with
  | write =>
    have hmark := congrArg (fun text => text.toList[5]?) h
    simp [verb, runtime] at hmark
  | read =>
    have hmark := congrArg (fun text => text.toList[4]?) h
    simp [verb, runtime] at hmark

end Direction

/-- No two built-in types share a name. -/
theorem Builtin.name_injective {a b : Builtin} (h : a.name = b.name) : a = b := by
  have ha := Builtin.ofName?_eq_some_iff.2 (rfl : a.name = a.name)
  have hb := Builtin.ofName?_eq_some_iff.2 (rfl : b.name = b.name)
  rw [h, hb] at ha
  exact (Option.some.inj ha).symm

/-- Elements are told apart by the functions that write or read them. -/
theorem Direction.elementFunction_injective (d : Direction) {e e' : Element}
    (h : d.elementFunction e = d.elementFunction e') : e = e' := by
  cases e with
  | builtin b =>
    cases e' with
    | builtin b' => rw [Builtin.name_injective (d.runtimeFunction_injective h)]
    | struct n => exact absurd h (d.runtimeFunction_ne_helper b.name n)
  | struct n =>
    cases e' with
    | builtin b => exact absurd h.symm (d.runtimeFunction_ne_helper b.name n)
    | struct n' => rw [d.helper_injective h]

theorem Direction.elementFunction_ne_runtimeFunction (d : Direction) (e : Element) {name : String}
    (h : Builtin.ofName? name = none) : d.elementFunction e ≠ d.runtimeFunction name := by
  intro heq
  cases e with
  | builtin b =>
    have hname := Builtin.ofName?_eq_some_iff.2 (d.runtimeFunction_injective heq).symm
    rw [h] at hname
    cases hname
  | struct n => exact d.runtimeFunction_ne_helper name n heq.symm

namespace Codec

/-- The name under which the runtime has the functions of a collection. -/
def collection? : Codec → Option String
  | single _ => none
  | array .. => some "array"
  | dynamicArray _ => some "dynamicArray"
  | bits _ => some "boolArray"
  | dynamicBits => some "dynamicBoolArray"
  | map _ => some "map"
  | shortMap _ => some "smap"

/-- No built-in type is called as a collection is. -/
theorem ofName?_collection {c : Codec} {name : String} (h : c.collection? = some name) :
    Builtin.ofName? name = none := by
  cases c <;> cases h <;> decide

theorem function_collection (d : Direction) {c : Codec} {name : String} (h : c.collection? = some name) :
    c.function d = d.runtimeFunction name := by
  cases c <;> cases h <;> rfl

theorem function_single (d : Direction) {c : Codec} (h : c.collection? = none) :
    ∃ e, c.function d = d.elementFunction e := by
  cases c with
  | single e => exact ⟨e, rfl⟩
  | _ => cases h

/-- The function tells what collection it is for, if any. -/
theorem collection?_eq_of_function (d : Direction) {c c' : Codec} (h : c.function d = c'.function d) :
    c.collection? = c'.collection? := by
  cases hc : c.collection? with
  | none =>
    obtain ⟨e, he⟩ := function_single d hc
    cases hc' : c'.collection? with
    | none => rfl
    | some name =>
      rw [he, function_collection d hc'] at h
      exact absurd h (d.elementFunction_ne_runtimeFunction e (ofName?_collection hc'))
  | some name =>
    rw [function_collection d hc] at h
    cases hc' : c'.collection? with
    | none =>
      obtain ⟨e, he⟩ := function_single d hc'
      exact absurd (he.symm.trans h.symm) (d.elementFunction_ne_runtimeFunction e (ofName?_collection hc))
    | some name' => rw [d.runtimeFunction_injective (h.trans (function_collection d hc'))]

/-- A codec is known by its function and what the function takes. -/
theorem eq_of_function_of_arguments (d : Direction) {c c' : Codec} (hf : c.function d = c'.function d)
    (ha : c.arguments d = c'.arguments d) : c = c' := by
  have hc := collection?_eq_of_function d hf
  -- codecs of different collections are out
  cases c <;> cases c' <;>
    simp only [collection?, reduceCtorEq, Option.some.injEq, String.reduceEq] at hc <;>
    simp only [arguments, List.cons.injEq, and_true] at ha
  case single.single e e' => rw [d.elementFunction_injective hf]
  case array.array e n e' n' => rw [d.elementFunction_injective ha.1, Text.toString_injective ha.2]
  case dynamicArray.dynamicArray e e' => rw [d.elementFunction_injective ha]
  case bits.bits n n' => rw [Text.toString_injective ha]
  case dynamicBits.dynamicBits => rfl
  case map.map e e' => rw [d.elementFunction_injective ha]
  case shortMap.shortMap e e' => rw [d.elementFunction_injective ha]

end Codec

/-- No two types share a codec. -/
theorem TypeRef.codec_injective {t t' : TypeRef} (h : t.codec = t'.codec) : t = t' := by
  obtain ⟨e, sh⟩ := t
  obtain ⟨e', sh'⟩ := t'
  unfold codec at h
  split at h <;> split at h <;> simp_all

/-! What functions are written with. -/

namespace Luau

/-- Text that is made of names and dots. -/
def IsPath (text : String) : Prop := ∀ c ∈ text.toList, isNamePart c = true ∨ c = '.'

instance (text : String) : Decidable (IsPath text) :=
  decidable_of_iff (text.toList.all fun c => isNamePart c || c == '.') (by simp [IsPath])

theorem isPath_of_isNamePart {text : String} (h : ∀ c ∈ text.toList, isNamePart c = true) : IsPath text :=
  fun c hc => .inl (h c hc)

theorem isPath_of_isIdentifier {name : String} (h : IsIdentifier name.toList) : IsPath name :=
  isPath_of_isNamePart h.isNamePart

theorem isPath_append {a b : String} (ha : IsPath a) (hb : IsPath b) : IsPath (a ++ b) := by
  intro c hc
  rw [String.toList_append] at hc
  exact (List.mem_append.1 hc).elim (ha c) (hb c)

theorem IsPath.bne {text : String} (h : IsPath text) {x : Char} (hx : isNamePart x = false) (hdot : x ≠ '.') :
    ∀ c ∈ text.toList, (c != x) = true := by
  intro c hc
  rw [bne_iff_ne]
  rintro rfl
  exact (h c hc).elim (by simp [hx]) hdot

theorem IsPath.oneLine {text : String} (h : IsPath text) : OneLine text := fun hmem =>
  absurd (h.bne (x := '\n') (by decide) (by decide) '\n' hmem) (by decide)

/-- What the generated code calls is made of names and dots, since its parts are. -/
theorem isPath_runtimeFunction (d : Direction) {name : String} (h : IsPath name) : IsPath (d.runtimeFunction name) := by
  rw [d.runtimeFunction_eq]
  cases d <;> exact isPath_append (by decide) h

theorem isPath_helper (d : Direction) {name : String} (h : IsPath name) : IsPath (d.helper name) := by
  rw [d.helper_eq]
  cases d <;> exact isPath_append (by decide) h

theorem isPath_elementFunction (d : Direction) {e : Element} (h : IsPath e.name) : IsPath (d.elementFunction e) := by
  cases e with
  | builtin b => exact isPath_runtimeFunction d h
  | struct name => exact isPath_helper d h

/-- The function of a field and what it takes, where the elements have a plain name. -/
theorem isPath_codec (d : Direction) {t : TypeRef} (h : IsPath t.element.name) :
    IsPath (t.codec.function d) ∧ ∀ a ∈ t.codec.arguments d, IsPath a := by
  have helement := isPath_elementFunction d h
  have hruntime : ∀ {name : String}, IsPath name → IsPath (d.runtimeFunction name) := isPath_runtimeFunction d
  have hword : ∀ name ∈ ["array", "boolArray", "dynamicArray", "dynamicBoolArray", "map", "smap"], IsPath name := by
    decide
  have hcount : ∀ n : Nat, IsPath n.repr := fun n => isPath_of_isNamePart fun c hc =>
    isNamePart_of_isDigit (Text.isDigit_of_mem_toString n c hc)
  obtain ⟨element, shape⟩ := t
  unfold TypeRef.codec
  split <;> simp_all [Codec.function, Codec.arguments]

end Luau

end BufferSchema
