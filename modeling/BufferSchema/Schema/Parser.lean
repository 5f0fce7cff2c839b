import BufferSchema.Name
import BufferSchema.Schema.Basic
import BufferSchema.Token.Stream

/-!
# Reading a schema

A schema is written as structs, each `struct NAME {` fields `}`, and one `exports NAME`. A field is
`field NAME` and a type, with or without a colon between them; a type is a name, `[N]` or `[]`
before a name, or a name in braces before `map` or `smap`.

Each function takes the tokens that are left and returns what it read with the tokens behind it.
What stands before the first struct, or after an export and before the next struct, belongs to
nothing and is passed over.
-/

namespace BufferSchema

open Text (Position)

namespace Token

/-- The first of the tokens left, or the end of the text. -/
def first (ts : List Token) : Token := ts.headD (endOfInput 0)

@[simp] theorem first_nil : first [] = endOfInput 0 := rfl

@[simp] theorem first_cons (t : Token) (ts : List Token) : first (t :: ts) = t := rfl

theorem exists_cons_of_isSpelled {ts : List Token} {text : String}
    (h : (first ts).isSpelled text = true) : ∃ t rest, ts = t :: rest ∧ t.isSpelled text = true := by
  cases ts with
  | nil => simp at h
  | cons t rest => exact ⟨t, rest, rfl, h⟩

end Token

namespace Schema.Parser

open Token (first)

/-- The name of a type. A token that is no type, such as a keyword, is refused. -/
def typeName (t : Token) : Except CompileError String := do
  Name.check t.lexeme
  if t.kind = .typeName then .ok t.lexeme else .error (.typeExpected t.lexeme t.position)

/-- The greatest number of elements that an array type can have. -/
def maxArraySize : Nat := 18446744073709551615

/-- The value of decimal digits. -/
def decimal (digits : List Char) : Nat :=
  digits.foldl (fun n c => 10 * n + (c.toNat - '0'.toNat)) 0

/-- The number of elements that digits stand for, if an array can have so many. -/
def arraySize? (digits : String) : Option Nat :=
  let n := decimal digits.toList
  if 0 < n ∧ n ≤ maxArraySize then some n else none

/-- The element of an array, after the closing bracket. -/
def arrayElement (shape : Shape) (ts : List Token) : Except CompileError (TypeRef × List Token) := do
  let name ← typeName (first ts)
  .ok (⟨.ofName name, shape⟩, ts.tail)

/-- An array type, after the bracket opened at `openedAt`. -/
def arrayType (openedAt : Position) (ts : List Token) : Except CompileError (TypeRef × List Token) :=
  let size := first ts
  if size.kind = .int then
    match arraySize? size.lexeme with
    | none => .error (.invalidArraySize size.lexeme size.position)
    | some count =>
      let close := first ts.tail
      if close.isSpelled "]" then arrayElement (.fixedArray count) ts.tail.tail
      else .error (.bracketNotClosed openedAt close.lexeme close.position)
  else if size.isSpelled "]" then arrayElement .dynamicArray ts.tail
  else .error (.bracketNotClosed openedAt size.lexeme size.position)

/-- The shape that the word behind the braces of a map selects. -/
def mapShape? (t : Token) : Option Shape :=
  if t.isSpelled "map" then some .map
  else if t.isSpelled "smap" then some .shortMap
  else none

/-- A map type, after the brace opened at `openedAt`. The type of the values is judged last. -/
def mapType (openedAt : Position) (ts : List Token) : Except CompileError (TypeRef × List Token) :=
  let value := first ts
  if value.isSpelled "\x7d" then .error (.mapValueMissing openedAt)
  else if !(first ts.tail).isSpelled "\x7d" then .error (.braceNotClosed openedAt)
  else match mapShape? (first ts.tail.tail) with
    | none => .error (.mapKeywordExpected openedAt)
    | some shape => do
      let name ← typeName value
      .ok (⟨.ofName name, shape⟩, ts.tail.tail.tail)

/-- A type. -/
def typeRef (ts : List Token) : Except CompileError (TypeRef × List Token) :=
  let start := first ts
  if start.isSpelled "\x7b" then mapType start.position ts.tail
  else if start.isSpelled "[" then arrayType start.position ts.tail
  else do
    let name ← typeName start
    .ok (⟨.ofName name, .scalar⟩, ts.tail)

/-- The tokens without a colon at their front. -/
def skipColon (ts : List Token) : List Token :=
  if (first ts).isSpelled ":" then ts.tail else ts

/-- A field, after its keyword, which stands at `place`. -/
def field (place : Position) (ts : List Token) : Except CompileError (Field × List Token) := do
  let name := first ts
  Name.check name.lexeme
  if name.kind = .name .field then
    let (type, rest) ← typeRef (skipColon ts.tail)
    .ok (⟨name.lexeme, type⟩, rest)
  else .error (.fieldNameExpected place)

/-! Every function leaves fewer tokens than it was given, or at least not more. -/

theorem length_arrayElement {shape : Shape} {ts rest : List Token} {t : TypeRef}
    (h : arrayElement shape ts = .ok (t, rest)) : rest.length ≤ ts.length := by
  unfold arrayElement at h
  cases hn : typeName (first ts) with
  | error e => simp [hn, bind, Except.bind] at h
  | ok name =>
    simp only [hn, bind, Except.bind, Except.ok.injEq, Prod.mk.injEq] at h
    simp [← h.2]

theorem length_arrayType {p : Position} {ts rest : List Token} {t : TypeRef}
    (h : arrayType p ts = .ok (t, rest)) : rest.length ≤ ts.length := by
  simp only [arrayType] at h
  split at h
  · split at h
    · cases h
    · split at h
      · have := length_arrayElement h
        simp only [List.length_tail] at this
        omega
      · cases h
  · split at h
    · have := length_arrayElement h
      simp only [List.length_tail] at this
      omega
    · cases h

theorem length_mapType {p : Position} {ts rest : List Token} {t : TypeRef}
    (h : mapType p ts = .ok (t, rest)) : rest.length ≤ ts.length := by
  simp only [mapType] at h
  split at h
  · cases h
  · split at h
    · cases h
    · split at h
      · cases h
      · cases hn : typeName (first ts) with
        | error e => simp [hn, bind, Except.bind] at h
        | ok name =>
          simp only [hn, bind, Except.bind, Except.ok.injEq, Prod.mk.injEq] at h
          simp only [← h.2, List.length_tail]
          omega

theorem length_typeRef {ts rest : List Token} {t : TypeRef}
    (h : typeRef ts = .ok (t, rest)) : rest.length ≤ ts.length := by
  simp only [typeRef] at h
  split at h
  · have := length_mapType h
    simp only [List.length_tail] at this
    omega
  · split at h
    · have := length_arrayType h
      simp only [List.length_tail] at this
      omega
    · cases hn : typeName (first ts) with
      | error e => simp [hn, bind, Except.bind] at h
      | ok name =>
        simp only [hn, bind, Except.bind, Except.ok.injEq, Prod.mk.injEq] at h
        simp [← h.2]

theorem length_skipColon (ts : List Token) : (skipColon ts).length ≤ ts.length := by
  unfold skipColon
  split <;> simp

theorem length_field {p : Position} {ts rest : List Token} {f : Field}
    (h : field p ts = .ok (f, rest)) : rest.length ≤ ts.length := by
  unfold field at h
  cases hc : Name.check (first ts).lexeme with
  | error e => simp [hc, bind, Except.bind] at h
  | ok u =>
    simp only [hc, bind, Except.bind] at h
    split at h
    · cases ht : typeRef (skipColon ts.tail) with
      | error e => simp [ht] at h
      | ok q =>
        obtain ⟨t, r⟩ := q
        simp only [ht, Except.ok.injEq, Prod.mk.injEq] at h
        have h₁ := length_typeRef ht
        have h₂ := length_skipColon ts.tail
        simp only [List.length_tail, h.2] at h₁ h₂
        omega
    · cases h

/-- The fields of the struct `s` up to its closing brace, after the keyword of the next field,
which stands at `place`. -/
def fields (s : Struct) (place : Position) (ts : List Token) : Except CompileError (Struct × List Token) :=
  match _h : field place ts with
  | .error e => .error e
  | .ok (f, rest) =>
    if (s.field? f.name).isSome then .error (.duplicateField s.name f.name)
    else
      let next := first rest
      if next.isSpelled "\x7d" then .ok (s.push f, rest.tail)
      else if _hn : next.isSpelled Keyword.field.text then fields (s.push f) next.position rest.tail
      else .error (.fieldExpected f.name next.position s.name)
termination_by ts.length
decreasing_by
  have := length_field _h
  obtain ⟨t, r, rfl, -⟩ := Token.exists_cons_of_isSpelled _hn
  simp only [List.length_cons, List.tail_cons] at *
  omega

/-- The body of the struct `s`, after its opening brace. A body that starts with something else than
a field is refused for that token if a field follows anywhere; if none does, it counts as empty. -/
def body (s : Struct) (ts : List Token) : Except CompileError (Struct × List Token) :=
  let next := first ts
  if next.isSpelled "\x7d" then .ok (s, ts.tail)
  else if next.isSpelled Keyword.field.text then fields s next.position ts.tail
  else if ts.any (·.isSpelled Keyword.field.text) then
    .error (.tokenBeforeField next.lexeme next.position)
  else .ok (s, ts)

/-- A struct, after its keyword, which stands at `place`. -/
def struct (place : Position) (ts : List Token) : Except CompileError (Struct × List Token) := do
  let name := first ts
  Name.check name.lexeme
  if name.kind = .name .struct then
    if (Builtin.ofName? name.lexeme).isSome then .error (.builtinStructName name.lexeme place)
    else
      let opening := first ts.tail
      if opening.isSpelled "\x7b" then body { name := name.lexeme, position := place } ts.tail.tail
      else .error (.structNotOpened place opening.lexeme)
  else .error (.structNameExpected place)

theorem length_fields {s t : Struct} {p : Position} {ts rest : List Token}
    (h : fields s p ts = .ok (t, rest)) : rest.length ≤ ts.length := by
  fun_induction fields s p ts with
  | case1 => cases h
  | case2 => cases h
  | case3 s p ts f r hf _ next hn =>
    have := length_field hf
    simp only [Except.ok.injEq, Prod.mk.injEq] at h
    simp only [← h.2, List.length_tail]
    omega
  | case4 s p ts f r hf _ next _ hn ih =>
    have h₁ := length_field hf
    have h₂ := ih h
    simp only [List.length_tail] at h₂
    omega
  | case5 => cases h

theorem length_body {s t : Struct} {ts rest : List Token}
    (h : body s ts = .ok (t, rest)) : rest.length ≤ ts.length := by
  simp only [body] at h
  split at h
  · simp only [Except.ok.injEq, Prod.mk.injEq] at h
    simp [← h.2]
  · split at h
    · have := length_fields h
      simp only [List.length_tail] at this
      omega
    · split at h
      · cases h
      · simp only [Except.ok.injEq, Prod.mk.injEq] at h
        simp [← h.2]

theorem length_struct {p : Position} {ts rest : List Token} {s : Struct}
    (h : struct p ts = .ok (s, rest)) : rest.length ≤ ts.length := by
  simp only [struct] at h
  cases hc : Name.check (first ts).lexeme with
  | error e => simp [hc, bind, Except.bind] at h
  | ok u =>
    simp only [hc, bind, Except.bind] at h
    split at h
    · split at h
      · cases h
      · split at h
        · have := length_body h
          simp only [List.length_tail] at this
          omega
        · cases h
    · cases h

/-- Adds the structs that the tokens define to those of the table `known`. -/
def structs (known : Table Struct) (ts : List Token) : Except CompileError (Table Struct) :=
  match _hd : ts.dropWhile (!·.isSpelled Keyword.struct.text) with
  | [] => .ok known
  | keyword :: rest =>
    match _hs : struct keyword.position rest with
    | .error e => .error e
    | .ok (s, behind) =>
      match known.find? s.name with
      | some earlier => .error (.duplicateStruct s.name earlier.position s.position)
      | none =>
        let next := first behind
        if s.fields.isEmpty then .error (.emptyStruct s.name)
        else if next.isSpelled Keyword.struct.text || next.isSpelled Keyword.exports.text then
          structs (known.insert s.name s) behind
        else .error (.tokenAfterStruct next.lexeme next.position)
termination_by ts.length
decreasing_by
  have h₁ := length_struct _hs
  have h₂ := (List.dropWhile_sublist (l := ts) (!·.isSpelled Keyword.struct.text)).length_le
  rw [_hd, List.length_cons] at h₂
  omega

/-- The name behind the keyword `exports`. There must be exactly one such keyword, and a name. -/
def exportedName (ts : List Token) : Except CompileError Token :=
  let found := ts.countP (·.isSpelled Keyword.exports.text)
  let name := first (ts.dropWhile (!·.isSpelled Keyword.exports.text)).tail
  if found = 1 ∧ name.kind = .name .exports then .ok name else .error (.exportCount found)

end Schema.Parser

/-- The schema that the tokens of a text define, before the references between its structs are
looked at. -/
def Schema.ofTokens (s : TokenStream) : Except CompileError Schema := do
  if s.tokens.isEmpty then .error .noTokens
  let exported ← Parser.exportedName s.tokens
  if !s.tokens.any (·.isSpelled Keyword.struct.text) then .error .noStructs
  if !s.tokens.any (·.isSpelled Keyword.field.text) then .error .noFields
  let structs ← Parser.structs ∅ s.tokens
  Name.check exported.lexeme
  if exported.lexeme ∈ structs then .ok { structs, exports := exported.lexeme }
  else .error (.exportNotFound exported.lexeme)

end BufferSchema
