import BufferSchema.Proofs.Schema.Grammar
import BufferSchema.Proofs.Table
import BufferSchema.Proofs.Token.Unplaced
import BufferSchema.Schema.Reading

/-!
# Reading without places

The parser passes places on to the structs and to its errors and looks at none of them. So reading tokens without
their places gives the schema without the places of its structs, or the error without its own.
-/

namespace BufferSchema

open Token (first)

@[simp] theorem Token.first_map_unplaced (ts : List Token) : first (ts.map unplaced) = (first ts).unplaced := by
  cases ts <;> rfl

@[simp] theorem Token.any_isSpelled_unplaced (ts : List Token) (text : String) :
    (ts.map unplaced).any (·.isSpelled text) = ts.any (·.isSpelled text) := by
  simp [List.any_map, Function.comp_def]

/-- What is searched for by its spelling is found at the same token. -/
theorem Token.dropWhile_unplaced (ts : List Token) (text : String) :
    (ts.map unplaced).dropWhile (!·.isSpelled text) = (ts.dropWhile (!·.isSpelled text)).map unplaced :=
  List.dropWhile_map ..

/-- A struct without its place. -/
def Struct.unplaced (s : Struct) : Struct := { s with position := .endOfInput }

namespace Struct

variable (s : Struct)

@[simp] theorem name_unplaced : s.unplaced.name = s.name := rfl

@[simp] theorem fields_unplaced : s.unplaced.fields = s.fields := rfl

@[simp] theorem position_unplaced : s.unplaced.position = .endOfInput := rfl

@[simp] theorem references_unplaced : s.unplaced.references = s.references := rfl

@[simp] theorem push_unplaced (f : Field) : s.unplaced.push f = (s.push f).unplaced := rfl

@[simp] theorem field?_unplaced (name : String) : s.unplaced.field? name = s.field? name := rfl

end Struct

namespace Schema.Parser

/-- What a function of the parser has read and the tokens behind it, with all places forgotten. -/
def unplacedRest {α : Type} (f : α → α) (r : α × List Token) : α × List Token := (f r.1, r.2.map Token.unplaced)

theorem check_unplaced (name : String) : Name.check name = unplacedBy id (Name.check name) := by
  unfold Name.check
  split <;> rfl

theorem typeName_unplaced (t : Token) : typeName t.unplaced = unplacedBy id (typeName t) := by
  refine unplacedBy_bind (check_unplaced t.lexeme) fun _ => ?_
  rw [Token.kind_unplaced]
  split <;> rfl

theorem arrayElement_unplaced (shape : Shape) (ts : List Token) :
    arrayElement shape (ts.map Token.unplaced) = unplacedBy (unplacedRest id) (arrayElement shape ts) := by
  unfold arrayElement
  rw [Token.first_map_unplaced, ← List.map_tail]
  exact unplacedBy_bind (typeName_unplaced _) fun name => rfl

theorem arrayType_unplaced (p : Text.Position) (ts : List Token) :
    arrayType .endOfInput (ts.map Token.unplaced) = unplacedBy (unplacedRest id) (arrayType p ts) := by
  simp only [arrayType, ← List.map_tail, Token.first_map_unplaced, Token.kind_unplaced, Token.lexeme_unplaced,
    Token.isSpelled_unplaced, arrayElement_unplaced]
  split
  · split
    · rfl
    · split <;> rfl
  · split <;> rfl

theorem mapType_unplaced (p : Text.Position) (ts : List Token) :
    mapType .endOfInput (ts.map Token.unplaced) = unplacedBy (unplacedRest id) (mapType p ts) := by
  have hshape : ∀ t : Token, mapShape? t.unplaced = mapShape? t := fun _ => rfl
  simp only [mapType, ← List.map_tail, Token.first_map_unplaced, Token.isSpelled_unplaced, hshape]
  split
  · rfl
  · split
    · rfl
    · split
      · rfl
      · exact unplacedBy_bind (typeName_unplaced _) fun name => rfl

/-- Without places, the same type is read and the same tokens are left. -/
theorem typeRef_unplaced (ts : List Token) :
    typeRef (ts.map Token.unplaced) = unplacedBy (unplacedRest id) (typeRef ts) := by
  simp only [typeRef, ← List.map_tail, Token.first_map_unplaced, Token.isSpelled_unplaced, Token.position_unplaced]
  split
  · exact mapType_unplaced ..
  · split
    · exact arrayType_unplaced ..
    · exact unplacedBy_bind (typeName_unplaced _) fun name => rfl

theorem skipColon_unplaced (ts : List Token) :
    skipColon (ts.map Token.unplaced) = (skipColon ts).map Token.unplaced := by
  unfold skipColon
  rw [Token.first_map_unplaced, Token.isSpelled_unplaced, ← List.map_tail]
  split <;> rfl

/-- So it is with a field. The place of its keyword comes into errors only. -/
theorem field_unplaced (place : Text.Position) (ts : List Token) :
    field .endOfInput (ts.map Token.unplaced) = unplacedBy (unplacedRest id) (field place ts) := by
  unfold field
  rw [Token.first_map_unplaced, ← List.map_tail, skipColon_unplaced]
  refine unplacedBy_bind (check_unplaced _) fun _ => ?_
  by_cases hkind : (first ts).kind = .name .field
  · have hkind' : (first ts).unplaced.kind = .name .field := hkind
    rw [if_pos hkind, if_pos hkind']
    refine unplacedBy_bind (typeRef_unplaced _) fun r => ?_
    rfl
  · have hkind' : (first ts).unplaced.kind ≠ .name .field := hkind
    rw [if_neg hkind, if_neg hkind']
    rfl

/-- What `fields` does for one field. -/
theorem fields_eq (s : Struct) (place : Text.Position) (ts : List Token) : fields s place ts =
    match field place ts with
    | .error e => .error e
    | .ok (f, rest) =>
      if (s.field? f.name).isSome then .error (.duplicateField s.name f.name)
      else if (first rest).isSpelled "\x7d" then .ok (s.push f, rest.tail)
      else if (first rest).isSpelled Keyword.field.text then fields (s.push f) (first rest).position rest.tail
      else .error (.fieldExpected f.name (first rest).position s.name) := by
  rw [fields]
  split
  · next h => rw [h]
  · next h =>
    rw [h]
    simp only [dite_eq_ite]

/-- A function on the tokens behind a field, with the field read. -/
theorem fields_of_field {s : Struct} {place : Text.Position} {ts rest : List Token} {f : Field}
    (h : field place ts = .ok (f, rest)) : fields s.unplaced .endOfInput (ts.map Token.unplaced) =
      if (s.field? f.name).isSome then .error (.duplicateField s.name f.name)
      else if (first rest).isSpelled "\x7d" then .ok ((s.push f).unplaced, rest.tail.map Token.unplaced)
      else if (first rest).isSpelled Keyword.field.text then
        fields (s.push f).unplaced .endOfInput (rest.tail.map Token.unplaced)
      else .error (.fieldExpected f.name .endOfInput s.name) := by
  rw [fields_eq, field_unplaced place, h]
  simp [unplacedRest, List.map_tail]

theorem fields_unplaced (s : Struct) (place : Text.Position) (ts : List Token) :
    fields s.unplaced .endOfInput (ts.map Token.unplaced) =
      unplacedBy (unplacedRest Struct.unplaced) (fields s place ts) := by
  fun_induction fields s place ts with
  | case1 s place ts e hfield =>
    rw [fields_eq, field_unplaced place, hfield]
    rfl
  | case2 s place ts f rest hfield hknown =>
    rw [fields_of_field hfield, if_pos hknown]
    rfl
  | case3 s place ts f rest hfield hknown next hclose =>
    rw [fields_of_field hfield, if_neg hknown, if_pos hclose]
    rfl
  | case4 s place ts f rest hfield hknown next hclose hnext ih =>
    rw [fields_of_field hfield, if_neg hknown, if_neg hclose, if_pos hnext]
    exact ih
  | case5 s place ts f rest hfield hknown next hclose hnext =>
    rw [fields_of_field hfield, if_neg hknown, if_neg hclose, if_neg hnext]
    rfl

theorem body_unplaced (s : Struct) (ts : List Token) :
    body s.unplaced (ts.map Token.unplaced) = unplacedBy (unplacedRest Struct.unplaced) (body s ts) := by
  simp only [body, ← List.map_tail, Token.first_map_unplaced, Token.isSpelled_unplaced, Token.position_unplaced,
    Token.lexeme_unplaced, Token.any_isSpelled_unplaced, fields_unplaced _ (first ts).position]
  split
  · rfl
  · split
    · rfl
    · split <;> rfl

theorem struct_unplaced (place : Text.Position) (ts : List Token) :
    struct .endOfInput (ts.map Token.unplaced) = unplacedBy (unplacedRest Struct.unplaced) (struct place ts) := by
  unfold struct
  rw [Token.first_map_unplaced]
  refine unplacedBy_bind (check_unplaced _) fun _ => ?_
  simp only [← List.map_tail, Token.first_map_unplaced, Token.isSpelled_unplaced, Token.kind_unplaced,
    Token.lexeme_unplaced]
  by_cases hkind : (first ts).kind = .name .struct
  · simp only [if_pos hkind]
    by_cases hbuiltin : (Builtin.ofName? (first ts).lexeme).isSome
    · rw [if_pos hbuiltin, if_pos hbuiltin]
      rfl
    · rw [if_neg hbuiltin, if_neg hbuiltin]
      by_cases hopen : (first ts.tail).isSpelled "\x7b"
      · rw [if_pos hopen, if_pos hopen]
        exact body_unplaced { name := (first ts).lexeme, position := place } ts.tail.tail
      · rw [if_neg hopen, if_neg hopen]
        rfl
  · simp only [if_neg hkind]
    rfl

/-- The table with all places of its structs forgotten. -/
def unplacedTable (t : Table Struct) : Table Struct := t.mapValues fun _ s => s.unplaced

/-- What `structs` does for one struct. -/
theorem structs_eq (known : Table Struct) (ts : List Token) : structs known ts =
    match ts.dropWhile (!·.isSpelled Keyword.struct.text) with
    | [] => .ok known
    | keyword :: rest =>
      match struct keyword.position rest with
      | .error e => .error e
      | .ok (s, behind) =>
        match known.find? s.name with
        | some earlier => .error (.duplicateStruct s.name earlier.position s.position)
        | none =>
          if s.fields.isEmpty then .error (.emptyStruct s.name)
          else if (first behind).isSpelled Keyword.struct.text || (first behind).isSpelled Keyword.exports.text then
            structs (known.insert s.name s) behind
          else .error (.tokenAfterStruct (first behind).lexeme (first behind).position) := by
  rw [structs]
  split
  · next h => rw [h]
  · next h =>
    rw [h]
    dsimp only
    split
    · next hs => rw [hs]
    · next hs => exact hs ▸ rfl

theorem find?_unplacedTable (known : Table Struct) (name : String) :
    (unplacedTable known).find? name = (known.find? name).map Struct.unplaced :=
  Table.find?_mapValues ..

theorem insert_unplacedTable (known : Table Struct) (s : Struct) :
    (unplacedTable known).insert s.name s.unplaced = unplacedTable (known.insert s.name s) :=
  (Table.mapValues_insert Struct.unplaced known s.name s).symm

/-- A struct that has been read is put into the table without its place, or is refused. -/
theorem structs_of_struct {known : Table Struct} {ts rest behind : List Token} {keyword : Token} {s : Struct}
    (hdrop : ts.dropWhile (!·.isSpelled Keyword.struct.text) = keyword :: rest)
    (hs : struct keyword.position rest = .ok (s, behind)) :
    structs (unplacedTable known) (ts.map Token.unplaced) =
      match known.find? s.name with
      | some _ => .error (.duplicateStruct s.name .endOfInput .endOfInput)
      | none =>
        if s.fields.isEmpty then .error (.emptyStruct s.name)
        else if (first behind).isSpelled Keyword.struct.text || (first behind).isSpelled Keyword.exports.text then
          structs (unplacedTable (known.insert s.name s)) (behind.map Token.unplaced)
        else .error (.tokenAfterStruct (first behind).lexeme .endOfInput) := by
  rw [structs_eq, Token.dropWhile_unplaced, hdrop]
  simp only [List.map_cons, Token.position_unplaced, struct_unplaced keyword.position, hs, unplacedBy_ok,
    unplacedRest, Struct.name_unplaced, find?_unplacedTable, Struct.fields_unplaced, Token.first_map_unplaced,
    Token.isSpelled_unplaced, Token.lexeme_unplaced, Struct.position_unplaced, insert_unplacedTable]
  cases known.find? s.name <;> rfl

/-- The structs of a text without places are those of the text, without theirs. -/
theorem structs_unplaced (known : Table Struct) (ts : List Token) :
    structs (unplacedTable known) (ts.map Token.unplaced) = unplacedBy unplacedTable (structs known ts) := by
  fun_induction structs known ts with
  | case1 known ts hnone =>
    rw [structs_eq, Token.dropWhile_unplaced, hnone]
    rfl
  | case2 known ts keyword rest hdrop e hs =>
    rw [structs_eq, Token.dropWhile_unplaced, hdrop]
    simp only [List.map_cons, Token.position_unplaced, struct_unplaced keyword.position, hs, unplacedBy_error]
  | case3 known ts keyword rest hdrop s behind hs earlier hknown =>
    rw [structs_of_struct hdrop hs, hknown]
    rfl
  | case4 known ts keyword rest hdrop s behind hs hnew hempty =>
    simp only [structs_of_struct hdrop hs, hnew, if_pos hempty]
    rfl
  | case5 known ts keyword rest hdrop s behind hs hnew next hempty hnext ih =>
    simp only [structs_of_struct hdrop hs, hnew, if_neg hempty]
    rw [if_pos hnext]
    exact ih
  | case6 known ts keyword rest hdrop s behind hs hnew next hempty hnext =>
    simp only [structs_of_struct hdrop hs, hnew, if_neg hempty]
    rw [if_neg hnext]
    rfl

theorem exportedName_unplaced (ts : List Token) :
    exportedName (ts.map Token.unplaced) = unplacedBy Token.unplaced (exportedName ts) := by
  have hcount : (ts.map Token.unplaced).countP (·.isSpelled Keyword.exports.text) =
      ts.countP (·.isSpelled Keyword.exports.text) := by
    rw [List.countP_map]
    rfl
  simp only [exportedName, hcount, Token.dropWhile_unplaced, ← List.map_tail, Token.first_map_unplaced,
    Token.kind_unplaced]
  split <;> rfl

end Schema.Parser

open Schema.Parser

namespace Schema

/-- A schema without the places of its structs. -/
def unplaced (s : Schema) : Schema := { s with structs := unplacedTable s.structs }

theorem ofTokens_unplaced (tokens : TokenStream) :
    ofTokens tokens.unplaced = unplacedBy unplaced (ofTokens tokens) := by
  obtain ⟨ts⟩ := tokens
  simp only [ofTokens, TokenStream.unplaced, List.isEmpty_map, Token.any_isSpelled_unplaced]
  split
  · rfl
  · refine unplacedBy_bind (exportedName_unplaced ts) fun exported => ?_
    split
    · rfl
    · split
      · rfl
      · refine unplacedBy_bind (structs_unplaced ∅ ts) fun table => ?_
        refine unplacedBy_bind (check_unplaced exported.lexeme) fun _ => ?_
        have hmem : exported.lexeme ∈ unplacedTable table ↔ exported.lexeme ∈ table := by
          rw [Table.mem_iff, unplacedTable, Table.keys_mapValues, Table.mem_iff]
        by_cases hexported : exported.lexeme ∈ table
        · rw [if_pos hexported, Token.lexeme_unplaced, if_pos (hmem.2 hexported)]
          rfl
        · rw [if_neg hexported, Token.lexeme_unplaced, if_neg (mt hmem.1 hexported)]
          rfl

end Schema

end BufferSchema
