import BufferSchema.Proofs.Token.Classified

/-!
# Tokens without their places

Where in a text a lexeme stands is kept for what is told about errors. Putting every place to the end of the text
forgets all that gaps and comments can change. Each stage is shown to commute with that, this module the first:
scanning lexemes without their places gives the tokens without theirs, or the error without its own.
-/

namespace BufferSchema

/-- The error with all places forgotten. Its kind and the names, texts, lists and numbers in it stay. -/
def CompileError.unplaced : CompileError → CompileError
  | unknownOperator lexeme _ => unknownOperator lexeme .endOfInput
  | exportNameExpected _ => exportNameExpected .endOfInput
  | tokenAfterStruct lexeme _ => tokenAfterStruct lexeme .endOfInput
  | duplicateStruct name _ _ => duplicateStruct name .endOfInput .endOfInput
  | structNotOpened _ found => structNotOpened .endOfInput found
  | structNameExpected _ => structNameExpected .endOfInput
  | fieldExpected field _ structName => fieldExpected field .endOfInput structName
  | fieldNameExpected _ => fieldNameExpected .endOfInput
  | bracketNotClosed _ found _ => bracketNotClosed .endOfInput found .endOfInput
  | mapKeywordExpected _ => mapKeywordExpected .endOfInput
  | braceNotClosed _ => braceNotClosed .endOfInput
  | mapValueMissing _ => mapValueMissing .endOfInput
  | typeExpected lexeme _ => typeExpected lexeme .endOfInput
  | builtinStructName name _ => builtinStructName name .endOfInput
  | tokenBeforeField lexeme _ => tokenBeforeField lexeme .endOfInput
  | invalidArraySize lexeme _ => invalidArraySize lexeme .endOfInput
  | e => e

/-- What a stage comes to with all places forgotten: a result goes through `f`, an error loses its places. -/
def unplacedBy {α β : Type} (f : α → β) : Except CompileError α → Except CompileError β
  | .ok a => .ok (f a)
  | .error e => .error e.unplaced

section

variable {α β α' β' : Type} {f : α → β}

@[simp] theorem unplacedBy_ok (a : α) : unplacedBy f (.ok a) = .ok (f a) := rfl

@[simp] theorem unplacedBy_error (e : CompileError) : unplacedBy f (.error e) = .error e.unplaced := rfl

/-- Two stages behind each other forget places if each of them does. -/
theorem unplacedBy_bind {x : Except CompileError α} {x' : Except CompileError β} {g : α → Except CompileError α'}
    {g' : β → Except CompileError β'} {h : α' → β'} (hx : x' = unplacedBy f x)
    (hg : ∀ a, g' (f a) = unplacedBy h (g a)) : x' >>= g' = unplacedBy h (x >>= g) := by
  rw [hx]
  cases x with
  | error e => rfl
  | ok a => exact hg a

end

def Lexeme.unplaced (l : Lexeme) : Lexeme := { l with position := .endOfInput }

namespace Token

def unplaced (t : Token) : Token := { t with position := .endOfInput }

variable (t : Token)

@[simp] theorem kind_unplaced : t.unplaced.kind = t.kind := rfl

@[simp] theorem lexeme_unplaced : t.unplaced.lexeme = t.lexeme := rfl

@[simp] theorem position_unplaced : t.unplaced.position = .endOfInput := rfl

@[simp] theorem isSpelled_unplaced (text : String) : t.unplaced.isSpelled text = t.isSpelled text := rfl

end Token

/-- What scanning comes to with all places forgotten. -/
def Scan.unplaced (s : Scan) : Scan := ⟨s.accepted.map Token.unplaced, s.failure.map CompileError.unplaced⟩

theorem Scan.accept_unplaced (index : Nat) (before? : Option Token.Kind) (ls : List Lexeme) :
    accept index before? (ls.map Lexeme.unplaced) = (accept index before? ls).unplaced := by
  induction ls generalizing index before? with
  | nil => rfl
  | cons l ls ih =>
    have hkind : Token.Kind.ofLexeme? before? l.unplaced = Token.Kind.ofLexeme? before? l := rfl
    rw [List.map_cons, accept, accept, hkind]
    cases Token.Kind.ofLexeme? before? l with
    | none => rfl
    | some kind =>
      simp only [ih]
      split <;> rfl

namespace TokenStream

def unplaced (s : TokenStream) : TokenStream := ⟨s.tokens.map Token.unplaced⟩

/-- The kinds and texts of the lexemes are all that scanning looks at. -/
theorem unplaced_scan {source source' : String}
    (h : (Lexeme.words .start source.toList).map (fun l => (l.kind, l.text)) =
      (Lexeme.words .start source'.toList).map fun l => (l.kind, l.text)) :
    unplacedBy unplaced (scan source).result = unplacedBy unplaced (scan source').result := by
  have hwords : (Lexeme.words .start source.toList).map Lexeme.unplaced =
      (Lexeme.words .start source'.toList).map Lexeme.unplaced := by
    have hmap := congrArg (List.map fun (k, text) => (⟨k, text, .endOfInput⟩ : Lexeme)) h
    rwa [List.map_map, List.map_map] at hmap
  have hscan : (Scan.ofText source).unplaced = (Scan.ofText source').unplaced := by
    have haccept := congrArg (Scan.accept 0 none) hwords
    rwa [Scan.accept_unplaced, Scan.accept_unplaced] at haccept
  have hresult : ∀ source, unplacedBy unplaced (scan source).result =
      match (Scan.ofText source).unplaced with
      | ⟨accepted, none⟩ => .ok ⟨accepted⟩
      | ⟨_, some e⟩ => .error e := by
    intro source
    simp only [scan, Scan.unplaced]
    cases (Scan.ofText source).failure <;> rfl
  rw [hresult, hresult, hscan]

end TokenStream

end BufferSchema
