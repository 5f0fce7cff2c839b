import BufferSchema.Proofs.Schema.Verdict
import BufferSchema.Schema.Reading

/-!
# What a text is refused for

The functions that read a struct fail for a few reasons, and the words in their errors are words of the tokens that
they were given or names that were read before. So what holds of every word of a text holds of the words in such an
error. It is enough to follow this through one function after the other, together with the words that a function
leaves behind. What is left then are the errors about the text as a whole, before the first struct is read and behind
the last one, and those of the analysis.
-/

namespace BufferSchema

/-- A result of which `q` holds, or an error of which `p` holds. -/
def Outcome {α : Type} (p : CompileError → Prop) (q : α → Prop) : Except CompileError α → Prop
  | .ok a => q a
  | .error e => p e

namespace Outcome

variable {α β : Type} {p : CompileError → Prop} {q q' : α → Prop} {r : β → Prop} {x : Except CompileError α}

theorem bind {f : α → Except CompileError β} (hx : Outcome p q x) (hf : ∀ a, q a → Outcome p r (f a)) :
    Outcome p r (x >>= f) := by
  cases x with
  | error e => exact hx
  | ok a => exact hf a hx

theorem mono {p' : CompileError → Prop} (hx : Outcome p q x) (hp : ∀ e, p e → p' e) (hq : ∀ a, q a → q' a) :
    Outcome p' q' x := by
  cases x with
  | error e => exact hp e hx
  | ok a => exact hq a hx

theorem of_error {e : CompileError} (hx : Outcome p q x) (h : x = .error e) : p e := by
  rwa [h] at hx

theorem of_ok {a : α} (hx : Outcome p q x) (h : x = .ok a) : q a := by
  rwa [h] at hx

/-- What is said of each result that there can be. -/
theorem intro (hp : ∀ e, x = .error e → p e) (hq : ∀ a, x = .ok a → q a) : Outcome p q x := by
  cases x with
  | error e => exact hp e rfl
  | ok a => exact hq a rfl

end Outcome

namespace CompileError

/-- The error is one of reading a struct, and `said` holds of all words of the text in it. A name is refused for its
first fault. -/
def RefusesStruct (said : String → Prop) : CompileError → Prop
  | invalidName name reason => said name ∧ ∃ fault, Name.fault? name = some fault ∧ reason = fault.text
  | structNameExpected _ | fieldNameExpected _ | mapValueMissing _ | braceNotClosed _ | mapKeywordExpected _ => True
  | builtinStructName word _ | structNotOpened _ word | tokenBeforeField word _ | typeExpected word _ => said word
  | invalidArraySize word _ | bracketNotClosed _ word _ => said word
  | duplicateField structName field | fieldExpected field _ structName => said structName ∧ said field
  | _ => False

/-- The error is one of reading the structs of a text, and `said` holds of all words of the text in it. -/
def RefusesStructs (said : String → Prop) : CompileError → Prop
  | emptyStruct name | duplicateStruct name _ _ => said name
  | tokenAfterStruct word _ => said word
  | e => e.RefusesStruct said

theorem RefusesStruct.refusesStructs {said : String → Prop} {e : CompileError} (h : e.RefusesStruct said) :
    e.RefusesStructs said := by
  cases e with
  | emptyStruct | duplicateStruct | tokenAfterStruct => exact h.elim
  | _ => exact h

end CompileError

/-- The error is about the text with the tokens `ts` as a whole. It says what is missing among them, or that they do
not export one of their structs, and all words of the text in it are `said`. -/
def CompileError.RefusesFrame (said : String → Prop) (ts : List Token) : CompileError → Prop
  | noTokens => ts = []
  | exportCount found => ts ≠ [] ∧ Schema.Parser.exportedName ts = .error (.exportCount found)
  | noStructs => ∀ t ∈ ts, t.isSpelled Keyword.struct.text = false
  | noFields => ∀ t ∈ ts, t.isSpelled Keyword.field.text = false
  | invalidName name reason => said name ∧ ∃ fault, Name.fault? name = some fault ∧ reason = fault.text
  | exportNotFound name => said name
  | _ => False

/-- The error is about the references between the structs of a text. -/
def CompileError.RefusesReferences : CompileError → Prop
  | exportReferenced .. | unknownType .. | selfReference .. | cyclicReference .. => True
  | _ => False

/-- The tokens export one name, and there are a struct and a field among them. This is looked at before any struct is
read. -/
structure TokenStream.Ready (s : TokenStream) : Prop where
  exported : ∃ name, Schema.Parser.exportedName s.tokens = .ok name
  structs : ∃ t ∈ s.tokens, t.isSpelled Keyword.struct.text = true
  fields : ∃ t ∈ s.tokens, t.isSpelled Keyword.field.text = true

/-- All words of the tokens are `said`, and so is the word that stands for the end of the text. -/
structure Says (said : String → Prop) (ts : List Token) : Prop where
  ending : said "EOF"
  words : ∀ t ∈ ts, said t.lexeme

namespace Says

variable {said : String → Prop} {ts us : List Token}

theorem first (h : Says said ts) : said (Token.first ts).lexeme := by
  cases ts with
  | nil => exact h.ending
  | cons t ts => exact h.words t List.mem_cons_self

theorem suffix (h : Says said ts) (hus : us <:+ ts) : Says said us :=
  ⟨h.ending, fun t ht => h.words t (hus.mem ht)⟩

theorem tail (h : Says said ts) : Says said ts.tail := h.suffix (List.tail_suffix ts)

end Says

theorem says_true (ts : List Token) : Says (fun _ => True) ts := ⟨trivial, fun _ _ => trivial⟩

namespace Schema.Parser

open CompileError (RefusesStruct RefusesStructs)
open Text (Position)
open Token (first)

variable {said : String → Prop} {ts : List Token}

/-- The words behind what has been read are `said`. -/
def LeavesSaid {α : Type} (said : String → Prop) (a : α × List Token) : Prop := Says said a.2

theorem outcome_check {p : CompileError → Prop} {name : String}
    (hp : ∀ fault, Name.fault? name = some fault → p (.invalidName name fault.text)) :
    Outcome p (fun _ => True) (Name.check name) := by
  unfold Name.check
  split
  · next fault hfault => exact hp fault hfault
  · exact trivial

theorem refusesStruct_check {name : String} (h : said name) :
    Outcome (RefusesStruct said) (fun _ => True) (Name.check name) :=
  outcome_check fun fault hfault => ⟨h, fault, hfault, rfl⟩

theorem refusesStruct_typeName {t : Token} (h : said t.lexeme) :
    Outcome (RefusesStruct said) (fun _ => True) (typeName t) := by
  refine (refusesStruct_check h).bind fun _ _ => ?_
  split
  · exact trivial
  · exact h

theorem refusesStruct_arrayElement (shape : Shape) (h : Says said ts) :
    Outcome (RefusesStruct said) (LeavesSaid said) (arrayElement shape ts) :=
  (refusesStruct_typeName h.first).bind fun _ _ => h.tail

theorem refusesStruct_arrayType (openedAt : Position) (h : Says said ts) :
    Outcome (RefusesStruct said) (LeavesSaid said) (arrayType openedAt ts) := by
  dsimp only [arrayType]
  split
  · split
    · exact h.first
    · split
      · exact refusesStruct_arrayElement _ h.tail.tail
      · exact h.tail.first
  · split
    · exact refusesStruct_arrayElement _ h.tail
    · exact h.first

theorem refusesStruct_mapType (openedAt : Position) (h : Says said ts) :
    Outcome (RefusesStruct said) (LeavesSaid said) (mapType openedAt ts) := by
  dsimp only [mapType]
  split
  · exact trivial
  · split
    · exact trivial
    · split
      · exact trivial
      · exact (refusesStruct_typeName h.first).bind fun _ _ => h.tail.tail.tail

theorem refusesStruct_typeRef (h : Says said ts) :
    Outcome (RefusesStruct said) (LeavesSaid said) (typeRef ts) := by
  dsimp only [typeRef]
  split
  · exact refusesStruct_mapType _ h.tail
  · split
    · exact refusesStruct_arrayType _ h.tail
    · exact (refusesStruct_typeName h.first).bind fun _ _ => h.tail

theorem says_skipColon (h : Says said ts) : Says said (skipColon ts) := by
  unfold skipColon
  split
  · exact h.tail
  · exact h

theorem refusesStruct_field (place : Position) (h : Says said ts) :
    Outcome (RefusesStruct said) (fun a => said a.1.name ∧ Says said a.2) (field place ts) := by
  refine (refusesStruct_check h.first).bind fun _ _ => ?_
  split
  · exact (refusesStruct_typeRef (says_skipColon h.tail)).bind fun _ hbehind => ⟨h.first, hbehind⟩
  · exact trivial

theorem refusesStruct_fields {s : Struct} (place : Position) (hs : said s.name) (h : Says said ts) :
    Outcome (RefusesStruct said) (fun a => a.1.name = s.name ∧ Says said a.2) (fields s place ts) := by
  fun_induction fields s place ts with
  | case1 s place ts e hfield => exact (refusesStruct_field place h).of_error hfield
  | case2 s place ts f rest hfield _ => exact ⟨hs, ((refusesStruct_field place h).of_ok hfield).1⟩
  | case3 s place ts f rest hfield _ next _ =>
    exact ⟨rfl, ((refusesStruct_field place h).of_ok hfield).2.tail⟩
  | case4 s place ts f rest hfield _ next _ _ ih =>
    exact ih hs ((refusesStruct_field place h).of_ok hfield).2.tail
  | case5 s place ts f rest hfield _ next _ _ => exact ⟨hs, ((refusesStruct_field place h).of_ok hfield).1⟩

theorem refusesStruct_body {s : Struct} (hs : said s.name) (h : Says said ts) :
    Outcome (RefusesStruct said) (fun a => a.1.name = s.name ∧ Says said a.2) (body s ts) := by
  dsimp only [body]
  split
  · exact ⟨rfl, h.tail⟩
  · split
    · exact refusesStruct_fields _ hs h.tail
    · split
      · exact h.first
      · exact ⟨rfl, h⟩

/-- What a single struct is refused for. That it is empty is not among the reasons. -/
theorem refusesStruct_struct (place : Position) (h : Says said ts) :
    Outcome (RefusesStruct said) (fun a => said a.1.name ∧ Says said a.2) (struct place ts) := by
  refine (refusesStruct_check h.first).bind fun _ _ => ?_
  split
  · split
    · exact h.first
    · dsimp only
      split
      · refine (refusesStruct_body h.first h.tail.tail).mono (fun _ he => he) fun a ha => ?_
        exact ⟨ha.1 ▸ h.first, ha.2⟩
      · exact h.tail.first
  · exact trivial

theorem refusesStructs_structs (known : Table Struct) (h : Says said ts) :
    Outcome (RefusesStructs said) (fun _ => True) (structs known ts) := by
  have hround {ts : List Token} (h : Says said ts) {keyword : Token} {rest : List Token}
      (hdrop : ts.dropWhile (!·.isSpelled Keyword.struct.text) = keyword :: rest) :
      Outcome (RefusesStruct said) (fun a => said a.1.name ∧ Says said a.2) (struct keyword.position rest) := by
    have hstart : Says said (keyword :: rest) := h.suffix (hdrop ▸ List.dropWhile_suffix _)
    exact refusesStruct_struct _ hstart.tail
  fun_induction structs known ts with
  | case1 => exact trivial
  | case2 known ts keyword rest hdrop e hs => exact ((hround h hdrop).of_error hs).refusesStructs
  | case3 known ts keyword rest hdrop s behind hs => exact ((hround h hdrop).of_ok hs).1
  | case4 known ts keyword rest hdrop s behind hs => exact ((hround h hdrop).of_ok hs).1
  | case5 known ts keyword rest hdrop s behind hs _ next _ _ ih => exact ih ((hround h hdrop).of_ok hs).2
  | case6 known ts keyword rest hdrop s behind hs => exact ((hround h hdrop).of_ok hs).2.first

theorem exportedName_eq_error {e : CompileError} (h : exportedName ts = .error e) :
    e = .exportCount (ts.countP (·.isSpelled Keyword.exports.text)) := by
  simp only [exportedName] at h
  split at h
  · cases h
  · exact (Except.error.inj h).symm

end Schema.Parser

namespace Schema

open Schema.Parser

variable {said : String → Prop} {tokens : TokenStream} {e : CompileError}

/-- A text that is ready is refused for its structs as soon as one of them is. -/
theorem ofTokens_of_structs (hready : tokens.Ready) (h : Parser.structs ∅ tokens.tokens = .error e) :
    ofTokens tokens = .error e := by
  obtain ⟨⟨name, hname⟩, hstruct, hfield⟩ := hready
  have hne : tokens.tokens.isEmpty = false := by
    obtain ⟨t, ht, -⟩ := hstruct
    simpa using List.ne_nil_of_mem ht
  have hstruct : tokens.tokens.any (·.isSpelled Keyword.struct.text) = true := by simpa using hstruct
  have hfield : tokens.tokens.any (·.isSpelled Keyword.field.text) = true := by simpa using hfield
  simp [ofTokens, hne, hname, hstruct, hfield, h, bind, Except.bind]

/-- A text is refused as a whole, or it is ready and refused for its structs. -/
theorem outcome_ofTokens (hsaid : Says said tokens.tokens) :
    Outcome (fun e => e.RefusesFrame said tokens.tokens ∨
      tokens.Ready ∧ Parser.structs ∅ tokens.tokens = .error e) (fun _ => True) (ofTokens tokens) := by
  simp only [ofTokens]
  split
  · next hnone => exact .inl (List.isEmpty_iff.1 hnone)
  · next hne =>
    have hcount (e : CompileError) (he : exportedName tokens.tokens = .error e) :
        e.RefusesFrame said tokens.tokens := by
      obtain rfl := exportedName_eq_error he
      exact ⟨by simpa using hne, he⟩
    refine (Outcome.intro (fun e he => .inl (hcount e he)) fun name hname => hname).bind fun name hname => ?_
    split
    · next hnone => exact .inl (by simpa [CompileError.RefusesFrame] using hnone)
    · next hstruct =>
      split
      · next hnone => exact .inl (by simpa [CompileError.RefusesFrame] using hnone)
      · next hfield =>
        have hready : tokens.Ready := ⟨⟨name, hname⟩, by simpa using hstruct, by simpa using hfield⟩
        have hword : said name.lexeme := by
          obtain ⟨-, -, rfl⟩ := exportedName_eq_ok_iff.1 hname
          exact (hsaid.suffix (List.dropWhile_suffix _)).tail.first
        refine (Outcome.intro (fun e he => .inr ⟨hready, he⟩) fun _ _ => trivial).bind fun table _ =>
          (outcome_check fun fault hfault => .inl ⟨hword, fault, hfault, rfl⟩).bind fun _ _ => ?_
        split
        · exact trivial
        · exact .inl hword

/-- The analysis is about the references between structs. -/
theorem outcome_verdict (s : Schema) : Outcome CompileError.RefusesReferences (fun _ => True) s.verdict := by
  have hacyclic : Outcome CompileError.RefusesReferences (fun _ => True) s.checkAcyclic := by
    rcases s.checkAcyclic_cases with hok | ⟨e, he, hunsound⟩
    · rw [hok]
      exact trivial
    · rw [he]
      cases hunsound <;> exact trivial
  unfold verdict
  split
  · split
    · exact trivial
    · exact hacyclic
  · exact hacyclic

theorem parse_of_structs (hready : tokens.Ready) (h : Parser.structs ∅ tokens.tokens = .error e) :
    (parse tokens).result = .error e := by
  simp only [parse, analyze, Logged.result_bind, Logged.result_ofExcept, ofTokens_of_structs hready h]
  rfl

/-- A text is refused as a whole, for its structs, or for the references between them. -/
theorem parse_error_cases (hsaid : Says said tokens.tokens) (h : (parse tokens).result = .error e) :
    e.RefusesFrame said tokens.tokens ∨ (tokens.Ready ∧ Parser.structs ∅ tokens.tokens = .error e) ∨
      ∃ read, ofTokens tokens = .ok read ∧ read.markReferences.verdict = .error e := by
  simp only [parse, analyze, Logged.result_bind, Logged.result_ofExcept, Logged.result_tell, Logged.result_pure] at h
  cases hread : ofTokens tokens with
  | error e' =>
    obtain rfl : e' = e := by simpa [hread, bind, Except.bind] using h
    rcases (outcome_ofTokens hsaid).of_error hread with hframe | hstructs
    · exact .inl hframe
    · exact .inr (.inl hstructs)
  | ok read =>
    cases hverdict : read.markReferences.verdict with
    | error e' =>
      obtain rfl : e' = e := by simpa [hread, hverdict, bind, Except.bind] using h
      exact .inr (.inr ⟨read, rfl, hverdict⟩)
    | ok _ => simp [hread, hverdict, bind, Except.bind] at h

/-- The kinds of errors of the three stages. -/
theorem refuses_of_parse (hsaid : Says said tokens.tokens) (h : (parse tokens).result = .error e) :
    e.RefusesFrame said tokens.tokens ∨ e.RefusesStructs said ∨ e.RefusesReferences := by
  rcases parse_error_cases hsaid h with hframe | ⟨-, hstructs⟩ | ⟨read, -, hverdict⟩
  · exact .inl hframe
  · exact .inr (.inl ((refusesStructs_structs ∅ hsaid).of_error hstructs))
  · exact .inr (.inr ((outcome_verdict _).of_error hverdict))

end Schema

end BufferSchema
