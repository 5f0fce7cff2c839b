import BufferSchema.Proofs.Luau.Contents
import BufferSchema.Proofs.Schema.Calls
import BufferSchema.Proofs.Schema.Causes
import BufferSchema.Proofs.Text.Breaks
import BufferSchema.Proofs.Token.Indexed

/-!
# Messages of one line

A message is made of fixed words, places, numbers and words of the text. A lexeme that is no comment has no line break
in it, and names that were read are made of letters, digits and underscores. So whatever a text is refused for, and
whatever characters it has, the message stays on one line.
-/

namespace BufferSchema

open Text (Position Unbroken unbroken_append unbroken_toString unbroken_singleton
  unbroken_intercalate)

/-- A character that a name is refused for is in it. -/
theorem Name.mem_of_fault? {name : String} {fault : Fault} (h : fault? name = some fault) {c : Char}
    (hfault : fault = .badStart c ∨ fault = .badCharacter c) : c ∈ name.toList := by
  unfold fault? at h
  split at h
  · rcases hfault with rfl | rfl <;> cases h
  · split at h
    · rcases hfault with rfl | rfl <;> cases h
    · next first rest hchars =>
      rw [hchars]
      split at h
      · rcases hfault with rfl | rfl <;> cases h
        exact List.mem_cons_self
      · split at h
        · next found hfound =>
          rcases hfault with rfl | rfl <;> cases h
          exact List.mem_cons_of_mem first (List.mem_of_find?_eq_some hfound)
        · obtain ⟨-, h⟩ := Option.ite_none_right_eq_some.1 h
          rcases hfault with rfl | rfl <;> cases h

namespace CompileError

/-- All words that the error has taken from elsewhere are `said`. -/
def Tells (said : String → Prop) : CompileError → Prop
  | invalidName name reason => said name ∧ said reason
  | io word | missingPath word | pathIsDirectory word | outputNotDirectory word => said word
  | wrongExtension path expected => said path ∧ said expected
  | unknownOperator word _ | leadingToken word | exportNotFound word | tokenAfterStruct word _ => said word
  | emptyStruct word | duplicateStruct word _ _ | structNotOpened _ word | bracketNotClosed _ word _ => said word
  | typeExpected word _ | builtinStructName word _ | tokenBeforeField word _ | invalidArraySize word _ => said word
  | fieldExpected field _ structName => said field ∧ said structName
  | duplicateField structName field => said structName ∧ said field
  | exportReferenced exported referencedBy => said exported ∧ ∀ name ∈ referencedBy, said name
  | unknownType name usedIn => said name ∧ said usedIn
  | selfReference name fields => said name ∧ ∀ field ∈ fields, said field
  | cyclicReference path => ∀ name ∈ path, said name
  | noTokens | exportCount _ | noStructs | noFields | exportNameExpected _ | structNameExpected _ => True
  | fieldNameExpected _ | mapKeywordExpected _ | braceNotClosed _ | mapValueMissing _ => True

/-- A message is on one line if all that it tells of the schema is. -/
theorem unbroken_message {e : CompileError} (h : e.Tells Unbroken) : Unbroken e.message := by
  have hself (w : String) : toString w = w := rfl
  have hposition (p : Position) : Unbroken (toString p) := p.unbroken_text
  -- Each message is a row of fixed words, places, numbers, and words that the error tells.
  cases e with
  | io detail => exact h
  | exportReferenced exported referencedBy =>
    have hnames := unbroken_intercalate (by decide : Unbroken ", ") h.2
    unfold message
    simp only [unbroken_append, hself, h.1, hnames, and_true]
    decide +kernel
  | selfReference name fields =>
    have hnames := unbroken_intercalate (by decide : Unbroken ", ") h.2
    unfold message
    simp only [unbroken_append, hself, h.1, hnames, and_true]
    decide +kernel
  | cyclicReference path =>
    have hnames := unbroken_intercalate (by decide : Unbroken " -> ") h
    unfold message
    simp only [unbroken_append, hself, hnames, and_true]
    decide +kernel
  | _ =>
    unfold message
    dsimp only [Tells] at h
    simp only [unbroken_append, hself, hposition, unbroken_toString, h, and_true]
    decide +kernel

theorem tells_of_fault {name : String} {fault : Name.Fault} (hname : Unbroken name)
    (h : Name.fault? name = some fault) : (invalidName name fault.text).Tells Unbroken := by
  have hsingle (c : Char) (hc : c ∈ name.toList) : Unbroken (toString c) := unbroken_singleton (hname c hc)
  refine ⟨hname, ?_⟩
  cases fault with
  | tooLong bytes =>
    unfold Name.Fault.text
    simp only [unbroken_append]
    exact ⟨⟨⟨by decide +kernel, unbroken_toString _⟩, by decide +kernel⟩, unbroken_toString _⟩
  | badStart c =>
    unfold Name.Fault.text
    simp only [unbroken_append]
    exact ⟨⟨by decide +kernel, hsingle c (Name.mem_of_fault? h (.inl rfl))⟩, by decide +kernel⟩
  | badCharacter c =>
    unfold Name.Fault.text
    simp only [unbroken_append]
    exact ⟨⟨by decide +kernel, hsingle c (Name.mem_of_fault? h (.inr rfl))⟩, by decide +kernel⟩
  | empty | reserved => decide +kernel

variable {e : CompileError} {ts : List Token}

theorem RefusesStruct.tells (h : e.RefusesStruct Unbroken) : e.Tells Unbroken := by
  cases e with
  | invalidName name reason =>
    obtain ⟨hname, fault, hfault, rfl⟩ := h
    exact tells_of_fault hname hfault
  | duplicateField | structNotOpened => exact h
  | fieldExpected => exact h.symm
  | typeExpected | builtinStructName | tokenBeforeField | invalidArraySize | bracketNotClosed => exact h
  | structNameExpected | fieldNameExpected | mapValueMissing | braceNotClosed | mapKeywordExpected => exact trivial
  | _ => exact h.elim

theorem RefusesStructs.tells (h : e.RefusesStructs Unbroken) : e.Tells Unbroken := by
  cases e with
  | emptyStruct | duplicateStruct | tokenAfterStruct => exact h
  | _ => exact RefusesStruct.tells h

theorem RefusesFrame.tells (h : e.RefusesFrame Unbroken ts) : e.Tells Unbroken := by
  cases e with
  | invalidName name reason =>
    obtain ⟨hname, fault, hfault, rfl⟩ := h
    exact tells_of_fault hname hfault
  | exportNotFound => exact h
  | noTokens | exportCount | noStructs | noFields => exact trivial
  | _ => exact h.elim

end CompileError

/-! The words of a text. -/

theorem Element.name_of_structName? {element : Element} {target : String} (h : element.structName? = some target) :
    element.name = target := by
  cases element with
  | builtin => cases h
  | struct name => exact Option.some.inj h

theorem Lexeme.Word.unbroken {kind : Lexeme.Kind} {w : String} (h : Lexeme.Word kind w.toList) : Unbroken w := by
  intro c hc
  generalize w.toList = cs at h hc
  cases h with
  | identifier hid =>
    exact Text.isLineBreak_eq_false_of_isBlank (Text.isBlank_eq_false_of_isNamePart (hid.isNamePart c hc))
  | int _ hdigits =>
    have hpart := Text.isNamePart_of_isDigit (hdigits c hc)
    exact Text.isLineBreak_eq_false_of_isBlank (Text.isBlank_eq_false_of_isNamePart hpart)
  | mark hblank =>
    obtain rfl := List.mem_singleton.1 hc
    exact Text.isLineBreak_eq_false_of_isBlank hblank

theorem TokenStream.says_unbroken {source : String} {tokens : TokenStream} (h : (scan source).result = .ok tokens) :
    Says Unbroken tokens.tokens where
  ending := by decide
  words := by
    intro t ht
    have htext : t.lexeme ∈ (Lexeme.words .start source.toList).map (·.text) :=
      (describes_of_scan h).map_lexeme ▸ List.mem_map_of_mem ht
    obtain ⟨l, hl, htext⟩ := List.mem_map.1 htext
    exact htext ▸ (Lexeme.word_of_mem_words hl).unbroken

theorem TokenStream.tells_of_scan {source : String} {e : CompileError} (h : (scan source).result = .error e) :
    e.Tells Unbroken := by
  obtain ⟨i, l, hl, hfault, -⟩ := (scan_eq_error_iff source e).1 h
  have hword := (Lexeme.word_of_mem_words (List.mem_of_getElem? hl)).unbroken
  cases hfault with
  | unknown => exact hword
  | leading => exact hword

namespace Schema

variable {tokens : TokenStream} {read : Schema} {e : CompileError}

/-- The words in the errors of the analysis are names that have been read. -/
theorem tells_of_verdict (hread : ofTokens tokens = .ok read) (h : read.markReferences.verdict = .error e) :
    e.Tells Unbroken := by
  obtain ⟨hunmarked, hexported⟩ := unmarked_of_ofTokens hread
  have hindexed := hunmarked.indexed.markReferences
  have hprintable {name : String} {t : Struct} (ht : read.markReferences.structs.find? name = some t) :
      t.Printable := printable_of_ofTokens hread ht
  have hname (name : String) (hmem : name ∈ read.markReferences.structs) : Unbroken name := by
    obtain ⟨t, ht⟩ := Table.exists_find?_of_mem hmem
    exact hindexed.name_of_find? ht ▸ Text.unbroken_of_isIdentifier (hprintable ht).name
  have hkeys (name : String) (hmem : name ∈ read.structs) : Unbroken name :=
    hname name (by rwa [Table.mem_iff, keys_markReferences])
  by_cases hrefers : ∃ source, read.outline.Refers source read.exports
  · rw [hunmarked.verdict_of_refers hexported hrefers] at h
    obtain rfl := Except.error.inj h
    exact ⟨hkeys _ hexported, fun name hmem => hkeys name (List.mem_of_mem_filter hmem)⟩
  · rw [hunmarked.verdict_of_not_refers hexported fun source hsource => hrefers ⟨source, hsource⟩] at h
    obtain ⟨path, good, name, hcall, hstop⟩ := checkAcyclic_eq_error_iff.1 h
    have hpath := fun p hp => hname p (hcall.mem_structs p hp)
    cases hstop with
    | back _ hback =>
      rw [revisit]
      split
      · refine ⟨hpath name hback, fun field hfield => ?_⟩
        obtain ⟨t, ht⟩ := Table.exists_find?_of_mem (hcall.mem_structs name hback)
        rw [ht, Option.map_some, Option.getD_some, Struct.fieldsReferencing] at hfield
        obtain ⟨f, hf, rfl⟩ := List.mem_map.1 hfield
        obtain ⟨i, -, hi⟩ := List.mem_filterMap.1 hf
        have hmem := List.mem_of_getElem? hi
        simp only [unbroken_append]
        exact ⟨⟨Text.unbroken_of_isIdentifier ((hprintable ht).fields f hmem), by decide⟩,
          Text.unbroken_of_isIdentifier ((hprintable ht).elements f hmem)⟩
      · intro p hp
        rcases List.mem_append.1 hp with hp | hp
        · exact hpath p (List.mem_reverse.1 hp)
        · exact List.mem_singleton.1 hp ▸ hpath name hback
    | missing _ _ hfind =>
      obtain ⟨usedIn, path, rfl⟩ := List.exists_cons_of_ne_nil (hcall.ne_nil_of_missing hfind)
      refine ⟨?_, hpath usedIn List.mem_cons_self⟩
      obtain ⟨t, ht⟩ := Table.exists_find?_of_mem (hcall.mem_structs usedIn List.mem_cons_self)
      have hrefersTo := hcall.refersTo
      rw [RefersTo, targets_of_find? ht] at hrefersTo
      obtain ⟨f, hf, htarget⟩ := ((hindexed _ (Table.find?_eq_some_iff.1 ht)).2 name).1 hrefersTo
      have helement := (hprintable ht).elements f hf
      rw [Element.name_of_structName? htarget] at helement
      exact Text.unbroken_of_isIdentifier helement

/-- Whatever a text is refused for, the words in the error have no line break in them. -/
theorem tells_of_parse (hsaid : Says Unbroken tokens.tokens) (h : (parse tokens).result = .error e) :
    e.Tells Unbroken := by
  rcases parse_error_cases hsaid h with hframe | ⟨-, hstructs⟩ | ⟨read, hread, hverdict⟩
  · exact hframe.tells
  · exact ((Parser.refusesStructs_structs ∅ hsaid).of_error hstructs).tells
  · exact tells_of_verdict hread hverdict

end Schema

end BufferSchema
