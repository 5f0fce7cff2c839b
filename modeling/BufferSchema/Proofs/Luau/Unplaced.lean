import BufferSchema.Proofs.Luau.Reordering
import BufferSchema.Proofs.Schema.SameGraph
import BufferSchema.Proofs.Schema.Unplaced

/-!
# Layout never reaches the module

The analysis follows the references of a schema by their names, and what is generated for a struct is made of its
declaration. So neither of them sees a place, and together with the scanner and the parser they give the same module,
or the same error but for its places, to all texts that have the same lexemes.
-/

namespace BufferSchema

open Schema.Parser

/-! The analysis. -/

namespace Struct

theorem markAll_unplaced (t : Struct) (sources : List Struct) :
    t.unplaced.markAll (sources.map unplaced) = (t.markAll sources).unplaced := by
  induction sources generalizing t with
  | nil => rfl
  | cons source sources ih => exact ih (t.markReferencedBy source.name)

end Struct

namespace Schema

variable (s : Schema)

@[simp] theorem exports_unplaced : s.unplaced.exports = s.exports := rfl

@[simp] theorem keys_unplaced : s.unplaced.structs.keys = s.structs.keys := Table.keys_mapValues ..

@[simp] theorem find?_unplaced (name : String) :
    s.unplaced.structs.find? name = (s.structs.find? name).map Struct.unplaced :=
  find?_unplacedTable ..

/-- The references of a schema are the same without the places. -/
theorem sameGraph_unplaced : s.unplaced.SameGraph s where
  keys := s.keys_unplaced
  fields name := by rw [find?_unplaced, Option.map_map]; rfl
  references name := by rw [find?_unplaced, Option.map_map]; rfl

theorem referrers_unplaced (target : String) :
    s.unplaced.referrers target = (s.referrers target).map Struct.unplaced := by
  have hvalues : s.unplaced.structs.values = s.structs.values.map Struct.unplaced := by
    simp [unplaced, unplacedTable, Table.values, Table.mapValues, Function.comp_def]
  rw [referrers, hvalues, List.filter_map, referrers]
  rfl

/-- Places play no part in who refers to whom. -/
theorem markReferences_unplaced : s.unplaced.markReferences = s.markReferences.unplaced := by
  have hentries : s.unplaced.markReferences.structs = s.markReferences.unplaced.structs := by
    apply Table.ext_entries
    simp only [markReferences_structs, unplaced, unplacedTable, Table.mapValues, List.map_map]
    refine List.map_congr_left fun e _ => ?_
    have hmarked := e.2.markAll_unplaced (s.referrers e.1)
    rw [← referrers_unplaced] at hmarked
    exact congrArg (Prod.mk e.1) hmarked
  exact congrArg (fun structs => (⟨structs, s.exports⟩ : Schema)) hentries

theorem checkAcyclic_unplaced : s.unplaced.checkAcyclic = unplacedBy id s.checkAcyclic := by
  rw [s.sameGraph_unplaced.checkAcyclic_eq]
  rcases s.checkAcyclic_cases with hok | ⟨e, he, hunsound⟩
  · rw [hok]
    rfl
  · rw [he]
    cases hunsound <;> rfl

theorem verdict_unplaced : s.unplaced.verdict = unplacedBy id s.verdict := by
  rw [verdict, verdict, exported?, exported?, exports_unplaced, find?_unplaced, checkAcyclic_unplaced]
  cases s.structs.find? s.exports with
  | none => rfl
  | some t =>
    have hsame : t.unplaced.everReferenced = t.everReferenced := rfl
    dsimp only [Option.map_some]
    cases hreferenced : t.everReferenced with
    | true =>
      rw [if_pos (hsame.trans hreferenced), if_pos rfl]
      rfl
    | false => rw [if_neg (by simp [hsame, hreferenced]), if_neg (by simp)]

/-- Without places, the same schema is read, or the text is refused for the same. -/
theorem parse_unplaced (tokens : TokenStream) :
    (parse tokens.unplaced).result = unplacedBy unplaced (parse tokens).result := by
  simp only [parse, analyze, Logged.result_bind, Logged.result_ofExcept, Logged.result_tell, Logged.result_pure]
  refine unplacedBy_bind (ofTokens_unplaced tokens) fun read => ?_
  rw [markReferences_unplaced]
  refine unplacedBy_bind (verdict_unplaced _) fun _ => ?_
  rfl

/-! The order of helpers. -/

theorem helperOrder_unplaced : s.unplaced.helperOrder = s.helperOrder := by
  refine s.sameGraph_unplaced.helperOrder_eq rfl fun name => ?_
  rw [find?_unplaced, Option.map_map]
  rfl

theorem sameDeclarations_unplaced : s.unplaced.SameDeclarations s where
  exports := rfl
  declaration := fun name => by
    rw [find?_unplaced, Option.map_map]
    rfl

end Schema

/-! The module. -/

namespace Luau

variable {c : Config} {date : Timestamp} {s s' : Schema}

/-- A module is settled by what is declared under each name and by the order of helpers. -/
theorem slotContent_congr (h : s.SameDeclarations s') (horder : s.helperOrder = s'.helperOrder)
    {exported exported' : Struct} (hexported : s.exported? = some exported)
    (hexported' : s'.exported? = some exported') :
    slotContent c date s exported = slotContent c date s' exported' := by
  funext slot
  have hhelpers : ∀ {f : Struct → String}, Function.FactorsThrough f Struct.declaration →
      helpers s s.helperOrder f = helpers s' s'.helperOrder f := by
    intro f hf
    rw [helpers_congr h hf, horder]
  cases slot with
  | types => exact congrArg ("\n\n".intercalate ·) (hhelpers typeDeclaration_factors)
  | writers => exact congrArg ("\n".intercalate ·) (hhelpers writerHelper_factors)
  | readers => exact congrArg ("\n".intercalate ·) (hhelpers readerHelper_factors)
  | _ => exact slotContent_elsewhere h hexported hexported' (by simp) (by simp) (by simp)

/-- A module says nothing about the places in its schema. -/
theorem generate_unplaced (s : Schema) :
    (generate c date s.unplaced).result = unplacedBy id (generate c date s).result := by
  rw [result_generate, result_generate]
  cases hexported : s.exported? with
  | none =>
    have hnone : s.unplaced.exported? = none := by
      rw [Schema.exported?] at hexported ⊢
      simp [hexported]
    rw [hnone]
    rfl
  | some exported =>
    have hsome : s.unplaced.exported? = some exported.unplaced := by
      rw [Schema.exported?] at hexported ⊢
      simp [hexported]
    have hslots : slotContent c date s.unplaced exported.unplaced = slotContent c date s exported :=
      slotContent_congr s.sameDeclarations_unplaced s.helperOrder_unplaced hsome hexported
    rw [hsome]
    dsimp only [unplacedBy_ok]
    rw [hslots]
    rfl

/-- The whole way from the tokens to the module forgets places. -/
theorem compile_eq_of_scan (source : String) : unplacedBy id (compile c date source) =
    unplacedBy TokenStream.unplaced (TokenStream.scan source).result >>= fun tokens =>
      (Schema.parse tokens).result >>= fun s => (generate c date s).result := by
  have hcompile : compile c date source = (TokenStream.scan source).result >>= fun tokens =>
      (Schema.parse tokens).result >>= fun s => (generate c date s).result := by
    rw [compile, Schema.ofText]
    cases (TokenStream.scan source).result <;> rfl
  rw [hcompile]
  refine (unplacedBy_bind rfl fun tokens => ?_).symm
  exact unplacedBy_bind (Schema.parse_unplaced tokens) fun s => generate_unplaced s

/-- Texts that have the same lexemes, in kind and text, differ in their gaps and comments only. They are compiled to
the same file, or they fail with the same error but for the places in it. -/
theorem layout_ignored (c : Config) (date : Timestamp) {source source' : String}
    (h : (Lexeme.words .start source.toList).map (fun l => (l.kind, l.text)) =
      (Lexeme.words .start source'.toList).map fun l => (l.kind, l.text)) :
    (∃ file, compile c date source = .ok file ∧ compile c date source' = .ok file) ∨
      ∃ e e', compile c date source = .error e ∧ compile c date source' = .error e' ∧ e.unplaced = e'.unplaced := by
  have hsame : unplacedBy id (compile c date source) = unplacedBy id (compile c date source') := by
    rw [compile_eq_of_scan, compile_eq_of_scan, TokenStream.unplaced_scan h]
  cases hfirst : compile c date source with
  | ok file =>
    cases hsecond : compile c date source' with
    | ok file' =>
      rw [hfirst, hsecond] at hsame
      exact .inl ⟨file, rfl, congrArg _ (Except.ok.inj hsame).symm⟩
    | error e =>
      rw [hfirst, hsecond] at hsame
      cases hsame
  | error e =>
    cases hsecond : compile c date source' with
    | ok file =>
      rw [hfirst, hsecond] at hsame
      cases hsame
    | error e' =>
      rw [hfirst, hsecond] at hsame
      exact .inr ⟨e, e', rfl, rfl, Except.error.inj hsame⟩

theorem layout_of_pair_ignored :
    (Lexeme.words .start
        "struct A \x7b field map : u8 \x7d struct B \x7b field cursor [ 007 ] A \x7d exports B".toList).map
      (fun l => (l.kind, l.text)) =
    (Lexeme.words .start
        "// pair\nstruct A\x7bfield map:u8\x7d\n/* seven */ struct B\x7bfield cursor[007]A\x7d\nexports B//".toList).map
      (fun l => (l.kind, l.text)) ∧
    ∃ file, compile {} ⟨2024, 2, 29, 23, 59, 59⟩
        "struct A \x7b field map : u8 \x7d struct B \x7b field cursor [ 007 ] A \x7d exports B" = .ok file ∧
      compile {} ⟨2024, 2, 29, 23, 59, 59⟩
        "// pair\nstruct A\x7bfield map:u8\x7d\n/* seven */ struct B\x7bfield cursor[007]A\x7d\nexports B//" =
          .ok file := by
  obtain ⟨tokens, s, hscan, hparse, -⟩ := Schema.exists_accepted_pair
  obtain ⟨exported, -, hfile⟩ := @compile_of_ofText {} ⟨2024, 2, 29, 23, 59, 59⟩ s _
    (bind_eq_ok_iff.2 ⟨tokens, hscan, hparse⟩)
  have hwords : (Lexeme.words .start
        "struct A \x7b field map : u8 \x7d struct B \x7b field cursor [ 007 ] A \x7d exports B".toList).map
      (fun l => (l.kind, l.text)) =
    (Lexeme.words .start
        "// pair\nstruct A\x7bfield map:u8\x7d\n/* seven */ struct B\x7bfield cursor[007]A\x7d\nexports B//".toList).map
      (fun l => (l.kind, l.text)) := by decide +kernel
  refine ⟨hwords, ?_⟩
  rcases layout_ignored {} ⟨2024, 2, 29, 23, 59, 59⟩ hwords with hsame | ⟨e, _, he, -, -⟩
  · exact hsame
  · cases hfile.symm.trans he

end Luau

end BufferSchema
