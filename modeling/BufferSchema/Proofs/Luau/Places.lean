import BufferSchema.Proofs.Luau.WellScoped
import BufferSchema.Proofs.Schema.Places

/-!
# The places that a failed compilation tells

Scanning and reading take the places in their errors from the tokens of the text, analysing and generating tell none.
So whatever a text is, the places in the error that it is refused with are where the text has what the error is about.
-/

namespace BufferSchema.Luau

variable {c : Config} {date : Timestamp} {source : String} {e : CompileError}

theorem honest_generate (s : Schema) : Honest source (fun _ => True) (generate c date s).result := by
  rw [result_generate]
  split <;> exact trivial

/-- Each stage is given what the one before it has made of the text. -/
theorem honest_compile (c : Config) (date : Timestamp) (source : String) :
    Honest source (fun _ => True) (compile c date source) := by
  have hread : Honest source (fun _ => True) (Schema.ofText source) :=
    (TokenStream.honest_scan source).bind fun _ hlocated => Schema.honest_parse hlocated
  exact hread.bind fun s _ => honest_generate s

/-- The error with which a text is not compiled tells the truth about the text: what was found stands where it says or
the text ends there, and the keyword or the mark that the error is about stands at the place given for it. -/
theorem places_truthful (h : compile c date source = .error e) : e.Truthful source := by
  have hhonest := honest_compile c date source
  rwa [h] at hhonest

/-- Two structs of one name, and the places of both. -/
theorem second_struct_placed :
    compile {} ⟨2024, 2, 29, 23, 59, 59⟩ "struct A \x7b field f u8 \x7d\n\tstruct A \x7b field g u8 \x7d exports A" =
        .error (.duplicateStruct "A" ⟨1, 1⟩ ⟨2, 2⟩) ∧
      Text.Position.Before ⟨1, 1⟩ ⟨2, 2⟩ ∧
      StructAt "struct A \x7b field f u8 \x7d\n\tstruct A \x7b field g u8 \x7d exports A" "A" ⟨1, 1⟩ ∧
      StructAt "struct A \x7b field f u8 \x7d\n\tstruct A \x7b field g u8 \x7d exports A" "A" ⟨2, 2⟩ := by
  have h : compile {} ⟨2024, 2, 29, 23, 59, 59⟩
      "struct A \x7b field f u8 \x7d\n\tstruct A \x7b field g u8 \x7d exports A" =
        .error (.duplicateStruct "A" ⟨1, 1⟩ ⟨2, 2⟩) := by
    decide +kernel
  exact ⟨h, places_truthful h⟩

end BufferSchema.Luau
