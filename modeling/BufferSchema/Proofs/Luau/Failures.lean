import BufferSchema.Proofs.Luau.Places
import BufferSchema.Proofs.Luau.WellScoped

/-!
# How a compilation can fail

Scanning, reading, analysing and generating look at a text and at nothing else, and what they tell of it is true. So
none of them fails for a reason that has to do with files: an error of this kind tells that a run has failed around the
compilation, and any other that the compilation has failed itself.
-/

namespace BufferSchema

/-- The errors about files and directories. -/
def CompileError.isOfFiles : CompileError → Bool
  | io .. | missingPath .. | pathIsDirectory .. | wrongExtension .. | outputNotDirectory .. => true
  | _ => false

/-- A result that is no error about files. -/
def Textual {α : Type} (r : Except CompileError α) : Prop := ∀ e, r = .error e → e.isOfFiles = false

theorem CompileError.Truthful.isOfFiles {source : String} {e : CompileError} (h : e.Truthful source) :
    e.isOfFiles = false := by
  cases e with
  | io | missingPath | pathIsDirectory | wrongExtension | outputNotDirectory => exact h.elim
  | _ => rfl

/-- No text fails to compile for a reason that has to do with files. -/
theorem Luau.textual_compile (c : Config) (date : Timestamp) (source : String) :
    Textual (compile c date source) := by
  intro e he
  have hhonest := honest_compile c date source
  rw [he] at hhonest
  exact hhonest.isOfFiles

namespace Luau

variable {c : Config} {date : Timestamp} {source : String} {tokens : TokenStream} {e : CompileError}

/-- A text that is scanned and parsed is rendered. -/
theorem exists_content_of_parse (hscan : (TokenStream.scan source).result = .ok tokens) {s : Schema}
    (hparse : (Schema.parse tokens).result = .ok s) : ∃ content, (render c date s).result = .ok content ∧
      compile c date source = .ok ⟨fileName s, content⟩ := by
  have htext : Schema.ofText source = .ok s := by simp [Schema.ofText, hscan, hparse, bind, Except.bind]
  obtain ⟨exported, hexported, hcompile⟩ := @compile_of_ofText c date s source htext
  exact ⟨_, by rw [render, hexported], hcompile⟩

/-- A text is compiled unless it is refused as it is scanned or parsed. -/
theorem compile_error_iff : compile c date source = .error e ↔
    (TokenStream.scan source).result = .error e ∨
      ∃ tokens, (TokenStream.scan source).result = .ok tokens ∧ (Schema.parse tokens).result = .error e := by
  cases hscan : (TokenStream.scan source).result with
  | error e' => simp [compile, Schema.ofText, hscan, bind, Except.bind]
  | ok tokens =>
    cases hparse : (Schema.parse tokens).result with
    | error e' => simp [compile, Schema.ofText, hscan, hparse, bind, Except.bind]
    | ok s =>
      obtain ⟨content, -, hcompile⟩ := @exists_content_of_parse c date source tokens hscan s hparse
      simp [hcompile, hparse]

end Luau

end BufferSchema
