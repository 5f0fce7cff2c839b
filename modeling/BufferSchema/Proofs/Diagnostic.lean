import BufferSchema.Diagnostic
import BufferSchema.Proofs.Luau.Failures
import BufferSchema.Proofs.Messages

/-!
# Reports of errors

A report without colours and call path is a text of lines, one for each error, since the message of an error that a
text is refused for has no line break in it. Adding errors to a report leaves the first one in its place, and with it
the exit status.
-/

namespace BufferSchema

open Text (Unbroken OneLine unbroken_append unbroken_toString written)

namespace Diagnostic

/-- The report of an error and of further ones, added one after the other. -/
def collect (e : CompileError) (es : List CompileError) : Diagnostic := es.foldl add { first := e }

/-- The line of the error with the number `i` among `n`. -/
def plainLine (n i : Nat) (e : CompileError) : String :=
  (if 1 < n then toString i ++ ": " else "") ++ "[ERROR] " ++ e.message

/-- The lines of a report, one for each error. -/
def plainLines (es : List CompileError) : List String := es.mapIdx (plainLine es.length)

variable {e : CompileError} {es : List CompileError}

theorem foldl_add (d : Diagnostic) (es : List CompileError) :
    es.foldl add d = { d with further := d.further ++ es } := by
  induction es generalizing d with
  | nil => simp
  | cons e es ih => rw [List.foldl_cons, ih, add, List.append_assoc, List.singleton_append]

theorem collect_eq (e : CompileError) (es : List CompileError) : collect e es = ⟨e, es⟩ := foldl_add _ es

theorem line_eq_plainLine (n i : Nat) (e : CompileError) :
    line false (decide (1 < n)) e i = plainLine n i e ++ "\n" := by
  have hmark : "[ERROR] " = "[ERROR]" ++ " " := rfl
  by_cases hn : 1 < n <;> simp [line, plainLine, hn, hmark, String.append_assoc]

/-- Without colours and call path, a report is the text of its lines. -/
theorem render_eq_written (d : Diagnostic) :
    d.render false false = written (plainLines d.errors) := by
  have hnumbered : (!d.further.isEmpty) = decide (1 < d.errors.length) := by
    cases hfurther : d.further <;> simp [errors, hfurther]
  simp only [render, plainLines, hnumbered, line_eq_plainLine, written, List.mapIdx_eq_zipIdx_map, List.map_map]
  simp [Function.comp_def]

theorem unbroken_plainLine (n i : Nat) (h : Unbroken e.message) : Unbroken (plainLine n i e) := by
  unfold plainLine
  split
  · simp only [unbroken_append]
    exact ⟨⟨⟨unbroken_toString i, by decide⟩, by decide⟩, h⟩
  · simp only [unbroken_append]
    exact ⟨⟨by decide, by decide⟩, h⟩

end Diagnostic

namespace Luau

open Diagnostic (collect plainLines collect_eq render_eq_written unbroken_plainLine)

variable {c : Config} {date : Timestamp} {source : String} {e : CompileError}

theorem unbroken_of_compile (h : compile c date source = .error e) : Unbroken e.message := by
  rcases compile_error_iff.1 h with hscan | ⟨tokens, hscan, hparse⟩
  · exact CompileError.unbroken_message (TokenStream.tells_of_scan hscan)
  · exact CompileError.unbroken_message (Schema.tells_of_parse (TokenStream.says_unbroken hscan) hparse)

/-- The message of an error that a compilation ends with has no line break. So a report of such errors is made of one
line for each of them, ended by a line feed. The exit status of a report is the one of its first error. -/
theorem report_lines :
    (∀ c date source e, compile c date source = .error e → Unbroken e.message) ∧
    (∀ e es, (collect e es).exitCode = e.code) ∧
    ∀ e es, (∀ x ∈ e :: es, ∃ c date source, compile c date source = .error x) →
      (collect e es).render false false = written (plainLines (e :: es)) ∧
      (plainLines (e :: es)).length = (e :: es).length ∧
      (∀ l ∈ plainLines (e :: es), Unbroken l) ∧
      Text.splitAt '\n' ((collect e es).render false false) = plainLines (e :: es) ++ [""] := by
  refine ⟨fun c date source e h => unbroken_of_compile h, fun e es => by rw [collect_eq]; rfl, ?_⟩
  intro e es hfailed
  have hlines : ∀ l ∈ plainLines (e :: es), Unbroken l := by
    intro l hl
    obtain ⟨i, hi, rfl⟩ := List.mem_mapIdx.1 hl
    obtain ⟨c, date, source, h⟩ := hfailed _ (List.getElem_mem hi)
    exact unbroken_plainLine _ i (unbroken_of_compile h)
  have hrender : (collect e es).render false false = written (plainLines (e :: es)) := by
    rw [render_eq_written, collect_eq]
    rfl
  refine ⟨hrender, List.length_mapIdx, hlines, ?_⟩
  rw [hrender]
  exact Text.splitAt_written fun l hl => (hlines l hl).oneLine

theorem report_lines_of_two :
    (collect .noTokens [.leadingToken "u8"]).render false false =
      written ["0: [ERROR] the input source has not been tokenized yet",
        "1: [ERROR] first token of a file must always be a keyword but got 'u8' instead"] := by
  refine (report_lines.2.2 .noTokens [.leadingToken "u8"] fun x hx => ?_).1
  rcases List.mem_cons.1 hx with rfl | hx
  · exact ⟨{}, ⟨2024, 1, 1, 0, 0, 0⟩, "", by decide +kernel⟩
  · obtain rfl := List.mem_singleton.1 hx
    exact ⟨{}, ⟨2024, 1, 1, 0, 0, 0⟩, "u8", by decide +kernel⟩

end Luau

end BufferSchema
