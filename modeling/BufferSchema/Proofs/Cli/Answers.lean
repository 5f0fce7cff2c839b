import BufferSchema.Cli.Prompt
import BufferSchema.Proofs.Cli.Actions
import BufferSchema.Proofs.Text.Characters
import Mathlib.Data.Nat.Find

/-!
# What the answers depend on

Three questions are answered by the first three lines of the input, one line each. The first line that is no text ends
the questions, and nothing behind it matters; where all three are texts, the settings are made of the three answers and
of nothing else.
-/

namespace BufferSchema

open Session

namespace Session

/-- The lines of an input. Each but perhaps the last one ends with a line feed, and only there has one. -/
def inputLines : List UInt8 → List (List UInt8)
  | [] => []
  | b :: bytes =>
    if b = lineFeed then [b] :: inputLines bytes
    else match inputLines bytes with
      | [] => [[b]]
      | line :: lines => (b :: line) :: lines

/-- A line of an input, counted from 0. Lines that are missing are empty. -/
def inputLine (bytes : List UInt8) (i : Nat) : List UInt8 := (inputLines bytes)[i]?.getD []

theorem splitLine_cons (b : UInt8) (bytes : List UInt8) : splitLine (b :: bytes) =
    if b = lineFeed then ([b], bytes) else (b :: (splitLine bytes).1, (splitLine bytes).2) := by
  by_cases hb : b = lineFeed <;> simp [splitLine, hb]

/-- Taking a line off an input takes off the first of its lines. -/
theorem inputLines_splitLine (bytes : List UInt8) :
    (splitLine bytes).1 = (inputLines bytes).headD [] ∧ inputLines (splitLine bytes).2 = (inputLines bytes).tail := by
  induction bytes with
  | nil => exact ⟨rfl, rfl⟩
  | cons b bytes ih =>
    rw [splitLine_cons, inputLines]
    split
    · exact ⟨rfl, rfl⟩
    · rw [ih.1, ih.2]
      cases inputLines bytes <;> exact ⟨rfl, rfl⟩

theorem inputLine_zero (bytes : List UInt8) : inputLine bytes 0 = (splitLine bytes).1 := by
  rw [(inputLines_splitLine bytes).1, inputLine, List.headD_eq_head?_getD, List.head?_eq_getElem?]

theorem inputLine_succ (bytes : List UInt8) (i : Nat) : inputLine bytes (i + 1) = inputLine (splitLine bytes).2 i := by
  rw [inputLine, inputLine, (inputLines_splitLine bytes).2, List.getElem?_tail]

end Session

namespace Prompt

variable {σ : Session} {questions : List String}

/-- The session after a question, one line of its input read. -/
def asked (σ : Session) (question : String) : Session :=
  { σ with printed := σ.printed ++ question, input := (splitLine σ.input).2 }

theorem outcome_ask (σ : Session) (question : String) : σ.outcome (ask question) =
    (match Text.decode? (splitLine σ.input).1 with
      | none => .error (.io Text.invalidEncoding)
      | some line => .ok (Text.trim line), asked σ question) := by
  have hprint : σ.outcome (Host.print (m := StateM Session) question) =
      (.ok (), { σ with printed := σ.printed ++ question }) := rfl
  have hread : ({ σ with printed := σ.printed ++ question } : Session).outcome (Host.readLine (m := StateM Session)) =
      (.ok (splitLine σ.input).1, asked σ question) := rfl
  unfold ask
  rw [outcome_bind_of_ok hprint, outcome_bind_of_ok hread]
  cases Text.decode? (splitLine σ.input).1 <;> rfl

/-- The answer that a line of the input gives, if the line is a text. -/
def answer? (bytes : List UInt8) (i : Nat) : Option String := (Text.decode? (inputLine bytes i)).map Text.trim

theorem answer?_eq_none_iff {bytes : List UInt8} {i : Nat} :
    answer? bytes i = none ↔ Text.decode? (inputLine bytes i) = none := Option.map_eq_none_iff

theorem answer?_asked (σ : Session) (question : String) (i : Nat) :
    answer? (asked σ question).input i = answer? σ.input (i + 1) := by
  rw [answer?, answer?, inputLine_succ]
  rfl

theorem outcome_ask_of_some (question : String) {answer : String} (h : answer? σ.input 0 = some answer) :
    σ.outcome (ask question) = (.ok answer, asked σ question) := by
  obtain ⟨line, hline, rfl⟩ := Option.map_eq_some_iff.1 h
  rw [inputLine_zero] at hline
  rw [outcome_ask, hline]

theorem outcome_ask_of_none (question : String) (h : answer? σ.input 0 = none) :
    σ.outcome (ask question) = (.error (.io Text.invalidEncoding), asked σ question) := by
  have hline := Option.map_eq_none_iff.1 h
  rw [inputLine_zero] at hline
  rw [outcome_ask, hline]

/-- Asks questions one after the other. -/
def askAll : List String → Action (List String)
  | [] => pure []
  | question :: questions => do
    let answer ← ask question
    let answers ← askAll questions
    pure (answer :: answers)

/-- The session after some questions. -/
def askedAll (σ : Session) (questions : List String) : Session := questions.foldl asked σ

theorem printed_askedAll (σ : Session) (questions : List String) :
    (askedAll σ questions).printed = σ.printed ++ String.join questions := by
  induction questions generalizing σ with
  | nil => simp [askedAll]
  | cons question questions ih =>
    rw [askedAll, List.foldl_cons, ← askedAll, ih, String.join_cons, ← String.append_assoc]
    rfl

/-- Where every line is a text, the questions are answered line by line. -/
theorem outcome_askAll {answers : List String} (hlength : answers.length = questions.length)
    (h : ∀ i < questions.length, answer? σ.input i = answers[i]?) :
    σ.outcome (askAll questions) = (.ok answers, askedAll σ questions) := by
  induction questions generalizing σ answers with
  | nil =>
    obtain rfl := List.eq_nil_of_length_eq_zero hlength
    rfl
  | cons question questions ih =>
    obtain ⟨answer, answers, rfl⟩ := List.exists_cons_of_length_eq_add_one hlength
    have hfirst : answer? σ.input 0 = some answer := h 0 (Nat.succ_pos _)
    have hrest : ∀ i < questions.length, answer? (asked σ question).input i = answers[i]? := by
      intro i hi
      rw [answer?_asked, h (i + 1) (Nat.succ_lt_succ hi), List.getElem?_cons_succ]
    rw [askAll, outcome_bind_of_ok (outcome_ask_of_some question hfirst),
      outcome_bind_of_ok (ih (Nat.succ.inj hlength) hrest)]
    rfl

/-- The first line that is no text ends the questions. -/
theorem outcome_askAll_of_error {i : Nat} (hi : i < questions.length) (hnone : answer? σ.input i = none)
    (hbefore : ∀ j < i, answer? σ.input j ≠ none) :
    σ.outcome (askAll questions) = (.error (.io Text.invalidEncoding), askedAll σ (questions.take (i + 1))) := by
  induction questions generalizing σ i with
  | nil => cases hi
  | cons question questions ih =>
    cases i with
    | zero =>
      rw [askAll, outcome_bind_of_error (outcome_ask_of_none question hnone)]
      rfl
    | succ i =>
      obtain ⟨answer, hfirst⟩ := Option.ne_none_iff_exists'.1 (hbefore 0 (Nat.succ_pos i))
      have hrest : ∀ j < i, answer? (asked σ question).input j ≠ none := by
        intro j hj
        rw [answer?_asked]
        exact hbefore (j + 1) (Nat.succ_lt_succ hj)
      have hstop := ih (σ := asked σ question) (Nat.lt_of_succ_lt_succ hi) ((answer?_asked σ question i).trans hnone)
        hrest
      rw [askAll, outcome_bind_of_ok (outcome_ask_of_some question hfirst), outcome_bind_of_error hstop]
      rfl

/-- The questions for the settings. -/
def all : List String := [forInput, forOutput, forDebug]

/-- The ways to write yes. -/
def yesSpellings : List String := ["y", "Y", "yes", "Yes", "yEs", "YEs", "yeS", "YeS", "yES", "YES"]

theorem isYes_iff (answer : String) : isYes answer = true ↔ answer ∈ yesSpellings := by
  have hy (c : Char) : c.toLower = 'y' ↔ c = 'y' ∨ c = 'Y' := Text.toLower_eq_iff (by decide) (by decide) (by decide)
  have he (c : Char) : c.toLower = 'e' ↔ c = 'e' ∨ c = 'E' := Text.toLower_eq_iff (by decide) (by decide) (by decide)
  have hs (c : Char) : c.toLower = 's' ↔ c = 's' ∨ c = 'S' := Text.toLower_eq_iff (by decide) (by decide) (by decide)
  simp only [isYes, yesSpellings, List.mem_cons, List.not_mem_nil, or_false, decide_eq_true_eq, ← String.toList_inj,
    String.toList_map]
  -- Only texts of one character or of three are left to compare.
  rcases answer.toList with _ | ⟨a, _ | ⟨b, _ | ⟨c, _ | ⟨d, ds⟩⟩⟩⟩ <;> simp [hy, he, hs]
  simp only [or_and_right, and_or_left, or_assoc]

end Prompt

namespace Settings

open Prompt (answer? askedAll)

variable {σ : Session}

/-- The settings are made of the answers to three questions. -/
theorem ask_eq : (ask : Action Settings) = Prompt.askAll Prompt.all >>= fun answers => pure
    { input := answers.getD 0 "", output := Prompt.outputOf (answers.getD 1 ""),
      debug := Prompt.isYes (answers.getD 2 ""), verbose := 0 } := by
  simp only [Prompt.all, Prompt.askAll, bind_assoc, pure_bind]
  rfl

theorem outcome_ask_of_answers {a b c : String} (ha : answer? σ.input 0 = some a) (hb : answer? σ.input 1 = some b)
    (hc : answer? σ.input 2 = some c) : σ.outcome ask =
      (.ok { input := a, output := Prompt.outputOf b, debug := Prompt.isYes c, verbose := 0 },
        askedAll σ Prompt.all) := by
  have hanswers : ∀ i < Prompt.all.length, answer? σ.input i = [a, b, c][i]? := by
    intro i hi
    match i, hi with
    | 0, _ => exact ha
    | 1, _ => exact hb
    | 2, _ => exact hc
  have hall : σ.outcome (Prompt.askAll Prompt.all) = (.ok [a, b, c], askedAll σ Prompt.all) :=
    Prompt.outcome_askAll rfl hanswers
  rw [ask_eq, outcome_bind_of_ok hall]
  rfl

theorem outcome_ask_of_error {i : Nat} (hi : i < 3) (hnone : Text.decode? (inputLine σ.input i) = none)
    (hbefore : ∀ j < i, Text.decode? (inputLine σ.input j) ≠ none) :
    σ.outcome ask = (.error (.io Text.invalidEncoding), askedAll σ (Prompt.all.take (i + 1))) := by
  rw [ask_eq, outcome_bind_of_error (Prompt.outcome_askAll_of_error hi (Prompt.answer?_eq_none_iff.2 hnone)
    fun j hj => Prompt.answer?_eq_none_iff.not.2 (hbefore j hj))]

end Settings

/-- **Questions are answered by the first three lines, and by nothing else.** They fail exactly where one of these lines
is no text. The first such line ends them: its question is the last one printed, whatever follows. Otherwise all three
are printed, and the settings are a function of the three lines, whatever follows. -/
theorem Settings.ask_reads_three_lines (σ : Session) :
    ((∃ e, (σ.outcome ask).1 = .error e) ↔ ∃ i < 3, Text.decode? (inputLine σ.input i) = none) ∧
    (∀ i < 3, Text.decode? (inputLine σ.input i) = none → (∀ j < i, Text.decode? (inputLine σ.input j) ≠ none) →
      ∀ τ : Session, (∀ j ≤ i, inputLine τ.input j = inputLine σ.input j) →
        (τ.outcome ask).1 = .error (.io Text.invalidEncoding) ∧
        (τ.outcome ask).2.printed = τ.printed ++ String.join (Prompt.all.take (i + 1))) ∧
    ∀ a b c, Text.decode? (inputLine σ.input 0) = some a → Text.decode? (inputLine σ.input 1) = some b →
      Text.decode? (inputLine σ.input 2) = some c →
      ∀ τ : Session, (∀ j < 3, inputLine τ.input j = inputLine σ.input j) →
        (τ.outcome ask).1 = .ok
          { input := Text.trim a, output := if Text.trim b = "" then "./" else Text.trim b,
            debug := decide (Text.trim c ∈ Prompt.yesSpellings), verbose := 0 } ∧
        (τ.outcome ask).2.printed = τ.printed ++ String.join Prompt.all := by
  refine ⟨⟨fun ⟨e, he⟩ => ?_, fun h => ?_⟩, fun i hi hnone hbefore τ hsame => ?_, fun a b c ha hb hc τ hsame => ?_⟩
  · by_contra hall
    have hanswer : ∀ i < 3, ∃ answer, Prompt.answer? σ.input i = some answer := fun i hi =>
      Option.ne_none_iff_exists'.1 fun hnone => hall ⟨i, hi, Prompt.answer?_eq_none_iff.1 hnone⟩
    obtain ⟨a, ha⟩ := hanswer 0 (by decide)
    obtain ⟨b, hb⟩ := hanswer 1 (by decide)
    obtain ⟨c, hc⟩ := hanswer 2 (by decide)
    rw [outcome_ask_of_answers ha hb hc] at he
    cases he
  · have hfirst := Nat.find_spec h
    have hbefore : ∀ j < Nat.find h, Text.decode? (inputLine σ.input j) ≠ none :=
      fun j hj hnone => Nat.find_min h hj ⟨hj.trans hfirst.1, hnone⟩
    exact ⟨_, congrArg Prod.fst (outcome_ask_of_error hfirst.1 hfirst.2 hbefore)⟩
  · have hstop : τ.outcome ask = _ :=
      outcome_ask_of_error hi (hsame i le_rfl ▸ hnone) fun j hj => hsame j hj.le ▸ hbefore j hj
    rw [hstop]
    exact ⟨rfl, Prompt.printed_askedAll _ _⟩
  · have hanswer : ∀ j < 3, ∀ line, Text.decode? (inputLine σ.input j) = some line →
        Prompt.answer? τ.input j = some (Text.trim line) := by
      intro j hj line hline
      rw [Prompt.answer?, hsame j hj, hline, Option.map_some]
    have hdone := outcome_ask_of_answers (hanswer 0 (by decide) a ha) (hanswer 1 (by decide) b hb)
      (hanswer 2 (by decide) c hc)
    have hyes : Prompt.isYes (Text.trim c) = decide (Text.trim c ∈ Prompt.yesSpellings) :=
      Bool.eq_iff_iff.2 ((Prompt.isYes_iff _).trans decide_eq_true_iff.symm)
    rw [hdone, hyes]
    exact ⟨rfl, Prompt.printed_askedAll _ _⟩

/-- Three answers with blanks around two of them, and an input whose second line is no text. -/
theorem Settings.ask_reads_answers_and_stops :
    ((({ input := Text.encode " s.sqy\u00a0\n\nYES\nmore" } : Session).outcome ask).1 =
        .ok { input := "s.sqy", output := "./", debug := true, verbose := 0 }) ∧
      (({ input := [0x73, 0x0a, 0xff, 0x0a, 0xfe] } : Session).outcome ask).1 = .error (.io Text.invalidEncoding) ∧
      (({ input := [0x73, 0x0a, 0xff, 0x0a, 0xfe] } : Session).outcome ask).2.printed =
        "path to the schema: output directory [./]: " := by
  constructor
  · obtain ⟨-, -, hanswers⟩ := ask_reads_three_lines { input := Text.encode " s.sqy\u00a0\n\nYES\nmore" }
    have hok := hanswers " s.sqy\u00a0\n" "\n" "YES\n" (by decide +kernel) (by decide +kernel) (by decide +kernel) _
      fun _ _ => rfl
    rw [hok.1]
    decide +kernel
  · obtain ⟨-, hstops, -⟩ := ask_reads_three_lines { input := [0x73, 0x0a, 0xff, 0x0a, 0xfe] }
    have hstop := hstops 1 (by decide) (by decide +kernel) (by decide +kernel) _ fun _ _ => rfl
    rw [hstop.1, hstop.2]
    exact ⟨rfl, by decide +kernel⟩

end BufferSchema
