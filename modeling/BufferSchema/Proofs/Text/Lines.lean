import BufferSchema.Proofs.Naming
import BufferSchema.Text.Blank
import BufferSchema.Text.Split

/-!
# Texts made of lines and words

A text that is put together from lines gives the lines back when it is split. At the front of a line, a word
reaches as far as its characters do, so two lines that start alike start with the same word.
-/

namespace BufferSchema.Text

/-! Lines. -/

/-- The text of some lines, each ended by a line feed. -/
def written (ls : List String) : String := String.join (ls.map (· ++ "\n"))

@[simp] theorem written_nil : written [] = "" := rfl

@[simp] theorem written_cons (l : String) (ls : List String) : written (l :: ls) = l ++ ("\n" ++ written ls) := by
  simp [written, String.append_assoc]

@[simp] theorem written_append (as bs : List String) : written (as ++ bs) = written as ++ written bs := by
  simp [written]

theorem written_flatMap {α : Type} (f : α → List String) (as : List α) :
    written (as.flatMap f) = String.join (as.map fun a => written (f a)) := by
  induction as with
  | nil => rfl
  | cons a as ih => rw [List.flatMap_cons, written_append, ih, List.map_cons, String.join_cons]

/-- The text has no line feed in it. -/
def OneLine (s : String) : Prop := '\n' ∉ s.toList

instance (s : String) : Decidable (OneLine s) := inferInstanceAs (Decidable ('\n' ∉ s.toList))

@[simp] theorem oneLine_append {a b : String} : OneLine (a ++ b) ↔ OneLine a ∧ OneLine b := by
  simp [OneLine, String.toList_append, not_or]

theorem oneLine_of_isNamePart {s : String} (h : ∀ c ∈ s.toList, isNamePart c = true) : OneLine s :=
  fun hmem => absurd (h '\n' hmem) (by decide)

theorem oneLine_of_isIdentifier {s : String} (h : IsIdentifier s.toList) : OneLine s :=
  oneLine_of_isNamePart h.isNamePart

/-- What holds of the characters of some texts and of a separator holds of those of the texts with the separator
between them. -/
theorem forall_mem_intercalate {p : Char → Prop} {sep : String} {ls : List String} (hsep : ∀ c ∈ sep.toList, p c)
    (h : ∀ l ∈ ls, ∀ c ∈ l.toList, p c) : ∀ c ∈ (sep.intercalate ls).toList, p c := by
  induction ls with
  | nil => rw [String.intercalate_nil]; simp
  | cons l ls ih =>
    cases ls with
    | nil =>
      rw [String.intercalate_singleton]
      exact h l List.mem_cons_self
    | cons m ms =>
      rw [String.intercalate_cons_cons, String.toList_append, String.toList_append]
      intro c hc
      rcases List.mem_append.1 hc with hc | hc
      · exact (List.mem_append.1 hc).elim (h l List.mem_cons_self c) (hsep c)
      · exact ih (fun x hx => h x (List.mem_cons_of_mem l hx)) c hc

theorem oneLine_intercalate {sep : String} {ls : List String} (hsep : OneLine sep) (h : ∀ l ∈ ls, OneLine l) :
    OneLine (sep.intercalate ls) := by
  have hne {s : String} (hs : OneLine s) : ∀ c ∈ s.toList, c ≠ '\n' := fun c hc heq => hs (heq ▸ hc)
  exact fun hmem => forall_mem_intercalate (hne hsep) (fun l hl => hne (h l hl)) _ hmem rfl

theorem isDigit_of_mem_toString (n : Nat) : ∀ c ∈ (toString n).toList, c.isDigit = true := by
  intro c hc
  rw [Nat.toString_eq_ofList_toDigits, String.toList_ofList] at hc
  exact Nat.isDigit_of_mem_toDigits (by decide) (by decide) hc

theorem oneLine_toString (n : Nat) : OneLine (toString n) :=
  oneLine_of_isNamePart fun c hc => isNamePart_of_isDigit (isDigit_of_mem_toString n c hc)

theorem oneLine_replicate (n : Nat) {c : Char} (hc : c ≠ '\n') : OneLine (String.ofList (List.replicate n c)) := by
  intro hmem
  rw [String.toList_ofList] at hmem
  exact hc (List.eq_of_mem_replicate hmem).symm

variable {sep : Char} {cs : List Char}

theorem pieces_append_cons (h : sep ∉ cs) (rest : List Char) :
    pieces sep (cs ++ sep :: rest) = cs :: pieces sep rest := by
  induction cs with
  | nil => rw [List.nil_append, pieces, if_pos rfl]
  | cons c cs ih =>
    rw [List.mem_cons, not_or] at h
    rw [List.cons_append, pieces, if_neg (Ne.symm h.1), ih h.2]

/-- Lines that are put together are found again, with nothing behind the last line feed. -/
theorem splitAt_written {ls : List String} (h : ∀ l ∈ ls, OneLine l) : splitAt '\n' (written ls) = ls ++ [""] := by
  induction ls with
  | nil => rfl
  | cons l ls ih =>
    have hchars : (written (l :: ls)).toList = l.toList ++ '\n' :: (written ls).toList := by
      rw [written_cons, String.toList_append, String.toList_append]
      rfl
    have hrest := ih fun x hx => h x (List.mem_cons_of_mem l hx)
    rw [splitAt, hchars, pieces_append_cons (h l List.mem_cons_self), List.map_cons, String.ofList_toList]
    rw [splitAt] at hrest
    rw [hrest, List.cons_append]

/-! Separators. -/

/-- A separator in front of every line, or between the lines and once more in front. -/
theorem append_intercalate {sep : String} {ls : List String} (h : ls ≠ []) :
    sep ++ sep.intercalate ls = String.join (ls.map (sep ++ ·)) := by
  induction ls with
  | nil => exact absurd rfl h
  | cons l ls ih =>
    cases ls with
    | nil => simp
    | cons m ms =>
      rw [String.intercalate_cons_cons, List.map_cons, String.join_cons, ← ih (List.cons_ne_nil m ms)]
      simp only [String.append_assoc]

/-- A separator behind every line, or between the lines and once more at the end. -/
theorem intercalate_append {sep : String} {ls : List String} (h : ls ≠ []) :
    sep.intercalate ls ++ sep = String.join (ls.map (· ++ sep)) := by
  induction ls with
  | nil => exact absurd rfl h
  | cons l ls ih =>
    cases ls with
    | nil => simp
    | cons m ms =>
      rw [String.intercalate_cons_cons, List.map_cons, String.join_cons, ← ih (List.cons_ne_nil m ms)]
      simp only [String.append_assoc]

/-! Words. -/

theorem toString_injective {m n : Nat} (h : toString m = toString n) : m = n := by
  have hread (k : Nat) : Nat.ofDigitChars 10 (toString k).toList 0 = k := by
    rw [Nat.toString_eq_ofList_toDigits, String.toList_ofList]
    exact Nat.ofDigitChars_toDigits (by decide) (by decide)
  rw [← hread m, h, hread n]

/-- Two words at the front of the same characters are the same, if each of them ends there. -/
theorem word_eq_of_isPrefix {w v r t : List Char} {x : Char} (hw : ∀ c ∈ w, isNamePart c = true)
    (hv : ∀ c ∈ v, isNamePart c = true) (hx : isNamePart x = false)
    (ht : ∀ c, t.head? = some c → isNamePart c = false) (h : w ++ x :: r <+: v ++ t) :
    w = v ∧ x :: r <+: t := by
  induction w generalizing v with
  | nil =>
    cases v with
    | nil => exact ⟨rfl, h⟩
    | cons c v =>
      obtain ⟨rfl, -⟩ := List.cons_prefix_cons.1 h
      simp [hv x List.mem_cons_self] at hx
  | cons a w ih =>
    have ha := hw a List.mem_cons_self
    cases v with
    | nil =>
      cases t with
      | nil => simp at h
      | cons c t =>
        obtain ⟨rfl, -⟩ := List.cons_prefix_cons.1 h
        simp [ht a rfl] at ha
    | cons c v =>
      obtain ⟨rfl, hrest⟩ := List.cons_prefix_cons.1 h
      obtain ⟨rfl, hr⟩ := ih (fun d hd => hw d (List.mem_cons_of_mem a hd))
        (fun d hd => hv d (List.mem_cons_of_mem a hd)) hrest
      exact ⟨rfl, hr⟩

/-! Trimming. -/

/-- What neither starts nor ends with a blank is left as it is. -/
theorem trimChars_eq_self (hhead : ∀ c, cs.head? = some c → isBlank c = false)
    (hlast : ∀ c, cs.getLast? = some c → isBlank c = false) : trimChars cs = cs := by
  have hdrop : ∀ {ds : List Char}, (∀ c, ds.head? = some c → isBlank c = false) → ds.dropWhile isBlank = ds := by
    intro ds hds
    cases ds with
    | nil => rfl
    | cons d ds => rw [List.dropWhile_cons_of_neg (by simp [hds d rfl])]
  rw [trimChars, hdrop hhead, hdrop fun c hc => hlast c (by rwa [List.head?_reverse] at hc), List.reverse_reverse]

theorem trimChars_cons_blank {c : Char} (hc : isBlank c = true) : trimChars (c :: cs) = trimChars cs := by
  rw [trimChars, List.dropWhile_cons_of_pos hc, trimChars]

end BufferSchema.Text
