import BufferSchema.Proofs.FileTree
import BufferSchema.Proofs.Luau.Assembly
import BufferSchema.Proofs.Luau.Lines

/-!
# Modules of one schema made at different times

The date stands on a line of its own, in the header. So two modules that are made of one schema at different times
differ in that line only: with the date masked they are the same text.
-/

namespace BufferSchema

open Luau (Template)

/-- Two results that are the same error, or values that `R` relates. -/
inductive EndsAlike {α β : Type} (R : α → β → Prop) : Except CompileError α → Except CompileError β → Prop
  | error (e : CompileError) : EndsAlike R (.error e) (.error e)
  | ok {a : α} {b : β} (h : R a b) : EndsAlike R (.ok a) (.ok b)

section

variable {α β α' β' : Type} {R : α → β → Prop} {S : α' → β' → Prop} {x : Except CompileError α}
  {y : Except CompileError β}

theorem EndsAlike.bind {f : α → Except CompileError α'} {g : β → Except CompileError β'} (h : EndsAlike R x y)
    (hfg : ∀ a b, R a b → EndsAlike S (f a) (g b)) : EndsAlike S (x >>= f) (y >>= g) := by
  cases h with
  | error e => exact .error e
  | ok h => exact hfg _ _ h

theorem EndsAlike.refl (x : Except CompileError α) : EndsAlike Eq x x := by
  cases x with
  | error e => exact .error e
  | ok a => exact .ok rfl

end

/-! Dates of one length. -/

namespace Timestamp

theorem utf8ByteSize_padded {width n : Nat} (hwidth : 0 < width) (h : n < 10 ^ width) :
    (padded width n).utf8ByteSize = width := by
  have hbytes : (padded width n).utf8ByteSize = (padded width n).length :=
    Text.utf8ByteSize_of_isNamePart fun c hc => Text.isNamePart_of_isDigit (isDigit_of_mem_padded width n c hc)
  have hdigits : (toString n).length ≤ width := by
    have hlength := (Nat.length_toDigits_le_iff (by decide) hwidth).2 h
    simpa [toString, Nat.repr] using hlength
  rw [hbytes, padded, String.length_append, String.length_ofList, List.length_replicate]
  omega

/-- All dates of the years 0 to 9999 are equally long. -/
theorem utf8ByteSize_text {t : Timestamp} (h : t.exists? = true) (hfirst : 0 ≤ t.year) (hlast : t.year ≤ 9999) :
    t.text.utf8ByteSize = 19 := by
  simp only [exists?, Bool.and_eq_true, decide_eq_true_eq] at h
  have hdays : daysIn t.year t.month ≤ 31 := by
    unfold daysIn
    split_ifs <;> decide
  have hyear : (yearText t.year).utf8ByteSize = 4 := by
    rw [yearText, if_neg (by omega), if_neg (by omega), utf8ByteSize_padded (by decide) (by omega)]
  have htwo : ∀ n, n < 100 → (padded 2 n).utf8ByteSize = 2 := fun n hn => utf8ByteSize_padded (by decide) hn
  simp only [text, toString, String.utf8ByteSize_append, hyear, htwo t.month (by omega), htwo t.day (by omega),
    htwo t.hour (by omega), htwo t.minute (by omega), htwo t.second (by omega)]
  decide

end Timestamp

/-! Texts without their dates. -/

/-- What stands in front of the date. -/
def Text.dateLabel : String := "    * @date     : "

/-- A line in which the date is masked, if it tells one. -/
def Text.undateLine (l : String) : String := if dateLabel.toList <+: l.toList then dateLabel ++ "?" else l

/-- A text in which the dates are masked. -/
def Text.undated (s : String) : String := "\n".intercalate ((splitAt '\n' s).map undateLine)

theorem Text.undateLine_dateLabel (date : String) : undateLine (dateLabel ++ date) = dateLabel ++ "?" := by
  rw [undateLine, if_pos]
  rw [String.toList_append]
  exact List.prefix_append _ _

theorem Text.splitAt_append (a b : String) : splitAt '\n' (a ++ ("\n" ++ b)) = splitAt '\n' a ++ splitAt '\n' b := by
  have hchars : (a ++ ("\n" ++ b)).toList = a.toList ++ '\n' :: b.toList := by
    rw [String.toList_append, String.toList_append]
    rfl
  rw [splitAt, hchars, pieces_append_sep, List.map_append, ← splitAt, ← splitAt]

/-- Which date stands on a line does not matter once it is masked. -/
theorem Text.undated_congr (front back : String) {date date' : String} (h : OneLine date) (h' : OneLine date') :
    undated (front ++ ("\n" ++ ((dateLabel ++ date) ++ ("\n" ++ back)))) =
      undated (front ++ ("\n" ++ ((dateLabel ++ date') ++ ("\n" ++ back)))) := by
  have hline : ∀ date, OneLine date → (splitAt '\n' (dateLabel ++ date)).map undateLine = [dateLabel ++ "?"] := by
    intro date h
    have hone : '\n' ∉ (dateLabel ++ date).toList := oneLine_append.2 ⟨by decide, h⟩
    rw [splitAt, pieces_of_not_mem hone, List.map_singleton, String.ofList_toList, List.map_singleton,
      undateLine_dateLabel]
  simp only [undated, splitAt_append, List.map_append, hline date h, hline date' h']

namespace Luau

variable {c : Config} {s : Schema}

/-- The date is the only content of a module that depends on when it is made. -/
theorem slotContent_of_ne_date {slot : Slot} (h : slot ≠ .date) (c : Config) (date date' : Timestamp) (s : Schema)
    (exported : Struct) : slotContent c date s exported slot = slotContent c date' s exported slot := by
  cases slot with
  | date => exact absurd rfl h
  | _ => rfl

/-- The frame around the date. -/
theorem Template.fill_codecModule_date (content : Slot → String) : codecModule.fill content =
    fill content (codecModule.take 8) ++
      ("\n" ++ ((Text.dateLabel ++ content .date) ++ ("\n" ++ fill content (codecModule.drop 12)))) := by
  have hsplit : codecModule = codecModule.take 8 ++
      (.text "\n" :: .text Text.dateLabel :: .slot .date :: .text "\n" :: codecModule.drop 12) := rfl
  rw [hsplit, fill_append, fill_text, fill_text, fill_slot, fill_text, String.append_assoc]
  rfl

/-- Two modules of one schema are the same on both sides of the date. -/
theorem exists_around_dates (c : Config) (date date' : Timestamp) (s : Schema) (exported : Struct) :
    ∃ front back, Template.codecModule.fill (slotContent c date s exported) =
        front ++ ("\n" ++ ((Text.dateLabel ++ date.text) ++ ("\n" ++ back))) ∧
      Template.codecModule.fill (slotContent c date' s exported) =
        front ++ ("\n" ++ ((Text.dateLabel ++ date'.text) ++ ("\n" ++ back))) := by
  have hcongr : ∀ t : Template, .slot .date ∉ t →
      t.fill (slotContent c date' s exported) = t.fill (slotContent c date s exported) := by
    intro t ht
    refine Template.fill_congr fun slot hslot => slotContent_of_ne_date ?_ c date' date s exported
    rintro rfl
    exact ht hslot
  refine ⟨_, _, Template.fill_codecModule_date _, ?_⟩
  rw [Template.fill_codecModule_date, hcongr _ (by decide), hcongr (Template.codecModule.drop 12) (by decide)]
  rfl

/-- Two files with one name, whose contents differ in dates at most. -/
structure SourceFile.SameUndated (f f' : SourceFile) : Prop where
  name : f.name = f'.name
  content : Text.undated f.content = Text.undated f'.content

theorem generate_undated (c : Config) (date date' : Timestamp) (s : Schema) :
    EndsAlike SourceFile.SameUndated (generate c date s).result (generate c date' s).result := by
  cases hexported : s.exported? with
  | none =>
    simp only [generate, render, hexported]
    exact .error _
  | some exported =>
    simp only [generate, render, hexported]
    obtain ⟨front, back, hfill, hfill'⟩ := exists_around_dates c date date' s exported
    refine .ok ⟨rfl, ?_⟩
    dsimp only
    rw [hfill, hfill']
    exact Text.undated_congr front back date.oneLine_text date'.oneLine_text

theorem compile_undated (c : Config) (date date' : Timestamp) (source : String) :
    EndsAlike SourceFile.SameUndated (compile c date source) (compile c date' source) :=
  (EndsAlike.refl (Schema.ofText source)).bind fun s _ h => h ▸ generate_undated c date date' s

/-- What is told while a module is made depends on its date by the length at most. -/
theorem events_generate {date date' : Timestamp} (h : date.text.utf8ByteSize = date'.text.utf8ByteSize) :
    (generate c date s).events = (generate c date' s).events := by
  cases hexported : s.exported? with
  | none =>
    simp only [generate, render, hexported]
  | some exported =>
    obtain ⟨front, back, hfill, hfill'⟩ := exists_around_dates c date date' s exported
    have hsize : (Template.codecModule.fill (slotContent c date s exported)).utf8ByteSize =
        (Template.codecModule.fill (slotContent c date' s exported)).utf8ByteSize := by
      simp only [hfill, hfill', String.utf8ByteSize_append, h]
    have hevents : ∀ date n, (Template.codecModule.fill (slotContent c date s exported)).utf8ByteSize = n →
        (generate c date s).events = renderEvents c s ++ [⟨.debug, s!"generated '{fileName s}' ({n} bytes)"⟩] := by
      rintro date n rfl
      simp only [generate, render, hexported]
      rfl
    rw [hevents date _ hsize, hevents date' _ rfl]

end Luau

end BufferSchema
