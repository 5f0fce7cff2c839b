import BufferSchema.Name
import BufferSchema.Proofs.Text.Characters
import BufferSchema.Token.Basic

/-!
# Names without fault

`Name.fault?` looks for the first fault of a name. `Name.Faultless` says what a name without any
is: an identifier of ASCII, not too long, and no reserved word. As every character of such a name
is one byte long, counting bytes and counting characters come to the same.
-/

namespace BufferSchema

namespace Text

/-- A letter or an underscore, and then letters, digits and underscores. -/
def IsIdentifier : List Char → Prop
  | [] => False
  | c :: cs => isNameStart c = true ∧ ∀ d ∈ cs, isNamePart d = true

instance (cs : List Char) : Decidable (IsIdentifier cs) :=
  match cs with
  | [] => isFalse id
  | c :: cs => decidable_of_iff (isNameStart c = true ∧ cs.all isNamePart = true) (by simp [IsIdentifier])

theorem IsIdentifier.isNamePart {cs : List Char} (h : IsIdentifier cs) :
    ∀ c ∈ cs, isNamePart c = true := by
  cases cs with
  | nil => exact h.elim
  | cons c cs =>
    intro d hd
    rcases List.mem_cons.1 hd with rfl | hd
    · exact isNamePart_of_isNameStart h.1
    · exact h.2 d hd

theorem IsIdentifier.ne_nil {cs : List Char} (h : IsIdentifier cs) : cs ≠ [] := by
  rintro rfl
  exact h

theorem IsIdentifier.append {cs ds : List Char} (h : IsIdentifier cs) (hds : ∀ d ∈ ds, Text.isNamePart d = true) :
    IsIdentifier (cs ++ ds) := by
  cases cs with
  | nil => exact h.elim
  | cons c cs =>
    refine ⟨h.1, fun d hd => ?_⟩
    rcases List.mem_append.1 hd with hd | hd
    · exact h.2 d hd
    · exact hds d hd

/-- Every character of a name takes one byte. -/
theorem utf8ByteSize_of_isNamePart {s : String} (h : ∀ c ∈ s.toList, isNamePart c = true) :
    s.utf8ByteSize = s.length := by
  rw [← String.ofList_toList (s := s), String.utf8ByteSize_ofList, String.length_ofList]
  generalize s.toList = cs at h
  induction cs with
  | nil => rfl
  | cons c cs ih =>
    have hc := utf8Size_of_isNamePart (h c List.mem_cons_self)
    have hcs := ih fun d hd => h d (List.mem_cons_of_mem c hd)
    simp [hc, hcs]

end Text

namespace Name

/-- What `fault?` finds nothing wrong with. -/
structure Faultless (name : String) : Prop where
  identifier : Text.IsIdentifier name.toList
  length_le : name.length ≤ maxLength
  unreserved : name ∉ reservedWords

theorem Faultless.fault?_eq_none {name : String} (h : Faultless name) : fault? name = none := by
  have hbytes := Text.utf8ByteSize_of_isNamePart h.identifier.isNamePart
  have hlength := h.length_le
  have hid := h.identifier
  unfold fault?
  rw [if_neg (by omega)]
  cases hcs : name.toList with
  | nil => rw [hcs] at hid; exact hid.elim
  | cons c cs =>
    rw [hcs] at hid
    have hfind : cs.find? (!Text.isNamePart ·) = none := by
      rw [List.find?_eq_none]
      intro d hd
      simp [hid.2 d hd]
    simp [hid.1, hfind, h.unreserved]

theorem faultless_of_fault? {name : String} (h : fault? name = none) : Faultless name := by
  unfold fault? at h
  split at h
  · cases h
  · next hbytes =>
    cases hcs : name.toList with
    | nil => simp [hcs] at h
    | cons c cs =>
      simp only [hcs] at h
      split at h
      · cases h
      · next hstart =>
        split at h
        · cases h
        · next hfind =>
          have hid : Text.IsIdentifier name.toList := by
            rw [hcs]
            refine ⟨by simpa using hstart, fun d hd => ?_⟩
            simpa using List.find?_eq_none.1 hfind d hd
          refine ⟨hid, ?_, ?_⟩
          · have := Text.utf8ByteSize_of_isNamePart hid.isNamePart
            omega
          · intro hr
            simp [hr] at h

/-- The check, which looks for faults one after the other, finds none exactly in a faultless name. -/
theorem fault?_eq_none_iff {name : String} : fault? name = none ↔ Faultless name :=
  ⟨faultless_of_fault?, Faultless.fault?_eq_none⟩

theorem check_eq_ok_iff_faultless {name : String} : check name = .ok () ↔ Faultless name :=
  check_eq_ok_iff.trans fault?_eq_none_iff

theorem Faultless.ne_nil {name : String} (h : Faultless name) : name.toList ≠ [] := h.identifier.ne_nil

end Name

end BufferSchema
