import BufferSchema.Proofs.Text.Lines
import BufferSchema.Text.Replace

/-!
# Replacing texts

A text without a start of what is to be replaced stays as it is, and behind it the search goes on. A text that is to
be replaced gives way as a whole.
-/

namespace BufferSchema.Text

/-- Lines that are put together are found again. -/
theorem lines_written {ls : List String} (h : ∀ l ∈ ls, OneLine l ∧ stripReturn l = l) : lines (written ls) = ls := by
  have hstrip : ls.map stripReturn = ls := (List.map_congr_left fun l hl => (h l hl).2).trans (List.map_id' ls)
  have hlast : (ls ++ [""]).getLast?.toList.filter (· != "") = [] := by simp
  rw [lines, splitAt_written fun l hl => (h l hl).1, List.dropLast_concat, hstrip, hlast, List.append_nil]

variable {pairs : List (List Char × List Char)} {pair : List Char × List Char}

/-- None of the texts `keys` starts within `cs`, even if it could reach over the end. -/
def NoStart (keys : List (List Char)) : List Char → Prop
  | [] => True
  | c :: cs => (∀ key ∈ keys, ¬ key <+: c :: cs ∧ ¬ c :: cs <+: key) ∧ NoStart keys cs

instance decidableNoStart (keys : List (List Char)) : ∀ cs, Decidable (NoStart keys cs)
  | [] => inferInstanceAs (Decidable True)
  | _ :: cs => have := decidableNoStart keys cs; inferInstanceAs (Decidable (_ ∧ _))

/-- Where no text of `stems` starts, no longer one does. -/
theorem NoStart.of_stems {stems keys : List (List Char)} {cs : List Char} (h : NoStart stems cs)
    (hkeys : ∀ key ∈ keys, ∃ stem ∈ stems, stem <+: key) : NoStart keys cs := by
  induction cs with
  | nil => trivial
  | cons c cs ih =>
    refine ⟨fun key hkey => ?_, ih h.2⟩
    obtain ⟨stem, hstem, hstarts⟩ := hkeys key hkey
    obtain ⟨hshort, hlong⟩ := h.1 stem hstem
    exact ⟨fun hkey => hshort (hstarts.trans hkey),
      fun hcs => (List.prefix_or_prefix_of_prefix hcs hstarts).elim hlong hshort⟩

/-- The number of places at which `key` starts. -/
def countStarts (key : List Char) : List Char → Nat
  | [] => 0
  | c :: cs => (if key <+: c :: cs then 1 else 0) + countStarts key cs

/-- How often a text stands in another one. -/
def occurrences (key s : String) : Nat := countStarts key.toList s.toList

theorem NoStart.not_starts {keys : List (List Char)} {key : List Char} {c : Char} {cs : List Char}
    (h : NoStart keys (c :: cs)) (hkey : key ∈ keys) (rest : List Char) : ¬ key <+: c :: (cs ++ rest) := by
  intro hstarts
  obtain ⟨hshort, hlong⟩ := h.1 key hkey
  exact (List.prefix_or_prefix_of_prefix hstarts (List.prefix_append (c :: cs) rest)).elim hshort hlong

theorem countStarts_of_noStart {keys : List (List Char)} {key cs : List Char} (h : NoStart keys cs)
    (hkey : key ∈ keys) (rest : List Char) : countStarts key (cs ++ rest) = countStarts key rest := by
  induction cs with
  | nil => rfl
  | cons c cs ih => rw [List.cons_append, countStarts, if_neg (h.not_starts hkey rest), Nat.zero_add, ih h.2]

theorem replaceChars_skip (cs rest : List Char) :
    replaceChars pairs cs.length (cs ++ rest) = replaceChars pairs 0 rest := by
  induction cs with
  | nil => rfl
  | cons c cs ih => rw [List.length_cons, List.cons_append, replaceChars, ih]

theorem replaceChars_of_noStart {cs : List Char} (h : NoStart (pairs.map (·.1)) cs) (rest : List Char) :
    replaceChars pairs 0 (cs ++ rest) = cs ++ replaceChars pairs 0 rest := by
  induction cs with
  | nil => rfl
  | cons c cs ih =>
    have hnone : (pairs.find? fun pair => pair.1.isPrefixOf (c :: (cs ++ rest))) = none := by
      refine List.find?_eq_none.2 fun pair hpair => ?_
      rw [List.isPrefixOf_iff_prefix]
      exact h.not_starts (List.mem_map_of_mem hpair) rest
    rw [List.cons_append, replaceChars, hnone]
    exact congrArg (c :: ·) (ih h.2)

theorem replaceChars_of_find {rest : List Char} (hne : pair.1 ≠ [])
    (hfind : (pairs.find? fun pair' => pair'.1.isPrefixOf (pair.1 ++ rest)) = some pair) :
    replaceChars pairs 0 (pair.1 ++ rest) = pair.2 ++ replaceChars pairs 0 rest := by
  obtain ⟨c, cs, hkey⟩ := List.exists_cons_of_ne_nil hne
  rw [hkey, List.cons_append] at hfind ⊢
  rw [replaceChars, hfind]
  show pair.2 ++ replaceChars pairs (pair.1.length - 1) (cs ++ rest) = _
  rw [hkey, List.length_cons, Nat.add_sub_cancel, replaceChars_skip]

/-- If none of the texts that are to be replaced is the start of another one, then at the place of one of them it is
this one that is found. -/
theorem find_of_prefixFree (hfree : ∀ p ∈ pairs, ∀ q ∈ pairs, p.1 <+: q.1 → p = q) (hpair : pair ∈ pairs)
    (rest : List Char) : (pairs.find? fun p => p.1.isPrefixOf (pair.1 ++ rest)) = some pair := by
  cases hfound : pairs.find? fun p => p.1.isPrefixOf (pair.1 ++ rest) with
  | none =>
    have := List.find?_eq_none.1 hfound pair hpair
    rw [List.isPrefixOf_iff_prefix] at this
    exact absurd (List.prefix_append _ _) this
  | some p =>
    have hp := List.mem_of_find?_eq_some hfound
    have hfits : p.1.isPrefixOf (pair.1 ++ rest) = true := by simpa using List.find?_some hfound
    have hstarts := List.isPrefixOf_iff_prefix.1 hfits
    rcases List.prefix_or_prefix_of_prefix hstarts (List.prefix_append pair.1 rest) with h | h
    · rw [hfree p hp pair hpair h]
    · rw [hfree pair hpair p hp h]

theorem replaceChars_of_mem (hfree : ∀ p ∈ pairs, ∀ q ∈ pairs, p.1 <+: q.1 → p = q) (hpair : pair ∈ pairs)
    (hne : pair.1 ≠ []) (rest : List Char) :
    replaceChars pairs 0 (pair.1 ++ rest) = pair.2 ++ replaceChars pairs 0 rest :=
  replaceChars_of_find hne (find_of_prefixFree hfree hpair rest)

/-! One text, known by its first character. -/

theorem noStart_of_not_mem {c : Char} {key cs : List Char} (h : c ∉ cs) : NoStart [c :: key] cs := by
  induction cs with
  | nil => trivial
  | cons d cs ih =>
    rw [List.mem_cons, not_or] at h
    refine ⟨fun key' hkey' => ?_, ih h.2⟩
    obtain rfl := List.mem_singleton.1 hkey'
    exact ⟨fun hstarts => h.1 (List.cons_prefix_cons.1 hstarts).1,
      fun hstarts => h.1 (List.cons_prefix_cons.1 hstarts).1.symm⟩

section

variable {c : Char} {key value : String}

theorem replaceAll_append_of_not_mem (hkey : key.toList.head? = some c) {a : String} (ha : c ∉ a.toList) (b : String) :
    replaceAll [(key, value)] (a ++ b) = a ++ replaceAll [(key, value)] b := by
  obtain ⟨cs, hcs⟩ := List.head?_eq_some_iff.1 hkey
  have hstart : NoStart ([(key.toList, value.toList)].map (·.1)) a.toList := by
    rw [List.map_singleton, hcs]
    exact noStart_of_not_mem ha
  rw [replaceAll, replaceAll, String.toList_append, List.map_singleton, replaceChars_of_noStart hstart,
    String.ofList_append, String.ofList_toList]

theorem replaceAll_eq_self (hkey : key.toList.head? = some c) {a : String} (ha : c ∉ a.toList) :
    replaceAll [(key, value)] a = a := by
  have hempty : replaceAll [(key, value)] (a ++ "") = _ := replaceAll_append_of_not_mem hkey ha ""
  rw [String.append_empty] at hempty
  exact hempty.trans String.append_empty

theorem replaceAll_key_append (hkey : key.toList ≠ []) (b : String) :
    replaceAll [(key, value)] (key ++ b) = value ++ replaceAll [(key, value)] b := by
  have hfree : ∀ p ∈ [(key.toList, value.toList)], ∀ q ∈ [(key.toList, value.toList)], p.1 <+: q.1 → p = q :=
    fun p hp q hq _ => (List.mem_singleton.1 hp).trans (List.mem_singleton.1 hq).symm
  rw [replaceAll, replaceAll, String.toList_append, List.map_singleton,
    replaceChars_of_mem hfree (List.mem_singleton_self _) hkey, String.ofList_append, String.ofList_toList]

/-- What stands between some texts is replaced there, if no text has its first character. -/
theorem replaceAll_intercalate (hkey : key.toList.head? = some c) {sep : String} (hsep : c ∉ sep.toList)
    {ls : List String} (h : ∀ l ∈ ls, c ∉ l.toList) (b : String) :
    replaceAll [(key, value)] ((sep ++ key).intercalate ls ++ b) =
      (sep ++ value).intercalate ls ++ replaceAll [(key, value)] b := by
  have hne : key.toList ≠ [] := fun hnil => by simp [hnil] at hkey
  induction ls with
  | nil => rw [String.intercalate_nil, String.intercalate_nil, String.empty_append, String.empty_append]
  | cons l ls ih =>
    have hl := h l List.mem_cons_self
    cases ls with
    | nil => rw [String.intercalate_singleton, String.intercalate_singleton, replaceAll_append_of_not_mem hkey hl]
    | cons m ms =>
      have hrest := ih fun x hx => h x (List.mem_cons_of_mem l hx)
      rw [String.intercalate_cons_cons, String.intercalate_cons_cons]
      simp only [String.append_assoc] at hrest ⊢
      rw [replaceAll_append_of_not_mem hkey hl, replaceAll_append_of_not_mem hkey hsep, replaceAll_key_append hne,
        hrest]

end

end BufferSchema.Text
