import BufferSchema.Luau.Assembly
import BufferSchema.Proofs.Luau.Chunks
import BufferSchema.Proofs.Text.Replace

/-!
# The frame is filled at once

The slots of the frame are filled one after the other, and a content may look like the marker of a slot that is filled
later. This makes no difference. Each slot has a line of its own, so no content is on a line that is still to be
filled, and after any number of fills each line has either the marker or the content of its slot. So what is made in
the end is the frame with all markers replaced at once, in whichever order the slots are filled.
-/

namespace BufferSchema.Luau

open Text (written written_cons replaceAll replaceChars NoStart countStarts occurrences)

namespace Slot

theorem mem_all (s : Slot) : s ∈ all := by cases s <;> decide

theorem marker_ne_nil (s : Slot) : s.marker.toList ≠ [] := by cases s <;> decide

theorem eq_of_marker_prefixes {s s' : Slot} (h : s.marker.toList <+: s'.marker.toList) : s = s' := by
  have hall : ∀ s ∈ all, ∀ s' ∈ all, s.marker.toList <+: s'.marker.toList → s = s' := by decide +kernel
  exact hall s s.mem_all s' s'.mem_all h

theorem line_injective : Function.Injective line := by
  intro s s' h
  have hall : ∀ s ∈ all, ∀ s' ∈ all, s.line = s'.line → s = s' := by decide +kernel
  exact hall s s.mem_all s' s'.mem_all h

end Slot

namespace Template

variable {t : Template} {f g content : Slot → String} {slots : List Slot}

@[simp] theorem fill_nil : fill f [] = "" := rfl

@[simp] theorem fill_text (x : String) : fill f (.text x :: t) = x ++ fill f t := by
  rw [fill, List.map_cons, String.join_cons, fill]

@[simp] theorem fill_slot (s : Slot) : fill f (.slot s :: t) = f s ++ fill f t := by
  rw [fill, List.map_cons, String.join_cons, fill]

theorem fill_congr (h : ∀ s, .slot s ∈ t → f s = g s) : t.fill f = t.fill g := by
  induction t with
  | nil => rfl
  | cons p t ih =>
    have hrest := ih fun s hs => h s (List.mem_cons_of_mem p hs)
    cases p with
    | text x => rw [fill_text, fill_text, hrest]
    | slot s => rw [fill_slot, fill_slot, hrest, h s List.mem_cons_self]

/-! The markers in a frame are found where its slots are. -/

/-- What all markers start with. -/
def stems : List (List Char) := ["@slot(".toList, "-- @slot(".toList]

/-- No marker starts within the text. -/
def Clear (x : String) : Prop := NoStart stems x.toList

instance (x : String) : Decidable (Clear x) := inferInstanceAs (Decidable (NoStart stems x.toList))

theorem Clear.noStart {x : String} (h : Clear x) (slots : List Slot) :
    NoStart (slots.map (·.marker.toList)) x.toList := by
  have hstem (s : Slot) : ∃ stem ∈ stems, stem <+: s.marker.toList := by cases s <;> decide
  exact NoStart.of_stems h fun key hkey => by
    obtain ⟨s, -, rfl⟩ := List.mem_map.1 hkey
    exact hstem s

/-- Replacing the markers in a frame fills its slots. -/
theorem replaceAll_fill (content : Slot → String) (hclear : ∀ x, .text x ∈ t → Clear x)
    (hslots : ∀ s, .slot s ∈ t → s ∈ slots) :
    replaceAll (slots.map fun s => (s.marker, content s)) (t.fill Slot.marker) = t.fill content := by
  set pairs := slots.map fun s => (s.marker.toList, (content s).toList) with hpairs
  have hfree : ∀ p ∈ pairs, ∀ q ∈ pairs, p.1 <+: q.1 → p = q := by
    intro p hp q hq hstarts
    obtain ⟨s, -, rfl⟩ := List.mem_map.1 hp
    obtain ⟨s', -, rfl⟩ := List.mem_map.1 hq
    rw [Slot.eq_of_marker_prefixes hstarts]
  have hchars : replaceChars pairs 0 (t.fill Slot.marker).toList = (t.fill content).toList := by
    induction t with
    | nil => rfl
    | cons p t ih =>
      have hrest := ih (fun x hx => hclear x (List.mem_cons_of_mem p hx))
        fun s hs => hslots s (List.mem_cons_of_mem p hs)
      cases p with
      | text x =>
        have hstart : NoStart (pairs.map (·.1)) x.toList := by
          rw [hpairs, List.map_map]
          exact (hclear x List.mem_cons_self).noStart slots
        rw [fill_text, fill_text, String.toList_append, String.toList_append,
          Text.replaceChars_of_noStart hstart, hrest]
      | slot s =>
        have hmem : (s.marker.toList, (content s).toList) ∈ pairs :=
          List.mem_map.2 ⟨s, hslots s List.mem_cons_self, rfl⟩
        rw [fill_slot, fill_slot, String.toList_append, String.toList_append,
          Text.replaceChars_of_mem hfree hmem s.marker_ne_nil, hrest]
  rw [replaceAll, List.map_map]
  exact (congrArg String.ofList hchars).trans String.ofList_toList

/-- Within a marker, no marker starts but the marker itself. -/
theorem countStarts_marker (s s' : Slot) (rest : List Char) :
    countStarts s.marker.toList (s'.marker.toList ++ rest) =
      (if s' = s then 1 else 0) + countStarts s.marker.toList rest := by
  have hall : ∀ s ∈ Slot.all, NoStart (Slot.all.map (·.marker.toList)) s.marker.toList.tail := by decide +kernel
  obtain ⟨c, cs, hmarker⟩ := List.exists_cons_of_ne_nil s'.marker_ne_nil
  have htail : NoStart (Slot.all.map (·.marker.toList)) cs := by simpa [hmarker] using hall s' s'.mem_all
  have hstart : s.marker.toList <+: c :: (cs ++ rest) ↔ s' = s := by
    rw [← List.cons_append, ← hmarker]
    refine ⟨fun h => ?_, fun h => h ▸ List.prefix_append _ _⟩
    rcases List.prefix_or_prefix_of_prefix h (List.prefix_append s'.marker.toList rest) with h | h
    · exact (Slot.eq_of_marker_prefixes h).symm
    · exact Slot.eq_of_marker_prefixes h
  rw [hmarker, List.cons_append, countStarts,
    Text.countStarts_of_noStart htail (List.mem_map_of_mem s.mem_all)]
  simp only [hstart]

/-- A marker stands in the text of a frame as often as its slot is in the frame. -/
theorem occurrences_marker_fill (s : Slot) (hclear : ∀ x, .text x ∈ t → Clear x) :
    occurrences s.marker (t.fill Slot.marker) = t.count (.slot s) := by
  unfold occurrences
  induction t with
  | nil => rfl
  | cons p t ih =>
    have hrest := ih fun x hx => hclear x (List.mem_cons_of_mem p hx)
    cases p with
    | text x =>
      rw [fill_text, String.toList_append,
        Text.countStarts_of_noStart ((hclear x List.mem_cons_self).noStart Slot.all) (List.mem_map_of_mem s.mem_all),
        hrest]
      simp
    | slot s' =>
      rw [fill_slot, String.toList_append, countStarts_marker, hrest, List.count_cons]
      simp [Nat.add_comm]

/-! Filling one slot after the other. -/

variable {rows : List Template}

/-- Rows of a frame in which a slot is on the row with its number only, and in whose texts there are no markers. -/
structure LaidOut (rows : List Template) : Prop where
  line_of_mem : ∀ {i : Nat} {r : Template} {s : Slot}, rows[i]? = some r → .slot s ∈ r → s.line = i
  clear : ∀ r ∈ rows, ∀ x, .text x ∈ r → Clear x

/-- To fill a slot that still has its marker changes what the rows have in this slot, and nothing else. -/
theorem LaidOut.fillSlot {s : Slot} (h : LaidOut rows) (hf : f s = s.marker) :
    fillSlot content (rows.map (fill f)) s = rows.map (fill (Function.update f s (content s))) := by
  refine List.ext_getElem? fun i => ?_
  by_cases hi : s.line = i
  · rw [Luau.fillSlot, ← hi, List.getElem?_modify_eq, List.getElem?_map, List.getElem?_map]
    cases hr : rows[s.line]? with
    | none => rfl
    | some r =>
      have honly : ∀ s', .slot s' ∈ r → s' = s := fun s' hs' => Slot.line_injective (h.line_of_mem hr hs')
      have hbefore : r.fill f = r.fill Slot.marker := fill_congr fun s' hs' => by rw [honly s' hs', hf]
      have hafter : r.fill (Function.update f s (content s)) = r.fill content :=
        fill_congr fun s' hs' => by rw [honly s' hs', Function.update_self]
      rw [Option.map_some, Option.map_some, hbefore, hafter]
      exact congrArg some (replaceAll_fill content (h.clear r (List.mem_of_getElem? hr))
        fun s' hs' => List.mem_singleton.2 (honly s' hs'))
  · rw [Luau.fillSlot, List.getElem?_modify_ne _ _ hi, List.getElem?_map, List.getElem?_map]
    refine Option.map_congr fun r hr => fill_congr fun s' hs' => ?_
    have hne : s' ≠ s := fun heq => hi (heq ▸ h.line_of_mem hr hs')
    rw [Function.update_of_ne hne]

/-- After some of the slots have been filled, the rows have contents in these and markers in the others. -/
theorem LaidOut.foldl_fillSlot (h : LaidOut rows) (hnodup : slots.Nodup) (hf : ∀ s ∈ slots, f s = s.marker) :
    slots.foldl (Luau.fillSlot content) (rows.map (fill f)) =
      rows.map (fill fun s => if s ∈ slots then content s else f s) := by
  induction slots generalizing f with
  | nil => simp
  | cons s slots ih =>
    obtain ⟨hnew, hnodup⟩ := List.nodup_cons.1 hnodup
    have hunfilled : ∀ s' ∈ slots, Function.update f s (content s) s' = s'.marker := by
      intro s' hs'
      have hne : s' ≠ s := fun heq => hnew (heq ▸ hs')
      rw [Function.update_of_ne hne, hf s' (List.mem_cons_of_mem s hs')]
    rw [List.foldl_cons, h.fillSlot (hf s List.mem_cons_self), ih hnodup hunfilled]
    congr 2
    funext s'
    by_cases hs : s' = s
    · subst hs
      simp [hnew]
    · simp [hs]

/-! The frame of a module. -/

/-- The frame of a module line by line. -/
def codecRows : List Template := [
  [.text "--!strict"], [.text "--[["],
  [.text "    ****************************************************************************"],
  [.text "    * @file     : ", .slot .file], [.text "    * @author   : ", .slot .author],
  [.text "    * @date     : ", .slot .date], [.text "    * @brief    : ", .slot .brief],
  [.text "    ****************************************************************************"],
  [.text "    * Generated by squishy-compiler. Edit the schema and compile it again"],
  [.text "    * instead of changing this file."],
  [.text "    ****************************************************************************"], [.text "]]"], [],
  [.text "local writer = require(", .slot .writerModule, .text ")"],
  [.text "local reader = require(", .slot .readerModule, .text ")"], [],
  [.text "local sharedBuffer = buffer.create(writer.BUFFER_SIZE)"], [], [.text "local scheme = \x7b\x7d"], [],
  [.slot .types], [], [.slot .writers], [], [.slot .readers], [], [.slot .exportType], [], [.slot .writeSignature],
  [.text "    local buff = sharedBuffer"], [.text "    local cursor = 0"], [.slot .writeBody],
  [.text "    local out = buffer.create(cursor)"], [.text "    buffer.copy(out, 0, buff, 0, cursor)"],
  [.text "    return out"], [.text "end"], [], [.slot .readSignature], [.text "    local cursor = 0"],
  [.slot .readBody], [.slot .readReturn], [.text "end"], [], [.text "return scheme"]]

theorem fill_codecModule_eq_written (f : Slot → String) : codecModule.fill f = written (codecRows.map (fill f)) := by
  rw [fill_codecModule]
  exact congrArg written (by simp [codecRows, headerLines, String.append_assoc])

theorem map_fill_marker_codecRows : codecRows.map (fill Slot.marker) = frameLines := by
  simp [codecRows, frameLines, Slot.marker]

/-- The text of a part that is not a slot. -/
def text? : Part → Option String
  | .text x => some x
  | .slot _ => none

theorem clear_of_mem_codecRows {r : Template} {x : String} (hr : r ∈ codecRows) (hx : .text x ∈ r) : Clear x := by
  have hall : ∀ x ∈ codecRows.flatten.filterMap text?, Clear x := by decide +kernel
  exact hall x (List.mem_filterMap.2 ⟨.text x, List.mem_flatten.2 ⟨r, hr, hx⟩, rfl⟩)

theorem laidOut_codecRows : LaidOut codecRows where
  line_of_mem {i r s} hr hs := by
    have hall : ∀ q ∈ codecRows.zipIdx, ∀ s ∈ Slot.all, .slot s ∈ q.1 → s.line = q.2 := by decide +kernel
    exact hall (r, i) (List.mem_zipIdx_iff_getElem?.2 hr) s s.mem_all hs
  clear r hr x hx := clear_of_mem_codecRows hr hx

theorem lines_frameText : Text.lines frameText = codecRows.map (fill Slot.marker) := by
  have hlines : ∀ l ∈ frameLines, Text.OneLine l ∧ Text.stripReturn l = l := by decide +kernel
  rw [map_fill_marker_codecRows]
  exact Text.lines_written hlines

/-- In whichever order the slots are filled one after the other, this is to fill them at once. -/
theorem assemble_eq_fill (content : Slot → String) (h : slots.Perm Slot.all) :
    assemble content slots = codecModule.fill content := by
  have hnodup : slots.Nodup := h.nodup_iff.2 (by decide)
  have hfilled : (fun s => if s ∈ slots then content s else s.marker) = content :=
    funext fun s => if_pos (h.mem_iff.2 s.mem_all)
  have hne : codecRows.map (fill content) ≠ [] := by simp [codecRows]
  rw [assemble, lines_frameText, laidOut_codecRows.foldl_fillSlot hnodup fun _ _ => rfl, hfilled,
    Text.intercalate_append hne, fill_codecModule_eq_written]
  rfl

theorem fill_append (t t' : Template) : fill f (t ++ t') = fill f t ++ fill f t' := by
  simp [fill]

/-- The frame that has a line end behind each row. -/
def ofRows (rows : List Template) : Template := rows.flatMap (· ++ [.text "\n"])

theorem fill_ofRows (rows : List Template) (f : Slot → String) :
    (ofRows rows).fill f = written (rows.map (fill f)) := by
  induction rows with
  | nil => rfl
  | cons r rows ih =>
    rw [ofRows] at ih
    rw [ofRows, List.flatMap_cons, fill_append, fill_append, ih, List.map_cons, written_cons, fill_text, fill_nil,
      String.append_empty, String.append_assoc]

theorem clear_of_mem_ofRows {x : String} (hx : .text x ∈ ofRows codecRows) : Clear x := by
  obtain ⟨r, hr, hx⟩ := List.mem_flatMap.1 hx
  rcases List.mem_append.1 hx with hx | hx
  · exact clear_of_mem_codecRows hr hx
  · obtain rfl := Part.text.inj (List.mem_singleton.1 hx)
    decide +kernel

theorem frameText_eq_fill : frameText = (ofRows codecRows).fill Slot.marker := by
  rw [fill_ofRows, map_fill_marker_codecRows]
  rfl

theorem replaceAll_frameText (content : Slot → String) :
    replaceAll (Slot.all.map fun s => (s.marker, content s)) frameText = codecModule.fill content := by
  rw [frameText_eq_fill, replaceAll_fill content (fun x hx => clear_of_mem_ofRows hx) fun s _ => s.mem_all,
    fill_ofRows, fill_codecModule_eq_written]

theorem occurrences_marker (s : Slot) : occurrences s.marker frameText = 1 := by
  have hcount : ∀ s ∈ Slot.all, (ofRows codecRows).count (.slot s) = 1 := by decide +kernel
  rw [frameText_eq_fill, occurrences_marker_fill s fun x hx => clear_of_mem_ofRows hx, hcount s s.mem_all]

end Template

variable {c : Config} {date : Timestamp} {s : Schema} {exported : Struct}

/-- The module of a schema is the text of the frame, in which each marker stands once, with the content of each slot in
the place of its marker. All markers are replaced in one go through the text, so what a content looks like does not
matter. To replace them line by line comes to the same, in whichever order the slots are taken. -/
theorem render_replaces_markers (h : s.exported? = some exported) :
    (∀ slot : Slot, occurrences slot.marker frameText = 1) ∧
    (render c date s).result = .ok (replaceAll
      (Slot.all.map fun slot => (slot.marker, slotContent c date s exported slot)) frameText) ∧
    ∀ slots : List Slot, slots.Perm Slot.all →
      (render c date s).result = .ok (assemble (slotContent c date s exported) slots) := by
  have hrender : (render c date s).result = .ok (Template.codecModule.fill (slotContent c date s exported)) := by
    rw [render, h]
  refine ⟨Template.occurrences_marker, ?_, fun slots hslots => ?_⟩
  · rw [hrender, Template.replaceAll_frameText]
  · rw [hrender, Template.assemble_eq_fill _ hslots]

theorem render_replaces_markers_among_markers :
    let t : Struct := { name := "-- @slot(types)", position := .start }
    let s : Schema := { structs := ({} : Schema).structs.insert "@slot(author)" t, exports := "@slot(author)" }
    let c : Config := { author := "@slot(date)", runtimePath := "-- @slot(types)\n", outputDir := "" }
    let date : Timestamp := ⟨2024, 2, 29, 23, 59, 59⟩
    s.exported? = some t ∧
    (render c date s).result = .ok (replaceAll (Slot.all.map fun slot => (slot.marker, slotContent c date s t slot))
      frameText) := by
  intro t s c date
  have hexported : s.exported? = some t := by decide +kernel
  exact ⟨hexported, (render_replaces_markers hexported).2.1⟩

end BufferSchema.Luau
