import BufferSchema.FileTree
import BufferSchema.Path

/-!
# What writing a file changes

Writing a file puts bytes at one place. The directories stay, so every path leads where it led before, and at every
other place stands what stood there. The place itself ends with the last name of the path.
-/

namespace BufferSchema

namespace FileTree

variable {t t' : FileTree} {place : List String} {path other : String} {bytes : List UInt8}

/-! The tree with a file at a place. -/

theorem lookup_filter_of_ne {nodes : List (List String × Node)} {q : List String} (h : q ≠ place) :
    (nodes.filter (·.1 != place)).lookup q = nodes.lookup q := by
  induction nodes with
  | nil => rfl
  | cons e nodes ih =>
    obtain ⟨k, node⟩ := e
    by_cases hk : k = place
    · subst hk
      have hb : (q == k) = false := by simpa using h
      simp [List.lookup_cons, hb, ih]
    · simp [hk, List.lookup_cons, ih]

theorem ne_nil_of_not_isDirectory (h : t.isDirectory place = false) : place ≠ [] := by
  rintro rfl
  cases h

theorem node?_set (h : place ≠ []) (node : Node) (q : List String) :
    (t.set place node).node? q = if q = place then some node else t.node? q := by
  unfold node? set
  by_cases hq : q = place
  · subst hq
    simp [h]
  · have hb : (q == place) = false := by simpa using hq
    simp [hq, List.lookup_cons, hb, lookup_filter_of_ne hq]

/-- A file in the place of no directory leaves all directories alone. -/
theorem isDirectory_set (h : t.isDirectory place = false) (q : List String) :
    (t.set place (.file bytes)).isDirectory q = t.isDirectory q := by
  unfold isDirectory
  rw [node?_set (ne_nil_of_not_isDirectory h)]
  by_cases hq : q = place
  · subst hq
    rw [if_pos rfl]
    exact h.symm
  · rw [if_neg hq]

/-! Paths lead through directories. -/

theorem walk_congr (h : ∀ q, t'.isDirectory q = t.isDirectory q) (place names : List String) :
    t'.walk place names = t.walk place names := by
  induction names generalizing place with
  | nil => rfl
  | cons name names ih => rw [walk, walk, h, ih, ih, ih]

theorem resolve?_set (h : t.isDirectory place = false) (path : String) :
    (t.set place (.file bytes)).resolve? path = t.resolve? path := by
  unfold resolve?
  rw [walk_congr (isDirectory_set h)]
  rfl

theorem write?_eq_some_iff : t.write? path bytes = some t' ↔
    ∃ place, t.resolve? path = some place ∧ t.isDirectory place = false ∧ t' = t.set place (.file bytes) := by
  unfold write?
  cases t.resolve? path with
  | none => simp
  | some place =>
    cases hdir : t.isDirectory place with
    | true => simp [hdir]
    | false =>
      simp only [Bool.false_eq_true, if_false, Option.some.injEq, exists_eq_left', hdir, true_and]
      exact eq_comm

theorem resolve?_write (h : t.write? path bytes = some t') (other : String) :
    t'.resolve? other = t.resolve? other := by
  obtain ⟨place, -, hdir, rfl⟩ := write?_eq_some_iff.1 h
  exact resolve?_set hdir other

theorem lookup?_write_self (h : t.write? path bytes = some t') : t'.lookup? path = some (.file bytes) := by
  obtain ⟨place, hplace, hdir, rfl⟩ := write?_eq_some_iff.1 h
  rw [lookup?, resolve?_set hdir, hplace, Option.bind_some, node?_set (ne_nil_of_not_isDirectory hdir), if_pos rfl]

/-- What stands at another place is not changed. -/
theorem node?_write_of_ne {q : List String} (h : t.write? path bytes = some t') (hne : t.resolve? path ≠ some q) :
    t'.node? q = t.node? q := by
  obtain ⟨place, hplace, hdir, rfl⟩ := write?_eq_some_iff.1 h
  rw [node?_set (ne_nil_of_not_isDirectory hdir), if_neg]
  rintro rfl
  exact hne hplace

/-- What stands where another path leads is not changed. -/
theorem lookup?_write_of_ne (h : t.write? path bytes = some t') (hne : t.resolve? path ≠ t.resolve? other) :
    t'.lookup? other = t.lookup? other := by
  rw [lookup?, resolve?_write h, lookup?]
  cases hother : t.resolve? other with
  | none => rfl
  | some q => exact node?_write_of_ne h (hother ▸ hne)

/-! The last name of a path. -/

/-- Names that stand for nothing lead nowhere else. -/
theorem walk_eq_of_trivial {names : List String} {q : List String} (h : t.walk place names = some q)
    (hnames : names.filter (fun name => name != "" && name != ".") = []) : q = place := by
  induction names with
  | nil => exact (Option.some.inj h).symm
  | cons name names ih =>
    rw [List.filter_eq_nil_iff, List.forall_mem_cons] at hnames
    have htrivial : name = "" ∨ name = "." := by
      have := hnames.1
      simp only [Bool.and_eq_true, bne_iff_ne, ne_eq, not_and, Decidable.not_not] at this
      exact Classical.or_iff_not_imp_left.2 this
    rw [walk] at h
    split at h
    · cases h
    · exact ih h (List.filter_eq_nil_iff.2 hnames.2)

/-- A walk ends with the last name that stands for something, unless that leads back. -/
theorem getLast?_walk {names : List String} {q : List String} (h : t.walk place names = some q) {name : String}
    (hlast : (names.filter fun name => name != "" && name != ".").getLast? = some name) (hne : name ≠ "..") :
    q.getLast? = some name := by
  induction names generalizing place with
  | nil => cases hlast
  | cons n names ih =>
    rw [walk] at h
    split at h
    · cases h
    · split at h
      · next htrivial =>
        have hdrop : (n != "" && n != ".") = false := by rcases htrivial with rfl | rfl <;> rfl
        rw [List.filter_cons, hdrop] at hlast
        exact ih h hlast
      · next htrivial =>
        have hkeep : (n != "" && n != ".") = true := by simpa [not_or] using htrivial
        rw [List.filter_cons, if_pos hkeep, List.getLast?_cons] at hlast
        cases hrest : (names.filter fun name => name != "" && name != ".").getLast? with
        | some m =>
          rw [hrest] at hlast
          obtain rfl : m = name := Option.some.inj hlast
          split at h
          · exact ih h hrest
          · obtain ⟨-, h⟩ := Option.ite_none_right_eq_some.1 h
            exact ih h hrest
        | none =>
          rw [hrest] at hlast
          obtain rfl : n = name := Option.some.inj hlast
          rw [if_neg hne] at h
          obtain ⟨-, h⟩ := Option.ite_none_right_eq_some.1 h
          rw [walk_eq_of_trivial h (List.getLast?_eq_none_iff.1 hrest)]
          simp

theorem getLast?_resolve? {q : List String} (h : t.resolve? path = some q) {name : String}
    (hlast : (Path.names path).getLast? = some name) (hne : name ≠ "..") : q.getLast? = some name := by
  obtain ⟨-, h⟩ := Option.ite_none_left_eq_some.1 h
  exact getLast?_walk h hlast hne

end FileTree

/-! The path of a file in a directory. -/

theorem Text.pieces_append_sep (sep : Char) (as bs : List Char) :
    Text.pieces sep (as ++ sep :: bs) = Text.pieces sep as ++ Text.pieces sep bs := by
  induction as with
  | nil => simp [Text.pieces]
  | cons a as ih =>
    by_cases h : a = sep
    · simp [Text.pieces, h, ih]
    · obtain ⟨p, ps, hp⟩ := List.exists_cons_of_ne_nil (Text.pieces_ne_nil sep as)
      simp [Text.pieces, h, ih, hp]

theorem Text.pieces_of_not_mem {sep : Char} {cs : List Char} (h : sep ∉ cs) : Text.pieces sep cs = [cs] := by
  induction cs with
  | nil => rfl
  | cons c cs ih =>
    rw [List.mem_cons, not_or] at h
    rw [Text.pieces, if_neg (Ne.symm h.1), ih h.2]

namespace Path

theorem isAbsolute_eq_false {name : String} (h : '/' ∉ name.toList) : isAbsolute name = false := by
  cases hcs : name.toList with
  | nil => simp [isAbsolute, hcs]
  | cons c cs =>
    rw [hcs, List.mem_cons, not_or] at h
    simpa [isAbsolute, hcs] using Ne.symm h.1

/-- The names of the path of a file in a directory: those of the directory, but for an empty one at the end, and the
name of the file. -/
theorem exists_splitAt_join (dir : String) {name : String} (hname : '/' ∉ name.toList) :
    ∃ front, (Text.splitAt '/' dir = front ++ [""] ∨ Text.splitAt '/' dir = front) ∧
      Text.splitAt '/' (join dir name) = front ++ [name] := by
  have hlast : Text.splitAt '/' name = [name] := by
    rw [Text.splitAt, Text.pieces_of_not_mem hname, List.map_singleton, String.ofList_toList]
  rw [join, isAbsolute_eq_false hname, if_neg Bool.false_ne_true]
  split
  · next hdir =>
    rcases hdir with hdir | hdir
    · obtain rfl : dir = "" := by rw [← String.ofList_toList (s := dir), hdir]
      refine ⟨[], .inl rfl, ?_⟩
      rw [String.empty_append, hlast, List.nil_append]
    · obtain ⟨front, hfront⟩ := List.getLast?_eq_some_iff.1 hdir
      refine ⟨(Text.pieces '/' front).map String.ofList, .inl ?_, ?_⟩
      · rw [Text.splitAt, hfront, Text.pieces_append_sep, List.map_append]
        rfl
      · rw [Text.splitAt, String.toList_append, hfront, List.append_assoc]
        rw [List.singleton_append, Text.pieces_append_sep, List.map_append]
        exact congrArg _ hlast
  · refine ⟨Text.splitAt '/' dir, .inr rfl, ?_⟩
    rw [Text.splitAt, String.toList_append, String.toList_append, List.append_assoc]
    have hslash : "/".toList ++ name.toList = '/' :: name.toList := rfl
    rw [hslash, Text.pieces_append_sep, List.map_append]
    exact congrArg _ hlast

/-- A file in a directory has its name as the last one of its path. -/
theorem getLast?_names_join (dir : String) {name : String} (hname : '/' ∉ name.toList) (hne : name ≠ "")
    (hdot : name ≠ ".") : (names (join dir name)).getLast? = some name := by
  obtain ⟨front, -, hsplit⟩ := exists_splitAt_join dir hname
  simp [names, hsplit, List.filter_append, hne, hdot]

/-- The extension is what stands behind the last dot. -/
theorem extensionOfName?_append {stem : String} (ext : String) (hstem : stem ≠ "") (hext : '.' ∉ ext.toList) :
    extensionOfName? (stem ++ ("." ++ ext)) = some ext := by
  have hreverse : (stem ++ ("." ++ ext)).toList.reverse = ext.toList.reverse ++ '.' :: stem.toList.reverse := by
    simp [String.toList_append]
  have hall : ∀ c ∈ ext.toList.reverse, (c != '.') = true := by
    intro c hc
    rw [bne_iff_ne]
    rintro rfl
    exact hext (List.mem_reverse.1 hc)
  unfold extensionOfName?
  rw [hreverse, List.takeWhile_append_of_pos hall, List.dropWhile_append_of_pos hall]
  simp [hstem]

end Path

/-! The place of a file in a directory. -/

namespace FileTree

variable {t : FileTree}

theorem walk_append (t : FileTree) (place front names : List String) :
    t.walk place (front ++ names) = (t.walk place front).bind fun q => t.walk q names := by
  induction front generalizing place with
  | nil => rfl
  | cons n front ih =>
    rw [List.cons_append, walk, walk]
    split
    · rfl
    · split
      · exact ih place
      · split
        · exact ih place.dropLast
        · split
          · exact ih (place ++ [n])
          · rfl

theorem start_join {dir name : String} (hdir : dir ≠ "") (hname : '/' ∉ name.toList) :
    t.start (Path.join dir name) = t.start dir := by
  have hhead : ∀ rest, (dir ++ rest).toList.head? = dir.toList.head? := by
    intro rest
    rw [String.toList_append]
    cases hcs : dir.toList with
    | nil => exact absurd (by rw [← String.ofList_toList (s := dir), hcs]) hdir
    | cons c cs => rfl
  rw [Path.join, Path.isAbsolute_eq_false hname, if_neg Bool.false_ne_true, start, start]
  split
  · rw [hhead]
  · rw [String.append_assoc, hhead]

theorem lookup?_eq_directory_iff {path : String} : t.lookup? path = some .directory ↔
    ∃ place, t.resolve? path = some place ∧ t.isDirectory place = true := by
  simp [lookup?, isDirectory, Option.bind_eq_some_iff]

/-- A name that a file can have in every directory. -/
structure IsPlainName (name : String) : Prop where
  slash : '/' ∉ name.toList
  ne_empty : name ≠ ""
  ne_here : name ≠ "."
  ne_above : name ≠ ".."
  isFileName : isFileName name = true

/-- A file in a directory stands right below it. -/
theorem resolve?_join {dir name : String} {place : List String} (hdir : t.resolve? dir = some place)
    (hnode : t.isDirectory place = true) (hname : IsPlainName name)
    (hlength : (Path.join dir name).utf8ByteSize ≤ maxPathBytes) :
    t.resolve? (Path.join dir name) = some (place ++ [name]) := by
  obtain ⟨hshort, hwalk⟩ := Option.ite_none_left_eq_some.1 hdir
  rw [not_or] at hshort
  obtain ⟨front, hfront, hsplit⟩ := Path.exists_splitAt_join dir hname.slash
  have hreach : t.walk (t.start dir) front = some place := by
    rcases hfront with hfront | hfront
    · rw [hfront, walk_append] at hwalk
      obtain ⟨q, hq, hempty⟩ := Option.bind_eq_some_iff.1 hwalk
      rw [hq, walk_eq_of_trivial hempty rfl]
    · rw [← hfront, hwalk]
  have hstep : t.walk place [name] = some (place ++ [name]) := by
    simp [walk, hnode, hname.ne_empty, hname.ne_here, hname.ne_above, hname.isFileName]
  have hne : Path.join dir name ≠ "" := by
    intro hempty
    have hlast : (Text.splitAt '/' "").getLast? = some name := by rw [← hempty, hsplit, List.getLast?_concat]
    exact hname.ne_empty (Option.some.inj hlast).symm
  rw [resolve?, if_neg (not_or.2 ⟨hne, Nat.not_lt.2 hlength⟩), start_join hshort.1 hname.slash, hsplit, walk_append,
    hreach]
  exact hstep

/-- Where the path of a file in a directory leads somewhere, it leads right below the directory. -/
theorem exists_resolve?_join {dir name : String} {q : List String} (hdir : t.lookup? dir = some .directory)
    (hname : IsPlainName name) (hq : t.resolve? (Path.join dir name) = some q) :
    ∃ place, t.resolve? dir = some place ∧ q = place ++ [name] := by
  obtain ⟨place, hplace, hnode⟩ := lookup?_eq_directory_iff.1 hdir
  obtain ⟨hshort, -⟩ := Option.ite_none_left_eq_some.1 hq
  rw [not_or, Nat.not_lt] at hshort
  exact ⟨place, hplace, Option.some.inj (hq.symm.trans (resolve?_join hplace hnode hname hshort.2))⟩

/-- A file can be written into every directory in which no directory has its name. -/
theorem exists_write?_join {dir name : String} (hdir : t.lookup? dir = some .directory) (hname : IsPlainName name)
    (hfree : t.lookup? (Path.join dir name) ≠ some .directory)
    (hlength : (Path.join dir name).utf8ByteSize ≤ maxPathBytes) (bytes : List UInt8) :
    ∃ t', t.write? (Path.join dir name) bytes = some t' := by
  obtain ⟨place, hplace, hnode⟩ := lookup?_eq_directory_iff.1 hdir
  have hjoin := resolve?_join hplace hnode hname hlength
  refine ⟨_, write?_eq_some_iff.2 ⟨place ++ [name], hjoin, ?_, rfl⟩⟩
  rw [Bool.eq_false_iff]
  exact fun h => hfree (lookup?_eq_directory_iff.2 ⟨_, hjoin, h⟩)

end FileTree

end BufferSchema
