import BufferSchema.Proofs.Schema.Structs
import BufferSchema.Proofs.Schema.Verdict
import BufferSchema.Proofs.Token.Places
import BufferSchema.Schema.Reading

/-!
# Places in errors

Each error of the parser that has a place in it is about some token, and the place is that of this token. A function
of the parser is given the last tokens of the text and leaves the last of these. So each place that it takes from a
token is a place in the text, and the places handed down to it, of a keyword or an opening mark, are known to it as
such. `Honest` says this of what a function comes to, and is shown for one function after the other.
-/

namespace BufferSchema

open Text (Position)

/-- The places in the error are where the text has what the error is about. What was found and its place belong
together, the keyword or the opening mark that an error points to stands at the place given for it, and of two structs
with the same name the first comes first. An error that has no place tells nothing wrong, if it is about the text at
all and not about files. -/
def CompileError.Truthful (source : String) : CompileError → Prop
  | unknownOperator w p | invalidArraySize w p => StandsAt source w p
  | tokenAfterStruct w p | tokenBeforeField w p | typeExpected w p => Found source w p
  | bracketNotClosed openedAt w p => StandsAt source "[" openedAt ∧ Found source w p
  | fieldExpected _ p _ => p = .endOfInput ∨ ∃ w, StandsAt source w p ∧ w ≠ "\x7d" ∧ w ≠ "field"
  | structNameExpected p | builtinStructName _ p | structNotOpened p _ => StandsAt source "struct" p
  | duplicateStruct name p q => p.Before q ∧ StructAt source name p ∧ StructAt source name q
  | fieldNameExpected p => StandsAt source "field" p
  | mapValueMissing p | braceNotClosed p | mapKeywordExpected p => StandsAt source "\x7b" p
  | exportNameExpected p => StandsAt source "exports" p
  | io .. | missingPath .. | pathIsDirectory .. | wrongExtension .. | outputNotDirectory .. => False
  | _ => True

/-- A result of which `q` holds, or an error that tells the truth about the text. -/
def Honest {α : Type} (source : String) (q : α → Prop) : Except CompileError α → Prop
  | .ok a => q a
  | .error e => e.Truthful source

namespace Honest

variable {α β : Type} {source : String} {p : α → Prop} {q : β → Prop} {x : Except CompileError α}

theorem bind {f : α → Except CompileError β} (hx : Honest source p x) (hf : ∀ a, p a → Honest source q (f a)) :
    Honest source q (x >>= f) := by
  cases x with
  | error e => exact hx
  | ok a => exact hf a hx

theorem mono {p' : α → Prop} (hx : Honest source p x) (h : ∀ a, p a → p' a) : Honest source p' x := by
  cases x with
  | error e => exact hx
  | ok a => exact h a hx

end Honest

namespace Located

variable {source : String} {ts : List Token}

/-- The next token, if there is none the end of the text, is what its text and place say. -/
theorem found (h : Located source ts) : Found source (Token.first ts).lexeme (Token.first ts).position := by
  cases ts with
  | nil => exact .inr ⟨rfl, rfl⟩
  | cons t ts => exact .inl (h.standsAt List.mem_cons_self)

/-- A token with a given spelling is one of the text. -/
theorem standsAt_first (h : Located source ts) {w : String} (hw : (Token.first ts).isSpelled w = true) :
    StandsAt source w (Token.first ts).position := by
  obtain ⟨t, rest, rfl, hspelled⟩ := Token.exists_cons_of_isSpelled hw
  obtain ⟨-, rfl⟩ := Token.isSpelled_iff.1 hspelled
  exact h.standsAt List.mem_cons_self

/-- The next token is a number or a name of its kind only if there is one. -/
theorem exists_cons_of_kind {kind : Token.Kind} (h : (Token.first ts).kind = kind) (hkind : kind ≠ .endOfInput) :
    ∃ t rest, ts = t :: rest ∧ t.kind = kind := by
  cases ts with
  | nil => exact absurd h.symm hkind
  | cons t rest => exact ⟨t, rest, rfl, h⟩

/-- What is spelled differently from two words is the end of the text or some other lexeme of it. -/
theorem end_or_other (h : Located source ts) {v w : String} (hv : ¬ (Token.first ts).isSpelled v = true)
    (hw : ¬ (Token.first ts).isSpelled w = true) :
    (Token.first ts).position = .endOfInput ∨
      ∃ u, StandsAt source u (Token.first ts).position ∧ u ≠ v ∧ u ≠ w := by
  cases ts with
  | nil => exact .inl rfl
  | cons t ts =>
    rw [Token.first_cons, h.isSpelled_iff List.mem_cons_self] at hv hw
    exact .inr ⟨t.lexeme, h.standsAt List.mem_cons_self, hv, hw⟩

end Located

namespace Schema.Parser

open Token (first)

variable {source : String} {ts : List Token}

/-- What is left has come from the end of what there was. -/
def Leaves {α : Type} (ts : List Token) (a : α × List Token) : Prop := a.2 <:+ ts

theorem honest_suffix {α : Type} {us : List Token} {x : Except CompileError (α × List Token)}
    (hx : Honest source (Leaves us) x) (hus : us <:+ ts) : Honest source (Leaves ts) x :=
  hx.mono fun _ hleft => hleft.trans hus

theorem honest_check (name : String) : Honest source (fun _ => True) (Name.check name) := by
  unfold Name.check
  split <;> exact trivial

theorem honest_typeName {t : Token} (h : Found source t.lexeme t.position) :
    Honest source (fun _ => True) (typeName t) := by
  refine (honest_check _).bind fun _ _ => ?_
  split
  · exact trivial
  · exact h

theorem honest_arrayElement (shape : Shape) (h : Located source ts) :
    Honest source (Leaves ts) (arrayElement shape ts) :=
  (honest_typeName h.found).bind fun _ _ => List.tail_suffix ts

theorem honest_arrayType {p : Position} (hp : StandsAt source "[" p) (h : Located source ts) :
    Honest source (Leaves ts) (arrayType p ts) := by
  dsimp only [arrayType]
  split
  · next hint =>
    split
    · obtain ⟨t, rest, rfl, -⟩ := Located.exists_cons_of_kind hint (by simp)
      exact h.standsAt List.mem_cons_self
    · split
      · exact honest_suffix (honest_arrayElement _ h.tail.tail) ((List.tail_suffix _).trans (List.tail_suffix _))
      · exact ⟨hp, h.tail.found⟩
  · split
    · exact honest_suffix (honest_arrayElement _ h.tail) (List.tail_suffix _)
    · exact ⟨hp, h.found⟩

theorem honest_mapType {p : Position} (hp : StandsAt source "\x7b" p) (h : Located source ts) :
    Honest source (Leaves ts) (mapType p ts) := by
  dsimp only [mapType]
  split
  · exact hp
  · split
    · exact hp
    · split
      · exact hp
      · exact (honest_typeName h.found).bind fun _ _ =>
          (List.tail_suffix _).trans ((List.tail_suffix _).trans (List.tail_suffix _))

theorem honest_typeRef (h : Located source ts) : Honest source (Leaves ts) (typeRef ts) := by
  dsimp only [typeRef]
  split
  · next hbrace =>
    exact honest_suffix (honest_mapType (h.standsAt_first hbrace) h.tail) (List.tail_suffix _)
  · split
    · next hbracket =>
      exact honest_suffix (honest_arrayType (h.standsAt_first hbracket) h.tail) (List.tail_suffix _)
    · exact (honest_typeName h.found).bind fun _ _ => List.tail_suffix ts

theorem skipColon_suffix (ts : List Token) : skipColon ts <:+ ts := by
  unfold skipColon
  split
  · exact List.tail_suffix ts
  · exact List.suffix_refl ts

theorem honest_field {place : Position} (hplace : StandsAt source "field" place) (h : Located source ts) :
    Honest source (Leaves ts) (field place ts) := by
  refine (honest_check _).bind fun _ _ => ?_
  split
  · have hskip := (skipColon_suffix ts.tail).trans (List.tail_suffix ts)
    exact (honest_typeRef (h.suffix hskip)).bind fun _ hleft => hleft.trans hskip
  · exact hplace

/-- What is left, with the struct that was read, which has the name and the place of `s`. -/
structure Continues (s : Struct) (ts : List Token) (a : Struct × List Token) : Prop where
  name_eq : a.1.name = s.name
  position_eq : a.1.position = s.position
  leaves : Leaves ts a

theorem honest_fields (s : Struct) {place : Position} (hplace : StandsAt source "field" place)
    (h : Located source ts) : Honest source (Continues s ts) (fields s place ts) := by
  fun_induction fields s place ts with
  | case1 s place ts e hfield =>
    have hhonest := honest_field hplace h
    rwa [hfield] at hhonest
  | case2 => exact trivial
  | case3 s place ts f rest hfield _ next _ =>
    have hleft := honest_field hplace h
    rw [hfield] at hleft
    exact ⟨rfl, rfl, (List.tail_suffix rest).trans hleft⟩
  | case4 s place ts f rest hfield _ next _ hnext ih =>
    have hleft := honest_field hplace h
    rw [hfield] at hleft
    have hrest := h.suffix hleft
    refine (ih (hrest.standsAt_first hnext) hrest.tail).mono fun a ha => ?_
    exact ⟨ha.name_eq, ha.position_eq, ha.leaves.trans ((List.tail_suffix rest).trans hleft)⟩
  | case5 s place ts f rest hfield _ next hclose hnext =>
    have hleft := honest_field hplace h
    rw [hfield] at hleft
    exact (h.suffix hleft).end_or_other hclose hnext

theorem honest_body (s : Struct) (h : Located source ts) : Honest source (Continues s ts) (body s ts) := by
  dsimp only [body]
  split
  · exact ⟨rfl, rfl, List.tail_suffix ts⟩
  · split
    · next hfield =>
      refine (honest_fields s (h.standsAt_first hfield) h.tail).mono fun a ha => ?_
      exact ⟨ha.name_eq, ha.position_eq, ha.leaves.trans (List.tail_suffix ts)⟩
    · split
      · exact h.found
      · exact ⟨rfl, rfl, List.suffix_refl ts⟩

/-- The struct that starts at `place` has the name behind its keyword. -/
structure Introduces (place : Position) (ts : List Token) (a : Struct × List Token) : Prop where
  name : ∃ t rest, ts = t :: rest ∧ t.lexeme = a.1.name
  position_eq : a.1.position = place
  leaves : Leaves ts a

theorem honest_struct {place : Position} (hplace : StandsAt source "struct" place) (h : Located source ts) :
    Honest source (Introduces place ts) (struct place ts) := by
  refine (honest_check _).bind fun _ _ => ?_
  split
  · next hname =>
    split
    · exact hplace
    · dsimp only
      split
      · obtain ⟨t, rest, rfl, -⟩ := Located.exists_cons_of_kind hname (by simp)
        refine (honest_body _ h.tail.tail).mono fun a ha => ?_
        exact ⟨⟨t, rest, rfl, ha.name_eq.symm⟩, ha.position_eq,
          ha.leaves.trans ((List.tail_suffix _).trans (List.tail_suffix _))⟩
      · exact hplace
  · exact hplace

/-- The structs read so far stand in the text, each before all the tokens that are left. -/
def Behind (source : String) (known : Table Struct) (ts : List Token) : Prop :=
  ∀ name s, known.find? name = some s →
    StructAt source name s.position ∧ ∀ t ∈ ts, s.position.Before t.position

/-- A struct read behind its keyword stands at this keyword. -/
structure ReadAt (source : String) (keyword : Token) (rest : List Token) (a : Struct × List Token) : Prop where
  structAt : StructAt source a.1.name a.1.position
  position_eq : a.1.position = keyword.position
  leaves : Leaves rest a

/-- One round: the tokens up to a keyword are passed over, and a struct is read behind it. -/
theorem honest_round (h : Located source ts) {keyword : Token} {rest : List Token}
    (hdrop : ts.dropWhile (!·.isSpelled Keyword.struct.text) = keyword :: rest) :
    keyword :: rest <:+ ts ∧ Located source (keyword :: rest) ∧
      Honest source (ReadAt source keyword rest) (struct keyword.position rest) := by
  obtain ⟨hkeyword, skipped, hts, -⟩ := split_at_struct hdrop
  have hstart : keyword :: rest <:+ ts := ⟨skipped, hts.symm⟩
  have hlocated := h.suffix hstart
  have htext : keyword.lexeme = "struct" := (hlocated.isSpelled_iff List.mem_cons_self).1 hkeyword
  have hplace := hlocated.standsAt (t := keyword) List.mem_cons_self
  rw [htext] at hplace
  refine ⟨hstart, hlocated, (honest_struct hplace hlocated.tail).mono fun a ha => ?_⟩
  obtain ⟨t, us, rfl, hname⟩ := ha.name
  refine ⟨?_, ha.position_eq, ha.leaves⟩
  rw [ha.position_eq, ← hname]
  exact hlocated.structAt htext

/-- A struct that has just been read stands behind those read before it, and before what is left. -/
theorem Behind.insert {known : Table Struct} (hknown : Behind source known ts) {keyword : Token}
    {rest behind : List Token} (hstart : keyword :: rest <:+ ts) (h : Located source (keyword :: rest)) {s : Struct}
    (hread : ReadAt source keyword rest (s, behind)) : Behind source (known.insert s.name s) behind := by
  intro name t ht
  rw [Table.find?_insert] at ht
  split at ht
  · next hname =>
    obtain rfl : s = t := Option.some.inj ht
    rw [hname]
    refine ⟨hread.structAt, fun u hu => ?_⟩
    have hplace : s.position = keyword.position := hread.position_eq
    rw [hplace]
    exact h.before u (hread.leaves.mem hu)
  · obtain ⟨hearlier, hbefore⟩ := hknown name t ht
    refine ⟨hearlier, fun u hu => hbefore u ?_⟩
    exact hstart.mem (List.mem_cons_of_mem keyword (hread.leaves.mem hu))

theorem honest_structs {known : Table Struct} (hknown : Behind source known ts) (h : Located source ts) :
    Honest source (fun _ => True) (structs known ts) := by
  fun_induction structs known ts with
  | case1 => exact trivial
  | case2 known ts keyword rest hdrop e hs =>
    obtain ⟨-, -, hread⟩ := honest_round h hdrop
    rwa [hs] at hread
  | case3 known ts keyword rest hdrop s behind hs earlier hearlier =>
    obtain ⟨hstart, -, hread⟩ := honest_round h hdrop
    rw [hs] at hread
    obtain ⟨hfirst, hbefore⟩ := hknown s.name earlier hearlier
    refine ⟨?_, hfirst, hread.structAt⟩
    have hplace : s.position = keyword.position := hread.position_eq
    rw [hplace]
    exact hbefore keyword (hstart.mem List.mem_cons_self)
  | case4 => exact trivial
  | case5 known ts keyword rest hdrop s behind hs hnew next _ _ ih =>
    obtain ⟨hstart, hlocated, hread⟩ := honest_round h hdrop
    rw [hs] at hread
    exact ih (hknown.insert hstart hlocated hread) (hlocated.tail.suffix hread.leaves)
  | case6 known ts keyword rest hdrop s behind hs hnew next _ _ =>
    obtain ⟨-, hlocated, hread⟩ := honest_round h hdrop
    rw [hs] at hread
    exact (hlocated.tail.suffix hread.leaves).found

theorem honest_exportedName (ts : List Token) : Honest source (fun _ => True) (exportedName ts) := by
  dsimp only [exportedName]
  split <;> exact trivial

end Schema.Parser

namespace Schema

variable {source : String}

theorem honest_ofTokens {tokens : TokenStream} (h : Located source tokens.tokens) :
    Honest source (fun _ => True) (ofTokens tokens) := by
  simp only [ofTokens]
  split
  · exact trivial
  · refine (Parser.honest_exportedName _).bind fun exported _ => ?_
    split
    · exact trivial
    · split
      · exact trivial
      · refine (Parser.honest_structs (fun _ _ hfind => ?_) h).bind fun table _ =>
          (Parser.honest_check _).bind fun _ _ => ?_
        · cases hfind
        · split <;> exact trivial

/-- The analysis has no place to tell. -/
theorem honest_verdict (s : Schema) : Honest source (fun _ => True) s.verdict := by
  have hacyclic : Honest source (fun _ => True) s.checkAcyclic := by
    rcases s.checkAcyclic_cases with hok | ⟨e, he, hunsound⟩
    · rw [hok]
      exact trivial
    · rw [he]
      cases hunsound <;> exact trivial
  unfold verdict
  split
  · split
    · exact trivial
    · exact hacyclic
  · exact hacyclic

theorem honest_parse {tokens : TokenStream} (h : Located source tokens.tokens) :
    Honest source (fun _ => True) (parse tokens).result := by
  simp only [parse, analyze, Logged.result_bind, Logged.result_ofExcept, Logged.result_tell, Logged.result_pure]
  exact (honest_ofTokens h).bind fun _ _ => (honest_verdict _).bind fun _ _ => trivial

end Schema

/-- A scan fails at a lexeme of the text. -/
theorem TokenStream.honest_scan (source : String) :
    Honest source (fun s => Located source s.tokens) (scan source).result := by
  rcases scan_outcome source with ⟨e, he, i, l, hl, hfault, -⟩ | ⟨s, hs, -⟩
  · rw [he]
    cases hfault with
    | unknown => exact .of_mem (List.mem_map_of_mem (List.mem_of_getElem? hl))
    | leading => exact trivial
  · rw [hs]
    exact located_of_scan hs

end BufferSchema
