import BufferSchema.Proofs.Luau.Soundness
import BufferSchema.Proofs.Table

/-!
# A runtime of bytes

A sound runtime with few codecs: numbers in one byte, and arrays of fixed length, whose elements stand behind
each other. All other codecs fail.
-/

namespace BufferSchema.Luau

section Items

variable {Buffer Cell Value : Type}

/-- Writes values behind each other. -/
def writeItems (w : Writer Buffer Value) (b : Buffer) (c : Nat) : List Value → Option (Buffer × Nat)
  | [] => some (b, c)
  | x :: xs => do
    let (b', c') ← w b c x
    writeItems w b' c' xs

/-- Reads as many values as asked for, one behind the other. -/
def readItems (r : Reader Buffer Value) (b : Buffer) : Nat → Nat → Option (Nat × List Value)
  | 0, c => some (c, [])
  | count + 1, c => do
    let (c', x) ← r b c
    let (c'', xs) ← readItems r b count c'
    some (c'', x :: xs)

variable {R : Runtime Buffer Cell Value} {P : Value → Prop} {w : Writer Buffer Value} {r : Reader Buffer Value}

/-- Items written one after the other leave alone what is in front of them, if each of them does. -/
theorem keeps_writeItems (hw : R.Keeps w) {xs : List Value} {b b' : Buffer} {c c' : Nat}
    (h : writeItems w b c xs = some (b', c')) : c ≤ c' ∧ R.Agree c b b' := by
  induction xs generalizing b c with
  | nil =>
    obtain ⟨rfl, rfl⟩ := Prod.mk.inj (Option.some.inj h)
    exact ⟨Nat.le_refl c, .refl c b⟩
  | cons x xs ih =>
    simp only [writeItems, bind, Option.bind_eq_some_iff] at h
    obtain ⟨⟨b₁, c₁⟩, hfirst, hrest⟩ := h
    obtain ⟨hle, hagree⟩ := hw _ _ _ _ _ hfirst
    obtain ⟨hle', hagree'⟩ := ih hrest
    exact ⟨by omega, hagree.trans (hagree'.mono hle)⟩

/-- Items are read back one after the other, also from a buffer that has been written to further on. -/
theorem readItems_of_writeItems (h : R.Carries P w r) {xs : List Value} (hxs : ∀ x ∈ xs, P x) {b b' : Buffer}
    {c c' : Nat} (hwrite : writeItems w b c xs = some (b', c')) (b'' : Buffer) (hlater : R.Agree c' b' b'') :
    readItems r b'' xs.length c = some (c', xs) := by
  induction xs generalizing b c with
  | nil =>
    obtain ⟨-, rfl⟩ := Prod.mk.inj (Option.some.inj hwrite)
    rfl
  | cons x xs ih =>
    simp only [writeItems, bind, Option.bind_eq_some_iff] at hwrite
    obtain ⟨⟨b₁, c₁⟩, hfirst, hrest⟩ := hwrite
    obtain ⟨hle, hagree⟩ := keeps_writeItems h.keeps hrest
    have hread := h.inverts b c x b₁ c₁ (hxs x List.mem_cons_self) hfirst b'' (hagree.trans (hlater.mono hle))
    have hreads := ih (fun y hy => hxs y (List.mem_cons_of_mem x hy)) hrest
    simp only [List.length_cons, readItems, hread, hreads, bind, Option.bind_some]

theorem accepts_writeItems (h : Accepts P w) {xs : List Value} (hxs : ∀ x ∈ xs, P x) (b : Buffer) (c : Nat) :
    ∃ b' c', writeItems w b c xs = some (b', c') := by
  induction xs generalizing b c with
  | nil => exact ⟨b, c, rfl⟩
  | cons x xs ih =>
    obtain ⟨b₁, c₁, hfirst⟩ := h b c x (hxs x List.mem_cons_self)
    obtain ⟨b', c', hrest⟩ := ih (fun y hy => hxs y (List.mem_cons_of_mem x hy)) b₁ c₁
    refine ⟨b', c', ?_⟩
    simp only [writeItems, hfirst, bind, Option.bind_some]
    exact hrest

end Items

/-- Numbers, lists and records. -/
inductive Plain where
  | number (n : Nat)
  | list (items : List Plain)
  | record (entries : List (String × Plain))

namespace Plain

def entry? : Plain → String → Option Plain
  | record entries, name => entries.lookup name
  | _, _ => none

def writeByte : Writer (Nat → Nat) Plain := fun b c v =>
  match v with
  | number n => if n < 256 then some (Function.update b c n, c + 1) else none
  | _ => none

def readByte : Reader (Nat → Nat) Plain := fun b c => some (c + 1, number (b c))

def writeList (w : Writer (Nat → Nat) Plain) (count : Nat) : Writer (Nat → Nat) Plain := fun b c v =>
  match v with
  | list items => if items.length = count then writeItems w b c items else none
  | _ => none

def readList (r : Reader (Nat → Nat) Plain) (count : Nat) : Reader (Nat → Nat) Plain := fun b c =>
  (readItems r b count c).map fun (c', items) => (c', list items)

end Plain

/-- The runtime of bytes. -/
def bytes : Runtime (Nat → Nat) Nat Plain where
  cell b i := b i
  record := .record
  entry? := Plain.entry?
  entry?_record := fun entries hnodup _ he => (Table.find?_eq_some_iff (t := ⟨entries, hnodup⟩)).2 he
  write name extras :=
    match name, extras with
    | "write_u8", [] => Plain.writeByte
    | "write_array", [.writer w, .number count] => Plain.writeList w count
    | _, _ => fun _ _ _ => none
  read name extras :=
    match name, extras with
    | "read_u8", [] => Plain.readByte
    | "read_array", [.reader r, .number count] => Plain.readList r count
    | _, _ => fun _ _ => none

/-- The values that the runtime of bytes is meant for. -/
def byteKinds : Kinds Plain where
  builtin b v := b = .u8 ∧ ∃ n, n < 256 ∧ v = .number n
  array count P v := ∃ items, items.length = count ∧ (∀ x ∈ items, P x) ∧ v = .list items
  dynamicArray _ _ := False
  bits _ _ := False
  dynamicBits _ := False
  map _ _ := False
  shortMap _ _ := False

namespace Plain

theorem carries_byte : bytes.Carries (byteKinds.builtin .u8) writeByte readByte := by
  constructor
  · intro b c v b' c' hwrite
    cases v with
    | number n =>
      simp only [writeByte, Option.ite_none_right_eq_some, Option.some.injEq, Prod.mk.injEq] at hwrite
      obtain ⟨-, rfl, rfl⟩ := hwrite
      refine ⟨by omega, fun i hi => ?_⟩
      show b i = Function.update b c n i
      rw [Function.update_of_ne (Nat.ne_of_lt hi)]
    | _ => cases hwrite
  · rintro b c v b' c' ⟨-, n, hn, rfl⟩ hwrite b'' hlater
    simp only [writeByte, if_pos hn, Option.some.injEq, Prod.mk.injEq] at hwrite
    obtain ⟨rfl, rfl⟩ := hwrite
    have hcell : Function.update b c n c = b'' c := hlater c (Nat.lt_succ_self c)
    rw [Function.update_self] at hcell
    rw [hcell]
    rfl

theorem carries_list {P : Plain → Prop} {w : Writer (Nat → Nat) Plain} {r : Reader (Nat → Nat) Plain}
    (count : Nat) (h : bytes.Carries P w r) :
    bytes.Carries (byteKinds.array count P) (writeList w count) (readList r count) := by
  constructor
  · intro b c v b' c' hwrite
    cases v with
    | list items =>
      simp only [writeList, Option.ite_none_right_eq_some] at hwrite
      exact keeps_writeItems h.keeps hwrite.2
    | _ => cases hwrite
  · rintro b c v b' c' ⟨items, rfl, hitems, rfl⟩ hwrite b'' hlater
    rw [writeList, if_pos rfl] at hwrite
    simp only [readList, readItems_of_writeItems h hitems hwrite b'' hlater, Option.map_some]

theorem carries_nothing {P : Plain → Prop} : bytes.Carries P (fun _ _ _ => none) fun _ _ => none :=
  ⟨fun _ _ _ _ _ hwrite => (Option.some_ne_none _ hwrite.symm).elim,
    fun _ _ _ _ _ _ hwrite => (Option.some_ne_none _ hwrite.symm).elim⟩

end Plain

theorem bytes_sound : bytes.Sound byteKinds where
  builtin b := by
    cases b with
    | u8 => exact Plain.carries_byte
    | _ => exact Plain.carries_nothing
  array count _ _ _ h := Plain.carries_list count h
  dynamicArray _ _ _ _ := Plain.carries_nothing
  bits _ := Plain.carries_nothing
  dynamicBits := Plain.carries_nothing
  map _ _ _ _ := Plain.carries_nothing
  shortMap _ _ _ _ := Plain.carries_nothing

theorem bytes_complete : bytes.Complete byteKinds where
  builtin b := by
    rintro buffer c v ⟨rfl, n, hn, rfl⟩
    exact ⟨_, _, if_pos hn⟩
  array count P w h := by
    rintro b c v ⟨items, rfl, hitems, rfl⟩
    obtain ⟨b', c', hwrite⟩ := accepts_writeItems h hitems b c
    exact ⟨b', c', (if_pos rfl).trans hwrite⟩
  dynamicArray _ _ _ _ _ _ h := h.elim
  bits _ _ _ _ h := h.elim
  dynamicBits _ _ _ h := h.elim
  map _ _ _ _ _ _ h := h.elim
  shortMap _ _ _ _ _ _ h := h.elim

end BufferSchema.Luau
