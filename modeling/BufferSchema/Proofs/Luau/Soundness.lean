import BufferSchema.Proofs.Luau.Bodies

/-!
# What is asked of a runtime

A runtime is sound if its writers move forward, leave alone what stands in front of them, and its readers
give back what its writers wrote. It is complete if its writers refuse no value that they are meant for. A
codec of collections may count on this for the elements.
-/

namespace BufferSchema.Luau

variable {Buffer Cell Value : Type}

namespace Runtime

variable (R : Runtime Buffer Cell Value)

/-- The buffers hold the same in front of `c`. -/
def Agree (c : Nat) (b b' : Buffer) : Prop := ∀ i, i < c → R.cell b i = R.cell b' i

/-- The writer moves forward and changes nothing in front of it. -/
def Keeps (w : Writer Buffer Value) : Prop :=
  ∀ b c v b' c', w b c v = some (b', c') → c ≤ c' ∧ R.Agree c b b'

/-- Where the writer has written a value of the kind `P`, the reader gives it back, whatever is written later
at the end of it or behind. -/
def Inverts (P : Value → Prop) (w : Writer Buffer Value) (r : Reader Buffer Value) : Prop :=
  ∀ b c v b' c', P v → w b c v = some (b', c') → ∀ b'', R.Agree c' b' b'' → r b'' c = some (c', v)

/-- The writer and the reader carry the values of the kind `P`. -/
structure Carries (P : Value → Prop) (w : Writer Buffer Value) (r : Reader Buffer Value) : Prop where
  keeps : R.Keeps w
  inverts : R.Inverts P w r

end Runtime

/-- The writer can write every value of the kind `P`. -/
def Accepts (P : Value → Prop) (w : Writer Buffer Value) : Prop :=
  ∀ b c v, P v → ∃ b' c', w b c v = some (b', c')

/-- The values that the codecs of a runtime are meant for, those of collections by the values that the
elements may have. -/
structure Kinds (Value : Type) where
  builtin : Builtin → Value → Prop
  array : Nat → (Value → Prop) → Value → Prop
  dynamicArray : (Value → Prop) → Value → Prop
  bits : Nat → Value → Prop
  dynamicBits : Value → Prop
  map : (Value → Prop) → Value → Prop
  shortMap : (Value → Prop) → Value → Prop

namespace Kinds

variable (K : Kinds Value) (P : String → Value → Prop)

/-- The values of an element, where `P` tells the records of each struct. -/
def element : Element → Value → Prop
  | .builtin b => K.builtin b
  | .struct name => P name

/-- The values that a codec carries. -/
def codec : Codec → Value → Prop
  | .single e => K.element P e
  | .array e count => K.array count (K.element P e)
  | .dynamicArray e => K.dynamicArray (K.element P e)
  | .bits count => K.bits count
  | .dynamicBits => K.dynamicBits
  | .map e => K.map (K.element P e)
  | .shortMap e => K.shortMap (K.element P e)

end Kinds

namespace Runtime

variable (R : Runtime Buffer Cell Value)

/-- What the runtime modules promise. -/
structure Sound (K : Kinds Value) : Prop where
  builtin : ∀ b : Builtin, R.Carries (K.builtin b)
    (R.write ("write_" ++ b.name) []) (R.read ("read_" ++ b.name) [])
  array : ∀ count P w r, R.Carries P w r → R.Carries (K.array count P)
    (R.write "write_array" [.writer w, .number count]) (R.read "read_array" [.reader r, .number count])
  dynamicArray : ∀ P w r, R.Carries P w r → R.Carries (K.dynamicArray P)
    (R.write "write_dynamicArray" [.writer w]) (R.read "read_dynamicArray" [.reader r])
  bits : ∀ count, R.Carries (K.bits count)
    (R.write "write_boolArray" [.number count]) (R.read "read_boolArray" [.number count])
  dynamicBits : R.Carries K.dynamicBits
    (R.write "write_dynamicBoolArray" []) (R.read "read_dynamicBoolArray" [])
  map : ∀ P w r, R.Carries P w r → R.Carries (K.map P)
    (R.write "write_map" [.writer w]) (R.read "read_map" [.reader r])
  shortMap : ∀ P w r, R.Carries P w r → R.Carries (K.shortMap P)
    (R.write "write_smap" [.writer w]) (R.read "read_smap" [.reader r])

/-- The runtime modules write all that they are meant for. -/
structure Complete (K : Kinds Value) : Prop where
  builtin : ∀ b : Builtin, Accepts (K.builtin b) (R.write ("write_" ++ b.name) [])
  array : ∀ count P w, Accepts P w → Accepts (K.array count P) (R.write "write_array" [.writer w, .number count])
  dynamicArray : ∀ P w, Accepts P w → Accepts (K.dynamicArray P) (R.write "write_dynamicArray" [.writer w])
  bits : ∀ count, Accepts (K.bits count) (R.write "write_boolArray" [.number count])
  dynamicBits : Accepts K.dynamicBits (R.write "write_dynamicBoolArray" [])
  map : ∀ P w, Accepts P w → Accepts (K.map P) (R.write "write_map" [.writer w])
  shortMap : ∀ P w, Accepts P w → Accepts (K.shortMap P) (R.write "write_smap" [.writer w])

/-- The value is a record of the struct: each field has a value that its codec carries. -/
def IsRecord (K : Kinds Value) (P : String → Value → Prop) (t : Struct) (v : Value) : Prop :=
  ∃ values, List.Forall₂ (fun f x => K.codec P f.type.codec x) t.fields values ∧
    v = R.record ((t.fields.map (·.name)).zip values)

/-- What `P` calls a record of a struct of the schema is one. -/
def Records (K : Kinds Value) (s : Schema) (P : String → Value → Prop) : Prop :=
  ∀ name t, s.structs.find? name = some t → ∀ v, P name v → R.IsRecord K P t v

variable {R} {K : Kinds Value} {P : String → Value → Prop} {h : Helpers Buffer Value} {names : List String}
  {b b' b'' : Buffer} {c d : Nat} {env : Env Buffer Value}

theorem Agree.refl (c : Nat) (b : Buffer) : R.Agree c b b := fun _ _ => rfl

theorem Agree.trans (h₁ : R.Agree c b b') (h₂ : R.Agree c b' b'') : R.Agree c b b'' :=
  fun i hi => (h₁ i hi).trans (h₂ i hi)

theorem Agree.mono (h : R.Agree d b b') (hcd : c ≤ d) : R.Agree c b b' := fun i hi => h i (by omega)

theorem carries_element {e : Element} (hR : R.Sound K)
    (hhelpers : ∀ name, e.structName? = some name → R.Carries (P name) (h.write name) (h.read name)) :
    R.Carries (K.element P e) (R.elementWriter h e) (R.elementReader h e) := by
  cases e with
  | builtin b => exact hR.builtin b
  | struct name => exact hhelpers name rfl

/-- Every codec carries its values, if the helper that it needs does. -/
theorem carries_codec {codec : Codec} (hR : R.Sound K)
    (hhelpers : ∀ name, codec.structName? = some name → R.Carries (P name) (h.write name) (h.read name)) :
    R.Carries (K.codec P codec) (R.codecWriter h codec) (R.codecReader h codec) := by
  cases codec with
  | single e => exact carries_element hR hhelpers
  | array e count => exact hR.array count _ _ _ (carries_element hR hhelpers)
  | dynamicArray e => exact hR.dynamicArray _ _ _ (carries_element hR hhelpers)
  | bits count => exact hR.bits count
  | dynamicBits => exact hR.dynamicBits
  | map e => exact hR.map _ _ _ (carries_element hR hhelpers)
  | shortMap e => exact hR.shortMap _ _ _ (carries_element hR hhelpers)

theorem accepts_element {e : Element} (hR : R.Complete K)
    (hhelpers : ∀ name, e.structName? = some name → Accepts (P name) (h.write name)) :
    Accepts (K.element P e) (R.elementWriter h e) := by
  cases e with
  | builtin b => exact hR.builtin b
  | struct name => exact hhelpers name rfl

/-- Every codec writes its values, if the helper that it needs does. -/
theorem accepts_codec {codec : Codec} (hR : R.Complete K)
    (hhelpers : ∀ name, codec.structName? = some name → Accepts (P name) (h.write name)) :
    Accepts (K.codec P codec) (R.codecWriter h codec) := by
  cases codec with
  | single e => exact accepts_element hR hhelpers
  | array e count => exact hR.array count _ _ (accepts_element hR hhelpers)
  | dynamicArray e => exact hR.dynamicArray _ _ (accepts_element hR hhelpers)
  | bits count => exact hR.bits count
  | dynamicBits => exact hR.dynamicBits
  | map e => exact hR.map _ _ (accepts_element hR hhelpers)
  | shortMap e => exact hR.shortMap _ _ (accepts_element hR hhelpers)

end Runtime

end BufferSchema.Luau
