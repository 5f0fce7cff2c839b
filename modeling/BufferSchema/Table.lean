/-!
# Tables

A table maps texts to values and remembers the order in which its keys came. Each key occurs
once; giving a key a new value leaves it in its place.
-/

namespace BufferSchema

/-- Values under texts as keys, in the order in which the keys came. -/
structure Table (α : Type) where
  entries : List (String × α)
  nodup_keys : (entries.map Prod.fst).Nodup
deriving DecidableEq

namespace Table

variable {α β : Type}

instance : EmptyCollection (Table α) := ⟨⟨[], .nil⟩⟩

instance : Inhabited (Table α) := ⟨∅⟩

/-- The keys in their order. -/
def keys (t : Table α) : List String := t.entries.map Prod.fst

/-- The values in the order of their keys. -/
def values (t : Table α) : List α := t.entries.map Prod.snd

/-- The number of keys. -/
def size (t : Table α) : Nat := t.entries.length

/-- The value under a key. -/
def find? (t : Table α) (key : String) : Option α := t.entries.lookup key

instance : Membership String (Table α) := ⟨fun t key => key ∈ t.keys⟩

instance (key : String) (t : Table α) : Decidable (key ∈ t) :=
  inferInstanceAs (Decidable (key ∈ t.keys))

/-- Each value replaced by a function of its key and itself. -/
def mapValues (f : String → α → β) (t : Table α) : Table β where
  entries := t.entries.map fun e => (e.1, f e.1 e.2)
  nodup_keys := by simpa [Function.comp_def] using t.nodup_keys

/-- The value under a key replaced by a function of itself. -/
def modify (t : Table α) (key : String) (f : α → α) : Table α :=
  t.mapValues fun k v => if k = key then f v else v

/-- The table with `value` under `key`. A new key comes last, a known one stays in its place. -/
def insert (t : Table α) (key : String) (value : α) : Table α :=
  if h : key ∈ t.keys then t.modify key fun _ => value
  else
    { entries := t.entries ++ [(key, value)]
      nodup_keys := by
        simp only [List.map_append, List.map_cons, List.map_nil]
        refine List.nodup_append.2 ⟨t.nodup_keys, by simp, ?_⟩
        intro a ha b hb hab
        simp only [List.mem_singleton] at hb
        subst hab hb
        exact h ha }

/-- The table in which the value under `key` is made from the one before, if there was one. -/
def alter (t : Table α) (key : String) (f : Option α → α) : Table α :=
  t.insert key (f (t.find? key))

theorem nodup_keys' (t : Table α) : t.keys.Nodup := t.nodup_keys

@[simp] theorem keys_empty : (∅ : Table α).keys = [] := rfl

@[simp] theorem keys_mapValues (f : String → α → β) (t : Table α) :
    (t.mapValues f).keys = t.keys := by
  simp [keys, mapValues, Function.comp_def]

@[simp] theorem keys_modify (t : Table α) (key : String) (f : α → α) :
    (t.modify key f).keys = t.keys := by
  simp [modify]

theorem keys_insert (t : Table α) (key : String) (value : α) :
    (t.insert key value).keys = if key ∈ t then t.keys else t.keys ++ [key] := by
  unfold insert
  split
  · next h => simp [show key ∈ t from h]
  · next h => simp [show ¬ key ∈ t from h, keys]

theorem mem_iff {t : Table α} {key : String} : key ∈ t ↔ key ∈ t.keys := Iff.rfl

theorem find?_eq_none_iff {t : Table α} {key : String} : t.find? key = none ↔ key ∉ t := by
  simp only [find?, mem_iff, keys]
  induction t.entries with
  | nil => simp
  | cons e es ih =>
    obtain ⟨k, v⟩ := e
    by_cases h : key = k
    · simp [h]
    · have hb : (key == k) = false := by simpa using h
      simpa [List.lookup_cons, hb, h] using ih

theorem mem_of_find?_eq_some {t : Table α} {key : String} {value : α}
    (h : t.find? key = some value) : key ∈ t := by
  by_cases hm : key ∈ t
  · exact hm
  · simp [find?_eq_none_iff.2 hm] at h

theorem find?_mapValues (f : String → α → β) (t : Table α) (key : String) :
    (t.mapValues f).find? key = (t.find? key).map (f key) := by
  simp only [find?, mapValues]
  induction t.entries with
  | nil => rfl
  | cons e es ih =>
    obtain ⟨k, v⟩ := e
    by_cases h : key = k
    · simp [h]
    · have hb : (key == k) = false := by simpa using h
      simpa [List.lookup_cons, hb] using ih

theorem find?_modify (t : Table α) (key k : String) (f : α → α) :
    (t.modify key f).find? k = if k = key then (t.find? k).map f else t.find? k := by
  unfold modify
  rw [find?_mapValues]
  by_cases h : k = key <;> simp [h]

theorem find?_insert (t : Table α) (key k : String) (value : α) :
    (t.insert key value).find? k = if k = key then some value else t.find? k := by
  unfold insert
  split
  · next h =>
    rw [find?_modify]
    by_cases hk : k = key
    · subst hk
      obtain ⟨v, hv⟩ : ∃ v, t.find? k = some v := by
        cases hv : t.find? k with
        | none => exact absurd h (find?_eq_none_iff.1 hv)
        | some v => exact ⟨v, rfl⟩
      simp [hv]
    · simp [hk]
  · next h =>
    by_cases hk : k = key
    · subst hk
      have hn : t.entries.lookup k = none := find?_eq_none_iff.2 h
      simp [find?, List.lookup_append, hn]
    · have hb : (k == key) = false := by simpa using hk
      simp [find?, List.lookup_append, List.lookup_cons, hb, hk]

theorem find?_alter (t : Table α) (key k : String) (f : Option α → α) :
    (t.alter key f).find? k = if k = key then some (f (t.find? key)) else t.find? k :=
  find?_insert ..

end Table

end BufferSchema
