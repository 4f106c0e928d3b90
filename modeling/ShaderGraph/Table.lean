/-!
# Tables

A table maps names to values and keeps the order in which the names were first entered. Entering a
name again replaces its value in place, so the names stay distinct; `keys_insert` says which names
there are afterwards, and `get?_insert` what they stand for.
-/

namespace ShaderGraph

structure Table (α : Type) where
  entries : List (String × α)
  nodup : (entries.map Prod.fst).Nodup

namespace Table

variable {α β : Type}

def empty : Table α := ⟨[], List.nodup_nil⟩

instance : Inhabited (Table α) := ⟨empty⟩

instance [DecidableEq α] : DecidableEq (Table α) := fun s t =>
  decidable_of_iff (s.entries = t.entries) (by cases s; cases t; simp)

def keys (t : Table α) : List String := t.entries.map Prod.fst

def values (t : Table α) : List α := t.entries.map Prod.snd

def size (t : Table α) : Nat := t.entries.length

def isEmpty (t : Table α) : Bool := t.entries.isEmpty

def get? (t : Table α) (key : String) : Option α :=
  (t.entries.find? (·.1 = key)).map Prod.snd

def contains (t : Table α) (key : String) : Bool := (t.get? key).isSome

/-- Replaces the value at the first entry of the name, or adds an entry at the end. -/
def put (key : String) (value : α) : List (String × α) → List (String × α)
  | [] => [(key, value)]
  | entry :: rest =>
    if entry.1 = key then (key, value) :: rest else entry :: put key value rest

theorem map_fst_put (key : String) (value : α) (l : List (String × α)) :
    (put key value l).map Prod.fst =
      if key ∈ l.map Prod.fst then l.map Prod.fst else l.map Prod.fst ++ [key] := by
  induction l with
  | nil => simp [put]
  | cons entry rest ih =>
    by_cases h : entry.1 = key
    · simp [put, h]
    · simp only [put, h, if_false, List.map_cons, ih, List.mem_cons, Ne.symm h, false_or]
      split <;> simp

theorem nodup_put (key : String) (value : α) {l : List (String × α)}
    (h : (l.map Prod.fst).Nodup) : ((put key value l).map Prod.fst).Nodup := by
  rw [map_fst_put]
  split
  · exact h
  · next hk => exact List.nodup_append.2 ⟨h, by simp, by simpa using fun a b hm => by grind⟩

def insert (t : Table α) (key : String) (value : α) : Table α :=
  ⟨put key value t.entries, nodup_put key value t.nodup⟩

theorem map_fst_modify (f : α → α) (l : List (String × α)) (i : Nat) :
    (l.modify i fun entry => (entry.1, f entry.2)).map Prod.fst = l.map Prod.fst := by
  refine List.ext_getElem? fun j => ?_
  rw [List.getElem?_map, List.getElem?_modify, List.getElem?_map]
  split <;> cases l[j]? <;> rfl

/-- The value at a place replaced by another one; a place behind the last has none. -/
def setAt (t : Table α) (i : Nat) (value : α) : Table α :=
  ⟨t.entries.modify i fun entry => (entry.1, value), by
    rw [map_fst_modify fun _ => value]
    exact t.nodup⟩

/-- The same names with values computed from the old entries. -/
def map (f : String → α → β) (t : Table α) : Table β :=
  ⟨t.entries.map fun entry => (entry.1, f entry.1 entry.2), by
    simpa [List.map_map, Function.comp_def] using t.nodup⟩

theorem keys_insert (t : Table α) (key : String) (value : α) :
    (t.insert key value).keys = if key ∈ t.keys then t.keys else t.keys ++ [key] :=
  map_fst_put key value t.entries

theorem entries_insert {t : Table α} {key : String} (h : key ∉ t.keys) (value : α) :
    (t.insert key value).entries = t.entries ++ [(key, value)] := by
  obtain ⟨l, hl⟩ := t
  simp only [keys, insert] at h ⊢
  clear hl
  induction l with
  | nil => rfl
  | cons entry rest ih =>
    simp only [List.map_cons, List.mem_cons, not_or] at h
    rw [put, if_neg (Ne.symm h.1), ih h.2, List.cons_append]

theorem getElem?_entries_setAt (t : Table α) (i j : Nat) (value : α) :
    (t.setAt i value).entries[j]? =
      t.entries[j]?.map fun entry => if i = j then (entry.1, value) else entry :=
  List.getElem?_modify _ _ _ _

theorem get?_insert (t : Table α) (key other : String) (value : α) :
    (t.insert key value).get? other = if key = other then some value else t.get? other := by
  obtain ⟨l, hl⟩ := t
  simp only [insert, get?]
  clear hl
  induction l with
  | nil => by_cases h : key = other <;> simp [put, h]
  | cons entry rest ih =>
    by_cases h : entry.1 = key
    · subst h
      by_cases h' : entry.1 = other <;> simp [put, h']
    · by_cases h' : entry.1 = other
      · subst h'
        simp [put, h, Ne.symm h]
      · simpa [put, h, h', List.find?_cons] using ih

theorem get?_eq_some_iff (t : Table α) (key : String) (value : α) :
    t.get? key = some value ↔ (key, value) ∈ t.entries := by
  obtain ⟨l, hl⟩ := t
  simp only [get?]
  induction l with
  | nil => simp
  | cons entry rest ih =>
    obtain ⟨key', value'⟩ := entry
    simp only [List.map_cons, List.nodup_cons] at hl
    by_cases h : key' = key
    · subst h
      have : (key', value) ∉ rest := fun hm => hl.1 (List.mem_map.2 ⟨_, hm, rfl⟩)
      simp [this, eq_comm]
    · simpa [List.find?_cons, h, Ne.symm h] using ih hl.2

@[simp] theorem keys_map (f : String → α → β) (t : Table α) : (t.map f).keys = t.keys := by
  simp [keys, map, List.map_map, Function.comp_def]

theorem entries_map (f : String → α → β) (t : Table α) :
    (t.map f).entries = t.entries.map fun entry => (entry.1, f entry.1 entry.2) := rfl

theorem get?_map (f : String → α → β) (t : Table α) (key : String) :
    (t.map f).get? key = (t.get? key).map (f key) := by
  obtain ⟨l, hl⟩ := t
  simp only [get?, map]
  clear hl
  induction l with
  | nil => rfl
  | cons entry rest ih =>
    by_cases h : entry.1 = key
    · subst h
      simp
    · simpa [List.find?_cons, h] using ih

theorem mem_keys_of_mem {t : Table α} {key : String} {value : α} (h : (key, value) ∈ t.entries) :
    key ∈ t.keys := List.mem_map.2 ⟨_, h, rfl⟩

theorem mem_keys_of_get? {t : Table α} {key : String} {value : α} (h : t.get? key = some value) :
    key ∈ t.keys := mem_keys_of_mem ((t.get?_eq_some_iff key value).1 h)

theorem isEmpty_iff (t : Table α) : t.isEmpty = true ↔ t.entries = [] := by
  simp [isEmpty]

theorem contains_eq_true_iff (t : Table α) (key : String) : t.contains key = true ↔ key ∈ t.keys := by
  simp [contains, get?, keys, List.find?_isSome]

theorem get?_eq_none_iff (t : Table α) (key : String) : t.get? key = none ↔ key ∉ t.keys := by
  rw [← contains_eq_true_iff]
  simp [contains]

end Table

end ShaderGraph
