/-!
# Ordered maps

A finite map that remembers the order in which its keys were first inserted. A later value for a key
takes the place of the earlier one.
-/

namespace RecordLambda

universe u v

/-- A finite map with its keys in the order of their first insertion. -/
structure OrderedMap (κ : Type u) (α : Type v) where
  /-- The keys with their values. -/
  entries : List (κ × α)
  /-- No key has two values. -/
  nodup : (entries.map Prod.fst).Nodup

namespace OrderedMap

variable {κ : Type u} {α : Type v}

/-- The map without keys. -/
def empty : OrderedMap κ α := ⟨[], .nil⟩

instance : EmptyCollection (OrderedMap κ α) := ⟨empty⟩

instance : Inhabited (OrderedMap κ α) := ⟨empty⟩

/-- The keys in order. -/
def keys (m : OrderedMap κ α) : List κ := m.entries.map Prod.fst

/-- The number of keys. -/
def size (m : OrderedMap κ α) : Nat := m.entries.length

variable [DecidableEq κ]

/-- The value of a key in a list of entries. -/
def find (k : κ) : List (κ × α) → Option α
  | [] => none
  | (k', a) :: rest => if k' = k then some a else find k rest

/-- Gives a key a value in a list of entries, in place if the key is there and at the end if not. -/
def put (k : κ) (a : α) : List (κ × α) → List (κ × α)
  | [] => [(k, a)]
  | (k', a') :: rest => if k' = k then (k, a) :: rest else (k', a') :: put k a rest

/-- A key that is put keeps its place among the keys, or else is the last one. -/
theorem map_fst_put (k : κ) (a : α) (es : List (κ × α)) :
    (put k a es).map Prod.fst =
      if k ∈ es.map Prod.fst then es.map Prod.fst else es.map Prod.fst ++ [k] := by
  induction es with
  | nil => simp [put]
  | cons e rest ih =>
    obtain ⟨k', a'⟩ := e
    by_cases h : k' = k
    · simp [put, h]
    · have h' : k ≠ k' := fun e => h e.symm
      simp only [put, h, if_false, List.map_cons, ih, List.mem_cons, h', false_or]
      split <;> simp

/-- To put an entry repeats no key. -/
theorem nodup_put (k : κ) (a : α) {es : List (κ × α)} (nd : (es.map Prod.fst).Nodup) :
    ((put k a es).map Prod.fst).Nodup := by
  rw [map_fst_put]
  split
  · exact nd
  · rename_i h
    exact List.nodup_append.2 ⟨nd, by simp, by
      intro x hx y hy
      simp only [List.mem_singleton] at hy
      rintro rfl
      exact h (hy ▸ hx)⟩

/-- What is found after an entry is put. -/
theorem find_put (k : κ) (a : α) (es : List (κ × α)) (k' : κ) :
    find k' (put k a es) = if k' = k then some a else find k' es := by
  induction es with
  | nil => simp [put, find, eq_comm]
  | cons e rest ih => grind [put, find]

/-- Something is found just under the keys of the entries. -/
theorem find_isSome_iff (k : κ) (es : List (κ × α)) : (find k es).isSome ↔ k ∈ es.map Prod.fst := by
  induction es with
  | nil => simp [find]
  | cons e rest ih => grind [find]

/-- The value of a key. -/
def get? (m : OrderedMap κ α) (k : κ) : Option α := find k m.entries

/-- Whether a key has a value. -/
def contains (m : OrderedMap κ α) (k : κ) : Bool := (m.get? k).isSome

/-- Gives a key a value. -/
def insert (m : OrderedMap κ α) (k : κ) (a : α) : OrderedMap κ α :=
  ⟨put k a m.entries, nodup_put k a m.nodup⟩

/-- The map of a list of entries, a later one for the same key taking the place of an earlier
one. -/
def ofList (es : List (κ × α)) : OrderedMap κ α :=
  es.foldl (fun m (k, a) => m.insert k a) empty

/-- The new value is found under its key, and under all other keys what was found before. -/
theorem get?_insert (m : OrderedMap κ α) (k : κ) (a : α) (k' : κ) :
    (m.insert k a).get? k' = if k' = k then some a else m.get? k' :=
  find_put k a m.entries k'

/-- A map has a value just under its keys. -/
theorem contains_iff (m : OrderedMap κ α) (k : κ) : m.contains k ↔ k ∈ m.keys :=
  find_isSome_iff k m.entries

/-- Equality as maps: the same keys with the same values, in whatever order. -/
def same [DecidableEq α] (m n : OrderedMap κ α) : Bool :=
  m.size == n.size && m.entries.all fun (k, a) => n.get? k == some a

end OrderedMap

end RecordLambda
