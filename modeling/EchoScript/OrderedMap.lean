/-!
# EchoScript.OrderedMap

Maps from text that remember the order in which their keys first came. Binding a key again changes its
value and leaves it in its place.
-/

namespace EchoScript

/-- A map from text, as its entries in order. -/
structure OrderedMap (α : Type) where
  entries : List (String × α)

namespace OrderedMap

variable {α β : Type}

def empty : OrderedMap α := ⟨[]⟩

/-- The value of the first entry with the key. -/
def lookup (key : String) : List (String × α) → Option α
  | [] => none
  | (k, v) :: rest => if k = key then some v else lookup key rest

/-- The entries with a key bound: the first entry with the key takes the value, or else a new entry
comes last. -/
def bind (key : String) (value : α) : List (String × α) → List (String × α)
  | [] => [(key, value)]
  | (k, v) :: rest => if k = key then (k, value) :: rest else (k, v) :: bind key value rest

def get? (m : OrderedMap α) (key : String) : Option α := lookup key m.entries

def contains (m : OrderedMap α) (key : String) : Bool := (m.get? key).isSome

def insert (m : OrderedMap α) (key : String) (value : α) : OrderedMap α :=
  ⟨bind key value m.entries⟩

/-- The value that a key had, and the map with the key bound anew. -/
def getThenInsert (m : OrderedMap α) (key : String) (value : α) : Option α × OrderedMap α :=
  (m.get? key, m.insert key value)

def ofList (pairs : List (String × α)) : OrderedMap α :=
  pairs.foldl (fun m (k, v) => m.insert k v) empty

def keys (m : OrderedMap α) : List String := m.entries.map (·.1)

def size (m : OrderedMap α) : Nat := m.entries.length

def isEmpty (m : OrderedMap α) : Bool := m.entries.isEmpty

instance : EmptyCollection (OrderedMap α) := ⟨empty⟩

theorem lookup_bind_self (key : String) (value : α) (es : List (String × α)) :
    lookup key (bind key value es) = some value := by
  induction es with
  | nil => simp [bind, lookup]
  | cons e es ih =>
    obtain ⟨k, v⟩ := e
    by_cases h : k = key <;> simp [bind, lookup, h, ih]

theorem lookup_bind_of_ne {key other : String} (h : other ≠ key) (value : α)
    (es : List (String × α)) : lookup other (bind key value es) = lookup other es := by
  induction es with
  | nil => simp [bind, lookup, Ne.symm h]
  | cons e es ih =>
    obtain ⟨k, v⟩ := e
    by_cases hk : k = key
    · subst hk; simp [bind, lookup, Ne.symm h]
    · simp [bind, lookup, hk, ih]

/-- Inserting binds the key and no other. -/
theorem get?_insert (m : OrderedMap α) (key other : String) (value : α) :
    (m.insert key value).get? other = if other = key then some value else m.get? other := by
  by_cases h : other = key
  · subst h; simp [get?, insert, lookup_bind_self]
  · simp [get?, insert, lookup_bind_of_ne h, h]

theorem bind_of_not_mem {key : String} {es : List (String × α)} (h : key ∉ es.map (·.1))
    (value : α) : bind key value es = es ++ [(key, value)] := by
  induction es with
  | nil => rfl
  | cons e es ih =>
    rw [List.map_cons, List.mem_cons, not_or] at h
    rw [bind, if_neg (Ne.symm h.1), ih h.2, List.cons_append]

theorem foldl_insert {es pairs : List (String × α)} (h : ((es ++ pairs).map (·.1)).Nodup) :
    pairs.foldl (fun m (k, v) => m.insert k v) (OrderedMap.mk es) = ⟨es ++ pairs⟩ := by
  induction pairs generalizing es with
  | nil => simp
  | cons pair pairs ih =>
    obtain ⟨k, v⟩ := pair
    have hnew : k ∉ es.map (·.1) := by
      rw [List.map_append, List.nodup_append] at h
      intro hk
      exact h.2.2 k hk k (by simp) rfl
    have hinsert : insert ⟨es⟩ k v = ⟨es ++ [(k, v)]⟩ := congrArg mk (bind_of_not_mem hnew v)
    rw [List.append_cons] at h ⊢
    rw [List.foldl_cons, ← ih h]
    exact congrArg (pairs.foldl _) hinsert

/-- Pairs without a repeated key are kept as they are. -/
theorem ofList_of_nodup {pairs : List (String × α)} (h : (pairs.map (·.1)).Nodup) :
    ofList pairs = ⟨pairs⟩ :=
  foldl_insert h

end OrderedMap

end EchoScript
