import EchoScript.Environment
import EchoScript.Proofs.InsertionOrder
import Mathlib.Data.Finset.Card

/-!
# EchoScript.Proofs.History

What an ordered map tells of the pairs that were inserted into it, and an environment of the
bindings that were made in it.

* `Latest` — the last value that a history gives to a key, or that it gives none; said of the
  history alone.
* `Recounts` — entries, answers and size that follow from a history.
* `insertEach` — inserting pair by pair, with what each insertion answers.
-/

namespace EchoScript

/-- The last value that the history gives to the key; nothing if the key never comes. -/
def Latest {α : Type} (history : List (String × α)) (key : String) : Option α → Prop
  | some value =>
    ∃ before after, history = before ++ (key, value) :: after ∧ key ∉ after.map (·.1)
  | none => key ∉ history.map (·.1)

/-- The entries have the history's keys in the order in which they first come, each with its last
value; looking up answers with that value; and the size is the number of different keys. -/
structure Recounts {α : Type} (history entries : List (String × α)) (get : String → Option α)
    (size : Nat) : Prop where
  order : entries.map (·.1) = (history.map (·.1)).eraseDups
  values : ∀ e ∈ entries, Latest history e.1 (some e.2)
  answers : ∀ key, Latest history key (get key)
  count : size = (history.map (·.1)).toFinset.card

namespace OrderedMap

variable {α : Type}

theorem lookup_eq_find? (key : String) (es : List (String × α)) :
    lookup key es = (es.find? (·.1 = key)).map (·.2) := by
  induction es with
  | nil => rfl
  | cons e es ih =>
    rw [lookup, List.find?_cons, ih]
    by_cases hk : e.1 = key <;> simp [hk]

/-- The map's answer for a key is the history's. -/
theorem latest_get?_ofList (history : List (String × α)) (key : String) :
    Latest history key ((ofList history).get? key) := by
  rw [get?_ofList]
  cases hlookup : lookup key history.reverse with
  | none => simpa [Latest] using lookup_eq_none_iff.1 hlookup
  | some value =>
    rw [lookup_eq_find?, Option.map_eq_some_iff] at hlookup
    obtain ⟨⟨k, v⟩, hfind, rfl⟩ := hlookup
    obtain ⟨hk, later, earlier, hreverse, hlater⟩ := List.find?_eq_some_iff_append.1 hfind
    obtain rfl : k = key := by simpa using hk
    refine ⟨earlier.reverse, later.reverse, ?_, ?_⟩
    · rw [← List.reverse_reverse history, hreverse]
      simp
    · rw [List.map_reverse, List.mem_reverse, List.mem_map]
      rintro ⟨e, he, hsame⟩
      simpa [hsame] using hlater e he

theorem size_ofList (history : List (String × α)) :
    (ofList history).size = (history.map (·.1)).toFinset.card := by
  have hkeys : (ofList history).keys.toFinset = (history.map (·.1)).toFinset := by
    ext key
    rw [keys_ofList, List.mem_toFinset, List.mem_toFinset, List.mem_eraseDups]
  rw [← hkeys, List.toFinset_card_of_nodup (nodup_ofList history), keys, List.length_map, size]

theorem recounts_ofList (history : List (String × α)) :
    Recounts history (ofList history).entries (ofList history).get? (ofList history).size where
  order := keys_ofList history
  values e he := by
    -- Without repeated keys an entry is what looking its key up finds.
    have hget : (ofList history).get? e.1 = some e.2 :=
      (lookup_eq_some_iff (nodup_ofList history)).2 he
    rw [← hget]
    exact latest_get?_ofList history e.1
  answers := latest_get?_ofList history
  count := size_ofList history

theorem contains_ofList (history : List (String × α)) (key : String) :
    (ofList history).contains key = true ↔ key ∈ history.map (·.1) := by
  rw [← List.mem_eraseDups, ← keys_ofList, contains, Option.isSome_iff_ne_none, ne_eq, get?,
    lookup_eq_none_iff, not_not, keys]

/-! ## Insertion by insertion -/

/-- Inserts pairs one after the other, and gives the map that they leave with the answer to each
insertion. -/
def insertEach (m : OrderedMap α) : List (String × α) → OrderedMap α × List (Option α)
  | [] => (m, [])
  | (key, value) :: rest =>
    let (previous, next) := m.getThenInsert key value
    let (last, answers) := next.insertEach rest
    (last, previous :: answers)

theorem insertEach_map (m : OrderedMap α) (history : List (String × α)) :
    (m.insertEach history).1 = history.foldl (fun m (k, v) => m.insert k v) m := by
  induction history generalizing m with
  | nil => rfl
  | cons pair rest ih => exact ih (m.insert pair.1 pair.2)

theorem length_insertEach (m : OrderedMap α) (history : List (String × α)) :
    (m.insertEach history).2.length = history.length := by
  induction history generalizing m with
  | nil => rfl
  | cons pair rest ih => exact congrArg (· + 1) (ih (m.insert pair.1 pair.2))

/-- An insertion answers with what the map before it has for the key. -/
theorem insertEach_answer (m : OrderedMap α) (before after : List (String × α)) (key : String)
    (value : α) :
    (m.insertEach (before ++ (key, value) :: after)).2[before.length]? =
      some ((before.foldl (fun m (k, v) => m.insert k v) m).get? key) := by
  induction before generalizing m with
  | nil => rfl
  | cons pair before ih => exact ih (m.insert pair.1 pair.2)

end OrderedMap

namespace Environment

def ofList (bindings : List (String × Value)) : Environment :=
  bindings.foldl (fun env (name, value) => env.set name value) .empty

theorem ofList_bindings (bindings : List (String × Value)) :
    (ofList bindings).bindings = .ofList bindings := by
  induction bindings using List.reverseRecOn with
  | nil => rfl
  | append_singleton bindings binding ih =>
    rw [OrderedMap.ofList_concat, ← ih]
    simp [ofList, List.foldl_append, set]

end Environment

namespace OrderedMap

/-- Whatever is inserted, one by one or all at once, the map recounts the history of insertions, and
each insertion answers with the value that the history before it gives to its key. An environment
recounts the history of its bindings. -/
theorem insertEach_recounts {α : Type} (history : List (String × α))
    (bindings : List (String × Value)) :
    let last := (empty.insertEach history).1
    let answers := (empty.insertEach history).2
    let env := Environment.ofList bindings
    last = ofList history ∧
    Recounts history last.entries last.get? last.size ∧
    last.keys = last.entries.map (·.1) ∧
    (∀ key, last.contains key = true ↔ key ∈ history.map (·.1)) ∧
    answers.length = history.length ∧
    (∀ before key value after, history = before ++ (key, value) :: after →
      ∃ answer, answers[before.length]? = some answer ∧ Latest before key answer) ∧
    Recounts bindings env.toList env.get? env.size := by
  intro last answers env
  have hlast : last = ofList history := insertEach_map empty history
  have henv : env.bindings = ofList bindings := Environment.ofList_bindings bindings
  refine ⟨hlast, ?_, rfl, ?_, length_insertEach empty history, ?_, ?_⟩
  · rw [hlast]
    exact recounts_ofList history
  · rw [hlast]
    exact contains_ofList history
  · rintro before key value after rfl
    exact ⟨_, insertEach_answer empty before after key value, latest_get?_ofList before key⟩
  · have hrecounts := recounts_ofList bindings
    rwa [← henv] at hrecounts

/-- A key inserted again: it keeps its place, and its second insertion answers with its first
value. -/
theorem insertEach_recounts_again :
    let history : List (String × Nat) := [("a", 1), ("b", 2), ("a", 3), ("c", 4)]
    let last := (empty.insertEach history).1
    let answers := (empty.insertEach history).2
    last.entries = [("a", 3), ("b", 2), ("c", 4)] ∧
    Recounts history last.entries last.get? last.size ∧
    answers = [none, none, some 1, none] ∧
    ∃ answer, answers[2]? = some answer ∧ Latest [("a", 1), ("b", 2)] "a" answer := by
  intro history last answers
  obtain ⟨-, hrecounts, -, -, -, hanswers, -⟩ := insertEach_recounts history []
  exact ⟨by decide, hrecounts, by decide, hanswers [("a", 1), ("b", 2)] "a" 3 [("c", 4)] rfl⟩

end OrderedMap
end EchoScript
