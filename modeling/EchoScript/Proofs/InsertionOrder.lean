import EchoScript.OrderedMap
import Mathlib.Data.List.Induction

/-!
# EchoScript.Proofs.InsertionOrder

Which keys an ordered map has, in which order and with which values.

* `bind_cases` — all that binding a key can do to the entries.
* `keys_insert` — a new key comes last, and an old one stays in its place.
* `keys_ofList`, `get?_ofList` — a map built from pairs has their keys in the order in which they
  first come, each with its last value.
-/

namespace EchoScript
namespace OrderedMap

variable {α : Type}

theorem bind_cases (key : String) (value : α) (es : List (String × α)) :
    (∃ before old after, es = before ++ (key, old) :: after ∧ key ∉ before.map (·.1) ∧
      bind key value es = before ++ (key, value) :: after) ∨
    key ∉ es.map (·.1) ∧ bind key value es = es ++ [(key, value)] := by
  by_cases hmem : key ∈ es.map (·.1)
  · left
    induction es with
    | nil => cases hmem
    | cons e es ih =>
      obtain ⟨k, v⟩ := e
      by_cases hk : k = key
      · subst hk
        exact ⟨[], v, es, rfl, by simp, by simp [bind]⟩
      · rw [List.map_cons, List.mem_cons, or_iff_right (Ne.symm hk)] at hmem
        obtain ⟨before, old, after, rfl, hbefore, hbind⟩ := ih hmem
        refine ⟨(k, v) :: before, old, after, rfl, ?_, ?_⟩
        · rw [List.map_cons, List.mem_cons, not_or]
          exact ⟨Ne.symm hk, hbefore⟩
        · rw [bind, if_neg hk, hbind, List.cons_append]
  · exact .inr ⟨hmem, bind_of_not_mem hmem value⟩

/-! ## Inserting -/

theorem keys_insert (m : OrderedMap α) (key : String) (value : α) :
    (m.insert key value).keys = if key ∈ m.keys then m.keys else m.keys ++ [key] := by
  obtain ⟨es⟩ := m
  unfold insert keys
  obtain ⟨before, old, after, rfl, -, hbind⟩ | ⟨hnew, hbind⟩ := bind_cases key value es
  · rw [hbind, if_pos (by simp)]
    simp
  · rw [hbind, if_neg hnew]
    simp

theorem keys_prefix_insert (m : OrderedMap α) (key : String) (value : α) :
    m.keys <+: (m.insert key value).keys := by
  rw [keys_insert]
  split
  · exact List.prefix_rfl
  · exact List.prefix_append _ _

theorem nodup_insert {m : OrderedMap α} (h : m.keys.Nodup) (key : String) (value : α) :
    (m.insert key value).keys.Nodup := by
  rw [keys_insert]
  split
  · exact h
  · rename_i hnew
    refine List.nodup_append.2 ⟨h, by simp, ?_⟩
    rintro k hk other hother rfl
    exact hnew (List.mem_singleton.1 hother ▸ hk)

theorem mem_insert {m : OrderedMap α} {key : String} {value : α} {e : String × α}
    (h : e ∈ (m.insert key value).entries) : e = (key, value) ∨ e ∈ m.entries := by
  obtain ⟨es⟩ := m
  unfold insert at h
  obtain ⟨before, old, after, rfl, -, hbind⟩ | ⟨-, hbind⟩ := bind_cases key value es
  · simp only [hbind, List.mem_append, List.mem_cons] at h ⊢
    tauto
  · simp only [hbind, List.mem_append, List.mem_singleton] at h
    exact h.symm

/-! ## Looking up -/

theorem lookup_eq_none_iff {key : String} {es : List (String × α)} :
    lookup key es = none ↔ key ∉ es.map (·.1) := by
  induction es with
  | nil => simp [lookup]
  | cons e es ih =>
    obtain ⟨k, v⟩ := e
    by_cases hk : k = key
    · simp [lookup, hk]
    · simp only [lookup, if_neg hk, ih, List.map_cons, List.mem_cons, not_or]
      exact (and_iff_right (Ne.symm hk)).symm

/-- Where no key comes twice, looking up finds exactly the entries. -/
theorem lookup_eq_some_iff {key : String} {value : α} {es : List (String × α)}
    (h : (es.map (·.1)).Nodup) : lookup key es = some value ↔ (key, value) ∈ es := by
  induction es with
  | nil => simp [lookup]
  | cons e es ih =>
    obtain ⟨k, v⟩ := e
    obtain ⟨hnew, htail⟩ := List.nodup_cons.1 h
    by_cases hk : k = key
    · subst hk
      have hnone : (k, value) ∉ es := fun hmem => hnew (List.mem_map.2 ⟨_, hmem, rfl⟩)
      simp [lookup, hnone, eq_comm]
    · simp [lookup, hk, ih htail, Ne.symm hk]

theorem mem_of_get? {m : OrderedMap α} {key : String} {value : α}
    (h : m.get? key = some value) : (key, value) ∈ m.entries := by
  obtain ⟨es⟩ := m
  unfold get? at h
  induction es with
  | nil => cases h
  | cons e es ih =>
    obtain ⟨k, v⟩ := e
    by_cases hk : k = key
    · subst hk
      obtain rfl : v = value := by simpa [lookup] using h
      exact List.mem_cons_self
    · rw [lookup, if_neg hk] at h
      exact List.mem_cons_of_mem _ (ih h)

/-! ## Building from pairs -/

theorem ofList_concat (pairs : List (String × α)) (pair : String × α) :
    ofList (pairs ++ [pair]) = (ofList pairs).insert pair.1 pair.2 := by
  simp [ofList, List.foldl_append]

theorem keys_ofList (pairs : List (String × α)) :
    (ofList pairs).keys = (pairs.map (·.1)).eraseDups := by
  induction pairs using List.reverseRecOn with
  | nil => rfl
  | append_singleton pairs pair ih =>
    rw [ofList_concat, keys_insert, ih, List.map_append, List.eraseDups_append]
    by_cases hmem : pair.1 ∈ pairs.map (·.1)
    · have hgone : [pair.1].removeAll (pairs.map (·.1)) = [] := by
        simpa [List.removeAll] using hmem
      rw [if_pos (List.mem_eraseDups.2 hmem), List.map_singleton, hgone]
      simp
    · have hkept : [pair.1].removeAll (pairs.map (·.1)) = [pair.1] := by
        simpa [List.removeAll] using hmem
      rw [if_neg (mt List.mem_eraseDups.1 hmem), List.map_singleton, hkept]
      rfl

theorem nodup_ofList (pairs : List (String × α)) : (ofList pairs).keys.Nodup := by
  induction pairs using List.reverseRecOn with
  | nil => exact List.nodup_nil
  | append_singleton pairs pair ih =>
    rw [ofList_concat]
    exact nodup_insert ih pair.1 pair.2

theorem mem_ofList {pairs : List (String × α)} {e : String × α}
    (h : e ∈ (ofList pairs).entries) : e ∈ pairs := by
  induction pairs using List.reverseRecOn with
  | nil => exact h
  | append_singleton pairs pair ih =>
    rw [ofList_concat] at h
    obtain rfl | hold := mem_insert h
    · simp
    · exact List.mem_append_left _ (ih hold)

theorem get?_ofList (pairs : List (String × α)) (key : String) :
    (ofList pairs).get? key = lookup key pairs.reverse := by
  induction pairs using List.reverseRecOn with
  | nil => rfl
  | append_singleton pairs pair ih =>
    rw [ofList_concat, get?_insert, ih, List.reverse_concat, lookup]
    simp only [eq_comm]

end OrderedMap
end EchoScript
