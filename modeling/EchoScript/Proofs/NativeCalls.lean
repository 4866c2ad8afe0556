import EchoScript.NativeLibrary
import EchoScript.Proofs.InsertionOrder

/-!
# EchoScript.Proofs.NativeCalls

What a library shows to scripts is what its host can call.

The functions of a library, each under its name, are the ordered map that the additions build
(`ofFunctions_tagged`). The order of the names and the function under a name come from there
(`names_ofFunctions`, `find?_ofFunctions`), and both the placeholders and the calls come from these.
-/

namespace EchoScript

/-- The number of arguments can be read off a placeholder. -/
theorem NativeFunction.arity_of_placeholder {f : NativeFunction} {arity : Nat}
    (h : f.placeholder = "<native " ++ f.name ++ "/" ++ arity.repr ++ ">") : f.arity = arity := by
  have hrepr : f.arity.repr = arity.repr := by
    simpa [placeholder] using h
  have hread := congrArg (fun text => Nat.ofDigitChars 10 text.toList 0) hrepr
  simpa [Nat.repr] using hread

namespace NativeLibrary

def ofFunctions (name : String) (fs : List NativeFunction) : NativeLibrary :=
  fs.foldl add (empty name)

theorem ofFunctions_concat (ns : String) (fs : List NativeFunction) (f : NativeFunction) :
    ofFunctions ns (fs ++ [f]) = (ofFunctions ns fs).add f := by
  simp [ofFunctions, List.foldl_append]

theorem ofFunctions_name (ns : String) (fs : List NativeFunction) :
    (ofFunctions ns fs).name = ns := by
  induction fs using List.reverseRecOn with
  | nil => rfl
  | append_singleton fs f ih => rwa [ofFunctions_concat]

/-! ## The functions of a library -/

/-- Functions with something said of each, under their names. -/
def tagged {α : Type} (tag : NativeFunction → α) (fs : List NativeFunction) : List (String × α) :=
  fs.map fun f => (f.name, tag f)

section

variable {α : Type} (tag : NativeFunction → α)

theorem tagged_cons (f : NativeFunction) (fs : List NativeFunction) :
    tagged tag (f :: fs) = (f.name, tag f) :: tagged tag fs := rfl

theorem keys_tagged (fs : List NativeFunction) : (tagged tag fs).map (·.1) = fs.map (·.name) := by
  simp [tagged]

theorem lookup_tagged (name : String) (fs : List NativeFunction) :
    OrderedMap.lookup name (tagged tag fs) = (fs.find? (·.name = name)).map tag := by
  induction fs with
  | nil => rfl
  | cons f fs ih =>
    rw [tagged_cons, OrderedMap.lookup, ih]
    by_cases hf : f.name = name <;> simp [hf]

end

theorem addTo_tagged (f : NativeFunction) (fs : List NativeFunction) :
    tagged id (addTo f fs) = OrderedMap.bind f.name f (tagged id fs) := by
  induction fs with
  | nil => rfl
  | cons g fs ih =>
    rw [tagged_cons, OrderedMap.bind, addTo]
    by_cases hg : g.name = f.name
    · rw [if_pos hg, if_pos hg, tagged_cons, hg]
      rfl
    · rw [if_neg hg, if_neg hg, tagged_cons, ih]

theorem ofFunctions_tagged (ns : String) (fs : List NativeFunction) :
    OrderedMap.mk (tagged id (ofFunctions ns fs).functions) = .ofList (tagged id fs) := by
  induction fs using List.reverseRecOn with
  | nil => rfl
  | append_singleton fs f ih =>
    have hconcat : tagged id (fs ++ [f]) = tagged id fs ++ [(f.name, f)] := List.map_append
    rw [ofFunctions_concat, hconcat, OrderedMap.ofList_concat, ← ih]
    exact congrArg OrderedMap.mk (addTo_tagged f _)

theorem names_ofFunctions (ns : String) (fs : List NativeFunction) :
    (ofFunctions ns fs).functions.map (·.name) = (fs.map (·.name)).eraseDups := by
  have hkeys := congrArg OrderedMap.keys (ofFunctions_tagged ns fs)
  rwa [OrderedMap.keys_ofList, keys_tagged, OrderedMap.keys, keys_tagged] at hkeys

theorem nodup_ofFunctions (ns : String) (fs : List NativeFunction) :
    ((ofFunctions ns fs).functions.map (·.name)).Nodup := by
  have hnodup := OrderedMap.nodup_ofList (tagged id fs)
  rwa [← ofFunctions_tagged ns, OrderedMap.keys, keys_tagged] at hnodup

/-- The function under a name is the last that was added under it. -/
theorem find?_ofFunctions (ns : String) (fs : List NativeFunction) (name : String) :
    (ofFunctions ns fs).find? name = fs.reverse.find? (·.name = name) := by
  have hget := OrderedMap.get?_ofList (tagged id fs) name
  have hreverse : (tagged id fs).reverse = tagged id fs.reverse := List.map_reverse.symm
  rw [← ofFunctions_tagged ns, OrderedMap.get?, hreverse, lookup_tagged, lookup_tagged] at hget
  simpa [find?] using hget

theorem find?_of_mem {library : NativeLibrary} (h : (library.functions.map (·.name)).Nodup)
    {f : NativeFunction} (hf : f ∈ library.functions) : library.find? f.name = some f := by
  rw [← keys_tagged id] at h
  have hmem : (f.name, f) ∈ tagged id library.functions := List.mem_map.2 ⟨f, hf, rfl⟩
  have hlookup := (OrderedMap.lookup_eq_some_iff h).2 hmem
  rw [lookup_tagged] at hlookup
  simpa [find?] using hlookup

/-! ## What scripts see and what the host calls -/

section

variable {library : NativeLibrary} {name : String}

/-- The placeholders of a library's functions under their names. -/
def shown (library : NativeLibrary) : OrderedMap Value :=
  ⟨tagged (.string ·.placeholder) library.functions⟩

theorem value_eq_shown (h : (library.functions.map (·.name)).Nodup) :
    library.value = .map library.shown := by
  rw [← keys_tagged (fun f => Value.string f.placeholder)] at h
  exact congrArg Value.map (OrderedMap.ofList_of_nodup h)

theorem get?_shown : library.shown.get? name = (library.find? name).map (.string ·.placeholder) :=
  lookup_tagged _ name library.functions

theorem call_of_not_shown (h : name ∉ library.shown.keys) (args : List Value) :
    library.call name args = .error (.unknownFunction library.name name) := by
  have hnone := OrderedMap.lookup_eq_none_iff.2 h
  rw [← OrderedMap.get?, get?_shown, Option.map_eq_none_iff] at hnone
  simp only [call, hnone]

theorem name_of_find? {f : NativeFunction} (h : library.find? name = some f) : f.name = name := by
  simpa using List.find?_some h

theorem exists_placeholder (h : name ∈ library.shown.keys) :
    ∃ f, library.find? name = some f ∧ library.shown.get? name = some (.string f.placeholder) := by
  cases hf : library.find? name with
  | none =>
    have hnone := OrderedMap.lookup_eq_none_iff.1 (get?_shown.trans (congrArg _ hf))
    exact absurd h hnone
  | some f => exact ⟨f, rfl, get?_shown.trans (congrArg _ hf)⟩

/-- A call goes by the number of arguments that the placeholder shows. -/
theorem call_of_shown {arity : Nat}
    (h : library.shown.get? name =
      some (.string ("<native " ++ name ++ "/" ++ arity.repr ++ ">")))
    (args : List Value) :
    ∃ f, library.find? name = some f ∧ library.call name args =
      if arity = args.length then f.apply args
      else .error (.argumentCount name arity args.length) := by
  rw [get?_shown] at h
  obtain ⟨f, hf, htext⟩ := Option.map_eq_some_iff.1 h
  obtain rfl := name_of_find? hf
  obtain rfl := NativeFunction.arity_of_placeholder (Value.string.inj htext)
  exact ⟨f, hf, by simp only [call, hf]⟩

end

/-- What a library shows is what it lets its host call. Its functions have distinct names in the
order in which these were first added, and each is the last addition under its name. Registering
binds the library's name, in its place or else last, to a map from exactly these names to
placeholders, and changes nothing else. A call fails if its name is not a key of that map, or if
the placeholder shows another number of arguments than were given; otherwise it is the function
that was last added under the name. -/
theorem call_as_registered (ns : String) (fs : List NativeFunction) (env : Environment) :
    let library := fs.foldl add (empty ns)
    let last := fun name => fs.reverse.find? (·.name = name)
    let placeholder := fun (name : String) (arity : Nat) =>
      Value.string ("<native " ++ name ++ "/" ++ arity.repr ++ ">")
    (library.functions.map (·.name)).Nodup ∧
    library.functions.map (·.name) = (fs.map (·.name)).eraseDups ∧
    (∀ f ∈ library.functions, last f.name = some f) ∧
    ∃ m : OrderedMap Value,
      m.entries = library.functions.map (fun f => (f.name, placeholder f.name f.arity)) ∧
      (library.register env).get? ns = some (.map m) ∧
      (ns ∈ env.names → ∃ before old after, env.toList = before ++ (ns, old) :: after ∧
        ns ∉ before.map (·.1) ∧ (library.register env).toList = before ++ (ns, .map m) :: after) ∧
      (ns ∉ env.names → (library.register env).toList = env.toList ++ [(ns, .map m)]) ∧
      ∀ name args,
        (name ∉ m.keys → library.call name args = .error (.unknownFunction ns name)) ∧
        (name ∈ m.keys → ∃ arity, m.get? name = some (placeholder name arity)) ∧
        ∀ arity, m.get? name = some (placeholder name arity) →
          (arity ≠ args.length →
            library.call name args = .error (.argumentCount name arity args.length)) ∧
          (arity = args.length →
            ∃ f, last name = some f ∧ library.call name args = f.apply args) := by
  intro library last placeholder
  have hname : library.name = ns := ofFunctions_name ns fs
  have hnodup : (library.functions.map (·.name)).Nodup := nodup_ofFunctions ns fs
  have hlast : ∀ name, library.find? name = last name := find?_ofFunctions ns fs
  have hregister : library.register env = env.set ns (.map library.shown) := by
    rw [register, hname, value_eq_shown hnodup]
  rw [hregister]
  refine ⟨hnodup, names_ofFunctions ns fs, ?_, library.shown, rfl, ?_, ?_, ?_, ?_⟩
  · intro f hf
    rw [← hlast]
    exact find?_of_mem hnodup hf
  · rw [Environment.get?_set, if_pos rfl]
  · intro hbound
    obtain hplace | ⟨hnew, -⟩ := OrderedMap.bind_cases ns (.map library.shown) env.toList
    · exact hplace
    · exact absurd hbound hnew
  · intro hnew
    exact OrderedMap.bind_of_not_mem hnew _
  · intro name args
    refine ⟨?_, ?_, ?_⟩
    · intro hkey
      rw [call_of_not_shown hkey, hname]
    · intro hkey
      obtain ⟨f, hf, hshown⟩ := exists_placeholder hkey
      obtain rfl := name_of_find? hf
      exact ⟨f.arity, hshown⟩
    · intro arity hshown
      obtain ⟨f, hf, hcall⟩ := call_of_shown hshown args
      rw [hcall]
      refine ⟨fun hne => if_neg hne, fun heq => ⟨f, ?_, if_pos heq⟩⟩
      rw [← hlast, hf]

/-- A function that was added again with another number of arguments, in a library whose name was
already bound. -/
theorem call_as_registered_again :
    let fs : List NativeFunction := [⟨"upper", 1, fun _ => .ok .null⟩,
      ⟨"empty", 0, fun _ => .ok .null⟩, ⟨"upper", 2, fun _ => .error (.invalidArgument "no text")⟩]
    let library := fs.foldl add (empty "text")
    let env := (Environment.empty.set "text" .null).set "z" .null
    library.functions.map (·.name) = ["upper", "empty"] ∧ "text" ∈ env.names ∧
    (library.register env).toList.map (·.1) = ["text", "z"] ∧
    library.call "lower" [] = .error (.unknownFunction "text" "lower") ∧
    library.call "upper" [.null] = .error (.argumentCount "upper" 2 1) ∧
    library.call "upper" [.null, .null] = .error (.invalidArgument "no text") := by
  intro fs library env
  obtain ⟨-, hnames, -, m, hm, -, hplace, -, hcall⟩ := call_as_registered "text" fs env
  have hbound : "text" ∈ env.names := by decide
  obtain ⟨before, old, after, henv, -, hregister⟩ := hplace hbound
  have hkeys : m.keys = ["upper", "empty"] := by
    rw [OrderedMap.keys, hm]
    rfl
  have hshown : m.get? "upper" =
      some (.string ("<native " ++ "upper" ++ "/" ++ (2 : Nat).repr ++ ">")) := by
    rw [OrderedMap.get?, hm]
    rfl
  obtain ⟨f, hf, happly⟩ := ((hcall "upper" [.null, .null]).2.2 2 hshown).2 rfl
  cases hf
  refine ⟨hnames, hbound, ?_, (hcall "lower" []).1 ?_,
    ((hcall "upper" [.null]).2.2 2 hshown).1 (by decide), happly⟩
  · have hsame : env.toList.map (·.1) = ["text", "z"] := rfl
    rw [henv] at hsame
    rw [hregister]
    simpa using hsame
  · rw [hkeys]
    decide

end NativeLibrary
end EchoScript
