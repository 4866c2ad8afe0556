import EchoScript.Command.Arguments
import Mathlib.Tactic.MkIffOfInductiveProp
import Mathlib.Tactic.Tauto

/-!
# EchoScript.Proofs.Arguments

What the arguments of the command ask for.

`Request.LeadsTo` says it without an order among the arguments, by what they hold and how often.
Reading them one by one comes to the same (`complete_eq_run`): for each kind of argument, both sides
change in the same way when the argument is put in front.
-/

namespace EchoScript
namespace Command

/-- What a request can ask for to be written out. -/
inductive Flag where
  | tokens
  | tree

namespace Flag

def text : Flag → String
  | .tokens => "--dump-tokens"
  | .tree => "--dump-ast"

theorem exists_iff {P : Flag → Prop} : (∃ flag, P flag) ↔ P .tokens ∨ P .tree := by
  constructor
  · rintro ⟨_ | _, h⟩
    · exact .inl h
    · exact .inr h
  · rintro (h | h)
    · exact ⟨_, h⟩
    · exact ⟨_, h⟩

theorem forall_iff {P : Flag → Prop} : (∀ flag, P flag) ↔ P .tokens ∧ P .tree :=
  ⟨fun h => ⟨h _, h _⟩, fun h flag => by cases flag <;> simp only [h]⟩

end Flag

namespace Request

def has (r : Request) : Flag → Bool
  | .tokens => r.dumpTokens
  | .tree => r.dumpTree

def turnOn (r : Request) : Flag → Request
  | .tokens => { r with dumpTokens := true }
  | .tree => { r with dumpTree := true }

end Request

/-- The arguments before the one that ends the options. -/
def options (arguments : List String) : List String := arguments.takeWhile (· ≠ "--")

/-- The arguments after the one that ends the options. -/
def operands (arguments : List String) : List String := (arguments.dropWhile (· ≠ "--")).tail

/-- The argument asks for something to be written out. -/
def IsFlag (a : String) : Prop := ∃ flag : Flag, a = flag.text

theorem isFlag_iff {a : String} : IsFlag a ↔ a = "--dump-tokens" ∨ a = "--dump-ast" :=
  Flag.exists_iff

instance (a : String) : Decidable (IsFlag a) := decidable_of_iff _ isFlag_iff.symm

/-- The argument names a file where options are read too. -/
def IsFileName (a : String) : Prop := a ≠ "" ∧ (a = "-" ∨ ¬ ['-'] <+: a.toList)

def files (arguments : List String) : List String :=
  (options arguments).filter (¬ IsFlag ·) ++ operands arguments

theorem options_cons (a : String) (rest : List String) :
    options (a :: rest) = if a = "--" then [] else a :: options rest := by
  simp only [options, List.takeWhile_cons]
  by_cases h : a = "--" <;> simp [h]

theorem operands_cons (a : String) (rest : List String) :
    operands (a :: rest) = if a = "--" then rest else operands rest := by
  simp only [operands, List.dropWhile_cons]
  by_cases h : a = "--" <;> simp [h]

theorem files_cons (a : String) (rest : List String) :
    files (a :: rest) =
      if a = "--" then rest else if IsFlag a then files rest else a :: files rest := by
  rw [files, options_cons, operands_cons]
  by_cases hdash : a = "--"
  · simp [hdash]
  · by_cases hflag : IsFlag a <;> simp [hdash, hflag, files]

namespace Request

/-- The arguments complete the first request to the last. Only flags and names of files stand among
them, and the last request has the flags and the file of the first and those of the arguments, none
of them twice. -/
@[mk_iff]
structure LeadsTo (first : Request) (arguments : List String) (last : Request) : Prop where
  plain : ∀ a ∈ options arguments, IsFlag a ∨ IsFileName a
  named : ∀ a ∈ operands arguments, a ≠ ""
  flags : ∀ flag, (first.has flag).toNat + (options arguments).count flag.text =
    (last.has flag).toNat
  file : first.file.toList ++ files arguments = last.file.toList

theorem toNat_add_succ {b c : Bool} {n : Nat} :
    b.toNat + (n + 1) = c.toNat ↔ b = false ∧ true.toNat + n = c.toNat := by
  cases b <;> cases c <;> simp

theorem toList_append_cons {o p : Option String} {a : String} {as : List String} :
    o.toList ++ a :: as = p.toList ↔ o = none ∧ (some a).toList ++ as = p.toList := by
  cases o <;> cases p <;> simp

theorem eq_iff {first last : Request} : first = last ↔
    (∀ flag, (first.has flag).toNat = (last.has flag).toNat) ∧
      first.file.toList = last.file.toList := by
  constructor
  · rintro rfl
    exact ⟨fun _ => rfl, rfl⟩
  · have hbool : ∀ b c : Bool, b.toNat = c.toNat → b = c := by decide
    obtain ⟨file, tokens, tree⟩ := first
    obtain ⟨file', tokens', tree'⟩ := last
    rintro ⟨hflags, hfile⟩
    rw [mk.injEq]
    refine ⟨?_, hbool _ _ (hflags .tokens), hbool _ _ (hflags .tree)⟩
    cases file <;> cases file' <;> simp_all

variable {first last : Request} {rest : List String}

/-! ## A flag in front -/

theorem complete_flag (flag : Flag) : first.complete (flag.text :: rest) = .ok (.run last) ↔
    first.has flag = false ∧ (first.turnOn flag).complete rest = .ok (.run last) := by
  have hnotice : Notice.ofArgument? flag.text = none := by cases flag <;> decide
  cases hflag : first.has flag <;> cases flag <;>
    simp_all [complete, addArgument, has, turnOn, Flag.text]

theorem leadsTo_flag (flag : Flag) : first.LeadsTo (flag.text :: rest) last ↔
    first.has flag = false ∧ (first.turnOn flag).LeadsTo rest last := by
  have hdash : flag.text ≠ "--" := by cases flag <;> decide
  have hflag : IsFlag flag.text := ⟨flag, rfl⟩
  have hother : "--dump-tokens" ≠ "--dump-ast" := by decide
  simp only [leadsTo_iff, options_cons, operands_cons, files_cons, if_neg hdash, if_pos hflag,
    List.forall_mem_cons, Flag.forall_iff]
  cases flag <;>
    simp only [has, turnOn, Flag.text, List.count_cons_self, List.count_cons_of_ne hother,
      List.count_cons_of_ne hother.symm, toNat_add_succ] <;>
    tauto

/-! ## A file in front -/

theorem leadsTo_file {a : String} (hdash : a ≠ "--") (hflag : ¬ IsFlag a) :
    first.LeadsTo (a :: rest) last ↔
      IsFileName a ∧ first.file = none ∧ { first with file := some a }.LeadsTo rest last := by
  have hne : ∀ flag : Flag, a ≠ flag.text := fun flag h => hflag ⟨flag, h⟩
  have hcount : ∀ flag : Flag, (a :: options rest).count flag.text =
      (options rest).count flag.text := fun flag => List.count_cons_of_ne (hne flag)
  simp only [leadsTo_iff, options_cons, operands_cons, files_cons, if_neg hdash, if_neg hflag,
    List.forall_mem_cons, hcount, toList_append_cons]
  tauto

theorem not_isFileName_of_notice {a : String} {n : Notice} (h : Notice.ofArgument? a = some n) :
    ¬ IsFileName a := by
  have hasked := List.find?_some h
  have hcases : a = n.option.1 ∨ ['-', n.option.2] <+: a.toList := by
    simpa [Notice.isAsked] using hasked
  have hlong : ['-'] <+: n.option.1.toList ∧ n.option.1 ≠ "-" := by
    cases n <;> decide
  rintro ⟨-, rfl | hdash⟩
  · simp [hlong.2.symm] at hcases
  · obtain rfl | ⟨name, hname⟩ := hcases
    · exact hdash hlong.1
    · exact hdash ⟨n.option.2 :: name, hname⟩

theorem addFile_eq_ok {next : Request} {a : String} :
    first.addFile a = .ok next ↔
      a ≠ "" ∧ first.file = none ∧ { first with file := some a } = next := by
  unfold addFile
  by_cases hfile : first.file = none
  · by_cases ha : a = "" <;> simp [hfile, ha]
  · simp [hfile, Option.isSome_iff_ne_none]

theorem addArgument_eq_ok {next : Request} {a : String} (hflag : ¬ IsFlag a) :
    first.addArgument a = .ok next ↔
      IsFileName a ∧ first.file = none ∧ { first with file := some a } = next := by
  obtain ⟨htokens, htree⟩ := not_or.1 (mt isFlag_iff.2 hflag)
  simp only [addArgument, if_neg htokens, if_neg htree, List.isPrefixOf_iff_prefix]
  by_cases hname : a = "-" ∨ ¬ ['-'] <+: a.toList
  · have hfile : ¬ (['-'] <+: a.toList ∧ a ≠ "-") := by tauto
    rw [if_neg hfile, addFile_eq_ok, IsFileName, and_iff_left hname]
  · have hoption : ['-'] <+: a.toList ∧ a ≠ "-" := by tauto
    rw [if_pos hoption]
    simp [IsFileName, hname]

theorem complete_file {a : String} (hdash : a ≠ "--") (hflag : ¬ IsFlag a) :
    first.complete (a :: rest) = .ok (.run last) ↔ IsFileName a ∧ first.file = none ∧
      { first with file := some a }.complete rest = .ok (.run last) := by
  cases hnotice : Notice.ofArgument? a with
  | some n =>
    -- The notice is all that is asked for then, and no file can be meant.
    have hname := not_isFileName_of_notice hnotice
    simp [complete, hnotice, hname]
  | none =>
    have hstep : first.complete (a :: rest) = .ok (.run last) ↔
        ∃ next, first.addArgument a = .ok next ∧ next.complete rest = .ok (.run last) := by
      simp only [complete, hnotice, if_neg hdash]
      cases first.addArgument a <;> simp
    rw [hstep]
    simp [addArgument_eq_ok hflag, and_assoc]

theorem addFiles_eq_ok {as : List String} :
    first.addFiles as = .ok last ↔ (∀ a ∈ as, a ≠ "") ∧
      (∀ flag, (first.has flag).toNat = (last.has flag).toNat) ∧
      first.file.toList ++ as = last.file.toList := by
  induction as generalizing first with
  | nil => simp [addFiles, eq_iff]
  | cons a as ih =>
    have hstep : first.addFiles (a :: as) = .ok last ↔
        ∃ next, first.addFile a = .ok next ∧ next.addFiles as = .ok last := by
      rw [addFiles]
      cases first.addFile a <;> simp
    rw [hstep, toList_append_cons, List.forall_mem_cons]
    simp only [addFile_eq_ok, ih]
    constructor
    · rintro ⟨next, ⟨ha, hfile, rfl⟩, has, hflags, hlast⟩
      exact ⟨⟨ha, has⟩, hflags, hfile, hlast⟩
    · rintro ⟨⟨ha, has⟩, hflags, hfile, hlast⟩
      exact ⟨_, ⟨ha, hfile, rfl⟩, has, hflags, hlast⟩

theorem complete_end : first.complete ("--" :: rest) = .ok (.run last) ↔
    first.addFiles rest = .ok last := by
  have hnotice : Notice.ofArgument? "--" = none := by decide
  simp only [complete, hnotice, if_pos]
  cases first.addFiles rest <;> simp [Except.map]

theorem leadsTo_end : first.LeadsTo ("--" :: rest) last ↔ first.addFiles rest = .ok last := by
  simp [leadsTo_iff, addFiles_eq_ok, files, options_cons, operands_cons]

theorem complete_eq_run {arguments : List String} :
    first.complete arguments = .ok (.run last) ↔ first.LeadsTo arguments last := by
  induction arguments generalizing first with
  | nil => simp [complete, leadsTo_iff, eq_iff, options, operands, files]
  | cons a rest ih =>
    by_cases hdash : a = "--"
    · rw [hdash, complete_end, leadsTo_end]
    · by_cases hflag : IsFlag a
      · obtain ⟨flag, rfl⟩ := hflag
        rw [complete_flag, leadsTo_flag, ih]
      · rw [complete_file hdash hflag, leadsTo_file hdash hflag, ih]

end Request
end Command
end EchoScript
