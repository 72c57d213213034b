/-
  File:      Rabbits/Platform/Cmdline.lean
  Subject:   The command line of a platform (platforms/*/system_init.cpp: parse_cmdline).

  The platforms have one parser with a table of options and a `switch` of their own.

  * `Cmdline`, `parseCmdline` -- the table, the `switch`, and the loop over the arguments;
  * `Given`, `parseFrom_arguments`, `parseFrom_ok` -- what is taken: recognised options with their
    arguments, and nothing else; `parseFrom_error` -- what an error says;
  * `Fields` -- what each option is for: its own field, and the one that `initrd` also changes;
  * `independent_of_undisturbed`, `undisturbed_of_independent` -- **when every option changes its own
    field only, in whatever order they are given**.
-/
import Rabbits.Lib.Assign
import Rabbits.Lib.KeyTable
import Rabbits.Lib.Scanf

namespace Rabbits

open Lib

/-! ## 1. The parser -/

/-- The characters of a text before its NUL. -/
abbrev Text := List Char

/-- `cmdline_option`. -/
structure CmdlineOption (Index : Type) where
  name : Text
  flags : Nat
  index : Index
  deriving DecidableEq

def HAS_ARG : Nat := 0x0001

def CmdlineOption.hasArg {Index : Type} (popt : CmdlineOption Index) : Bool :=
  popt.flags &&& HAS_ARG ≠ 0

/-- The options of a platform, what they set, and the `switch` over their indices. No entry of the
    table hides another one. -/
structure Cmdline where
  Index : Type
  State : Type
  decEq : DecidableEq Index
  cmdlineOptions : List (CmdlineOption Index)
  assign : Index → Option Text → State → State
  found : ∀ popt ∈ cmdlineOptions, cmdlineOptions.find? (·.name = popt.name) = some popt

instance (C : Cmdline) : DecidableEq C.Index := C.decEq

/-- How a run of the parser ends without a result. -/
inductive CmdlineError where
  | exits (stderr : Text) (status : Int)
  /-- `r[1]` of an empty word lies behind its NUL. -/
  | outOfBounds
  deriving DecidableEq

def invalidOption (program r : Text) : CmdlineError :=
  .exits (program ++ ": invalid option -- '".toList ++ r ++ "'\n".toList) 1

def requiresArgument (program r : Text) : CmdlineError :=
  .exits (program ++ ": option '".toList ++ r ++ "' requires an argument\n".toList) 1

/-- `r`: `--foo` is the same as `-foo`. What the first character is, nobody looks. -/
def skipDash : Text → Option Text
  | [] => none
  | c :: r => some (if r.head? = some '-' then r else c :: r)

/-- `atoi`; it is never handed `NULL`. -/
def atoi : Option Text → Int
  | none => 0
  | some s =>
      match (scanInt 0).run s with
      | .ok r => r.1
      | .error _ => 0

/-- `atoi` as an `int`. -/
def atoiInt (optarg : Option Text) : BitVec 32 := BitVec.ofInt 32 (atoi optarg)

namespace Cmdline

variable (C : Cmdline)

/-- The search for `r + 1` in the table. -/
def lookup (name : Text) : Option (CmdlineOption C.Index) :=
  C.cmdlineOptions.find? (·.name = name)

/-- The loop of `parse_cmdline`, from `argv[optind]` on. -/
def parseFrom (program : Text) : List Text → C.State → Except CmdlineError C.State
  | [], s => .ok s
  | word :: argv, s =>
      match skipDash word with
      | none => .error .outOfBounds
      | some r =>
          match C.lookup r.tail with
          | none => .error (invalidOption program r)
          | some popt =>
              if popt.hasArg then
                match argv with
                | [] => .error (requiresArgument program r)
                | optarg :: argv => parseFrom program argv (C.assign popt.index (some optarg) s)
              else parseFrom program argv (C.assign popt.index none s)

/-- `parse_cmdline`. -/
def parseCmdline (argv : List Text) (s : C.State) : Except CmdlineError C.State :=
  C.parseFrom (argv.headD []) argv.tail s

/-! ## 2. Arguments that are options -/

/-- An option on the command line: its word, and its argument if it takes one. -/
structure Given where
  word : Text
  argument : Option Text
  option : CmdlineOption C.Index
  recognised : option ∈ C.cmdlineOptions
  named : (skipDash word).map List.tail = some option.name
  takes : argument.isSome = option.hasArg

variable {C}

def Given.key (g : C.Given) : C.Index := g.option.index

def Given.words (g : C.Given) : List Text := g.word :: g.argument.toList

def arguments (given : List C.Given) : List Text := given.flatMap Given.words

/-- Each option at most once. -/
abbrev Once (given : List C.Given) : Prop := Distinct Given.key given

/-- The assignments of the options, one after another. -/
def setAll (given : List C.Given) (s : C.State) : C.State :=
  given.foldl (fun s g => C.assign g.key g.argument s) s

theorem parseFrom_given (program : Text) (g : C.Given) (argv : List Text) (s : C.State) :
    C.parseFrom program (g.words ++ argv) s =
      C.parseFrom program argv (C.assign g.key g.argument s) := by
  obtain ⟨r, hr, hname⟩ := Option.map_eq_some_iff.mp g.named
  have hfound : C.lookup r.tail = some g.option := by
    rw [hname]
    exact C.found g.option g.recognised
  have htakes := g.takes
  cases harg : g.argument with
  | none =>
      rw [harg] at htakes
      simp [Given.words, harg, parseFrom, hr, hfound, ← htakes, Given.key]
  | some a =>
      rw [harg] at htakes
      simp [Given.words, harg, parseFrom, hr, hfound, ← htakes, Given.key]

/-- **Recognised options with their arguments are all taken, in the order they are given.** -/
theorem parseFrom_arguments (program : Text) (given : List C.Given) (s : C.State) :
    C.parseFrom program (arguments given) s = .ok (setAll given s) := by
  induction given generalizing s with
  | nil => rfl
  | cons g given ih =>
      rw [arguments, List.flatMap_cons, parseFrom_given]
      exact ih _

theorem parseCmdline_arguments (program : Text) (given : List C.Given) (s : C.State) :
    C.parseCmdline (program :: arguments given) s = .ok (setAll given s) :=
  parseFrom_arguments program given s

theorem named_of_lookup {word r : Text} {popt : CmdlineOption C.Index}
    (hr : skipDash word = some r) (hp : C.lookup r.tail = some popt) :
    (skipDash word).map List.tail = some popt.name := by
  have hname : popt.name = r.tail := by simpa using List.find?_some hp
  rw [hr, hname]
  rfl

/-- **And what the parser takes consists of such options.** -/
theorem parseFrom_ok {program : Text} {argv : List Text} {s s' : C.State}
    (h : C.parseFrom program argv s = .ok s') :
    ∃ given : List C.Given, argv = arguments given ∧ s' = setAll given s := by
  fun_induction C.parseFrom program argv s with
  | case1 s =>
      cases h
      exact ⟨[], rfl, rfl⟩
  | case2 => cases h
  | case3 => cases h
  | case4 => cases h
  | case5 word s r hr popt hp harg optarg argv ih =>
      obtain ⟨given, rfl, rfl⟩ := ih h
      have hmem := List.mem_of_find?_eq_some hp
      exact ⟨⟨word, some optarg, popt, hmem, named_of_lookup hr hp, by simp [harg]⟩ :: given,
        rfl, rfl⟩
  | case6 word argv s r hr popt hp harg ih =>
      obtain ⟨given, rfl, rfl⟩ := ih h
      have hmem := List.mem_of_find?_eq_some hp
      exact ⟨⟨word, none, popt, hmem, named_of_lookup hr hp, by simp [harg]⟩ :: given, rfl, rfl⟩

/-- **An error names the word that it is about.** -/
theorem parseFrom_error {program : Text} {argv : List Text} {s : C.State} {e : CmdlineError}
    (h : C.parseFrom program argv s = .error e) :
    ∃ word ∈ argv, skipDash word = none ∧ e = .outOfBounds ∨
      ∃ r, skipDash word = some r ∧
        (C.lookup r.tail = none ∧ e = invalidOption program r ∨
          ∃ popt, C.lookup r.tail = some popt ∧ popt.hasArg = true ∧
            e = requiresArgument program r) := by
  fun_induction C.parseFrom program argv s with
  | case1 => cases h
  | case2 word argv s hr =>
      cases h
      exact ⟨word, .head _, .inl ⟨hr, rfl⟩⟩
  | case3 word argv s r hr hp =>
      cases h
      exact ⟨word, .head _, .inr ⟨r, hr, .inl ⟨hp, rfl⟩⟩⟩
  | case4 word s r hr popt hp harg =>
      cases h
      exact ⟨word, .head _, .inr ⟨r, hr, .inr ⟨popt, hp, harg, rfl⟩⟩⟩
  | case5 word s r hr popt hp harg optarg argv ih =>
      obtain ⟨word', hmem, herr⟩ := ih h
      exact ⟨word', .tail _ (.tail _ hmem), herr⟩
  | case6 word argv s r hr popt hp harg ih =>
      obtain ⟨word', hmem, herr⟩ := ih h
      exact ⟨word', .tail _ hmem, herr⟩

/-! ## 3. What the options are for -/

/-- What a field can hold. -/
inductive FieldValue where
  | string (s : Option Text)
  | int (v : BitVec 32)
  | ulong (v : BitVec 32)
  deriving DecidableEq

/-- The field (or global) of each option and the value that its argument stands for. The `case` of
    `initrd` runs on into the one of `gdb_port`. -/
structure Fields (C : Cmdline) where
  field : C.State → C.Index → FieldValue
  value : C.Index → Option Text → FieldValue
  initrd : C.Index
  gdbPort : C.Index
  field_inj : ∀ s s', field s = field s' → s = s'
  value_gdbPort : ∀ a, value gdbPort a = .int (atoiInt a)
  field_assign : ∀ i a s, field (C.assign i a s) =
    assignAll ((i, value i a) :: if i = initrd then [(gdbPort, value gdbPort a)] else []) (field s)

namespace Fields

variable (F : C.Fields)

/-- What a field should hold: the value of its option, and without it what it held before. -/
def expected (given : List C.Given) (s : C.State) (i : C.Index) : FieldValue :=
  match given.find? (·.key == i) with
  | some g => F.value i g.argument
  | none => F.field s i

/-- The options, each given once, change their own fields only, whatever their order is. -/
structure Independent (program : Text) (given : List C.Given) (s : C.State) : Prop where
  sets : ∃ s', C.parseCmdline (program :: arguments given) s = .ok s' ∧
    ∀ i, F.field s' i = F.expected given s i
  permutes : ∀ given', given'.Perm given →
    C.parseCmdline (program :: arguments given') s = C.parseCmdline (program :: arguments given) s

/-- The name of an initrd reads as the port that the gdb port should be. -/
def PortUndisturbed (given : List C.Given) (s : C.State) : Prop :=
  ∀ g ∈ given, g.key = F.initrd → .int (atoiInt g.argument) = F.expected given s F.gdbPort

instance (given : List C.Given) (s : C.State) : Decidable (F.PortUndisturbed given s) := by
  unfold PortUndisturbed
  infer_instance

/-- The assignments of an option. -/
def effects (g : C.Given) : List (C.Index × FieldValue) :=
  (g.key, F.value g.key g.argument) ::
    if g.key = F.initrd then [(F.gdbPort, F.value F.gdbPort g.argument)] else []

theorem field_setAll (given : List C.Given) (s : C.State) :
    F.field (setAll given s) = assignAll (given.flatMap F.effects) (F.field s) := by
  induction given generalizing s with
  | nil => rfl
  | cons g given ih =>
      rw [List.flatMap_cons, assignAll_append]
      exact (ih _).trans (congrArg _ (F.field_assign g.key g.argument s))

theorem expected_of_mem {given : List C.Given} (h : Once given) {g : C.Given} (hg : g ∈ given)
    (s : C.State) : F.expected given s g.key = F.value g.key g.argument := by
  rw [expected, h.find?_key hg]

theorem expected_of_not_mem {given : List C.Given} {i : C.Index} (h : ∀ g ∈ given, g.key ≠ i)
    (s : C.State) : F.expected given s i = F.field s i := by
  have hnone : given.find? (·.key == i) = none :=
    List.find?_eq_none.mpr fun g hg => by simpa using h g hg
  rw [expected, hnone]

/-- Every assignment of every option is to the value that its field should hold. -/
theorem effects_expected {given : List C.Given} (h : Once given) {s : C.State}
    (hport : F.PortUndisturbed given s) {g : C.Given} (hg : g ∈ given) :
    ∀ p ∈ F.effects g, p.2 = F.expected given s p.1 := by
  intro p hp
  rcases List.mem_cons.mp hp with rfl | hp
  · exact (F.expected_of_mem h hg s).symm
  · split at hp
    · next hkey =>
        obtain rfl := List.mem_singleton.mp hp
        exact (F.value_gdbPort g.argument).trans (hport g hg hkey)
    · cases hp

theorem field_setAll_expected {given given' : List C.Given} (h : Once given) {s : C.State}
    (hport : F.PortUndisturbed given s) (hperm : given'.Perm given) :
    F.field (setAll given' s) = F.expected given s := by
  rw [field_setAll]
  refine assignAll_consistent (fun p hp => ?_) (fun i hi => ?_)
  · obtain ⟨g, hg, hp⟩ := List.mem_flatMap.mp hp
    exact F.effects_expected h hport (hperm.mem_iff.mp hg) p hp
  · refine (F.expected_of_not_mem (fun g hg hkey => ?_) s).symm
    subst hkey
    exact hi _ (List.mem_flatMap.mpr ⟨g, hperm.mem_iff.mpr hg, .head _⟩)

theorem independent_of_undisturbed {given : List C.Given} (h : Once given) {s : C.State}
    (hport : F.PortUndisturbed given s) (program : Text) : F.Independent program given s := by
  refine ⟨⟨setAll given s, parseCmdline_arguments program given s, fun i => ?_⟩,
    fun given' hperm => ?_⟩
  · exact congrFun (F.field_setAll_expected h hport (.refl _)) i
  · have hfields := (F.field_setAll_expected h hport hperm).trans
      (F.field_setAll_expected h hport (.refl _)).symm
    rw [parseCmdline_arguments, parseCmdline_arguments, F.field_inj _ _ hfields]

/-- With an initrd given last, the gdb port is what its name reads as. -/
theorem port_of_initrd_last (given : List C.Given) {g : C.Given} (hkey : g.key = F.initrd)
    (s : C.State) :
    F.field (setAll (given ++ [g]) s) F.gdbPort = .int (atoiInt g.argument) := by
  have heff : F.effects g = [(g.key, F.value g.key g.argument)] ++
      [(F.gdbPort, F.value F.gdbPort g.argument)] := by
    rw [effects, if_pos hkey]
    rfl
  rw [field_setAll, List.flatMap_append, List.flatMap_singleton, heff, ← List.append_assoc,
    assignAll_last, F.value_gdbPort]

theorem undisturbed_of_independent {program : Text} {given : List C.Given} {s : C.State}
    (h : F.Independent program given s) : F.PortUndisturbed given s := by
  intro g hg hkey
  obtain ⟨l, l', rfl⟩ := List.append_of_mem hg
  -- the order in which the initrd comes last
  have hperm : (l ++ l' ++ [g]).Perm (l ++ g :: l') := by
    rw [List.append_assoc]
    exact (List.perm_append_singleton g l').append_left l
  obtain ⟨s', hs, hfield⟩ := h.sets
  have hlast := h.permutes _ hperm
  rw [hs, parseCmdline_arguments] at hlast
  cases hlast
  rw [← hfield, F.port_of_initrd_last (l ++ l') hkey]

end Fields

end Cmdline

end Rabbits
