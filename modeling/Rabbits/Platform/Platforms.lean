/-
  File:      Rabbits/Platform/Platforms.lean
  Subject:   The options of roger, energizer and thumper (platforms/*/system_init.cpp, main.cpp).

  * `Roger`, `Energizer`, `Thumper` -- each with its table, its `switch`, its `init_struct` as
    `sc_main` fills it, and the field of each option;
  * `PlatformName` -- the three of them;
  * `independent_iff` -- **on which command lines an option changes its own field only**;
  * `undisturbed_initial_iff` -- without a gdb port, those whose initrd reads as the number 0.
-/
import Rabbits.Platform.Cmdline

namespace Rabbits

open Lib Cmdline

/-! ## 1. Sizes -/

/-- `atoi (optarg) * 1024 * 1024` as an `int`. -/
def megabytes (optarg : Option Text) : BitVec 32 := atoiInt optarg * 1024 * 1024

/-! ## 2. Roger -/

namespace Roger

/-- `CMDLINE_OPTION_...`. -/
inductive Index where
  | loops | ncpu | cpuFamily | cpu | ram | sram | kernel | initrd | gdbPort | kernelCmd
  deriving DecidableEq

/-- `init_struct`, and the global that the option `L` sets. -/
@[ext] structure State where
  cpuFamily : Option Text
  cpuModel : Option Text
  kernelFilename : Option Text
  initrdFilename : Option Text
  kernelCmdline : Option Text
  noCpus : BitVec 32
  ramsize : BitVec 32
  sramsize : BitVec 32
  gdbPort : BitVec 32
  noFramesToSimulate : BitVec 32
  deriving DecidableEq

/-- `cmdline_options`. -/
def cmdlineOptions : List (CmdlineOption Index) :=
  [⟨"L".toList, HAS_ARG, .loops⟩,
   ⟨"ncpu".toList, HAS_ARG, .ncpu⟩,
   ⟨"M".toList, HAS_ARG, .cpuFamily⟩,
   ⟨"cpu".toList, HAS_ARG, .cpu⟩,
   ⟨"ram".toList, HAS_ARG, .ram⟩,
   ⟨"sram".toList, HAS_ARG, .sram⟩,
   ⟨"kernel".toList, HAS_ARG, .kernel⟩,
   ⟨"initrd".toList, HAS_ARG, .initrd⟩,
   ⟨"gdb_port".toList, HAS_ARG, .gdbPort⟩,
   ⟨"append".toList, HAS_ARG, .kernelCmd⟩]

/-- The `switch`. -/
def assign (popt : Index) (optarg : Option Text) (s : State) : State :=
  match popt with
  | .loops => { s with noFramesToSimulate := atoiInt optarg }
  | .ncpu => { s with noCpus := atoiInt optarg }
  | .cpuFamily => { s with cpuFamily := optarg }
  | .cpu => { s with cpuModel := optarg }
  | .ram => { s with ramsize := megabytes optarg }
  | .sram => { s with sramsize := megabytes optarg }
  | .kernel => { s with kernelFilename := optarg }
  -- no break: the next case is run as well
  | .initrd => { s with initrdFilename := optarg, gdbPort := atoiInt optarg }
  | .gdbPort => { s with gdbPort := atoiInt optarg }
  | .kernelCmd => { s with kernelCmdline := optarg }

abbrev cmdline : Cmdline where
  Index := Index
  State := State
  decEq := inferInstance
  cmdlineOptions := cmdlineOptions
  assign := assign
  found := by decide

/-- `parse_cmdline` of roger. -/
def parseCmdline (argv : List Text) (s : State) : Except CmdlineError State :=
  cmdline.parseCmdline argv s

/-- What `sc_main` sets before. -/
def initial : State where
  cpuFamily := some "arm".toList
  cpuModel := none
  kernelFilename := none
  initrdFilename := none
  kernelCmdline := none
  noCpus := 4
  ramsize := 256 * 1024 * 1024
  sramsize := 0
  gdbPort := 0
  noFramesToSimulate := 0

/-- The field that an option is for. -/
def field (s : State) : Index → FieldValue
  | .loops => .ulong s.noFramesToSimulate
  | .ncpu => .int s.noCpus
  | .cpuFamily => .string s.cpuFamily
  | .cpu => .string s.cpuModel
  | .ram => .int s.ramsize
  | .sram => .int s.sramsize
  | .kernel => .string s.kernelFilename
  | .initrd => .string s.initrdFilename
  | .gdbPort => .int s.gdbPort
  | .kernelCmd => .string s.kernelCmdline

/-- What its argument stands for. -/
def value (popt : Index) (optarg : Option Text) : FieldValue :=
  match popt with
  | .loops => .ulong (atoiInt optarg)
  | .ncpu => .int (atoiInt optarg)
  | .cpuFamily => .string optarg
  | .cpu => .string optarg
  | .ram => .int (megabytes optarg)
  | .sram => .int (megabytes optarg)
  | .kernel => .string optarg
  | .initrd => .string optarg
  | .gdbPort => .int (atoiInt optarg)
  | .kernelCmd => .string optarg

theorem field_inj (s s' : State) (h : field s = field s') : s = s' := by
  have hi := congrFun h
  exact State.ext
    (FieldValue.string.inj (hi .cpuFamily))
    (FieldValue.string.inj (hi .cpu))
    (FieldValue.string.inj (hi .kernel))
    (FieldValue.string.inj (hi .initrd))
    (FieldValue.string.inj (hi .kernelCmd))
    (FieldValue.int.inj (hi .ncpu))
    (FieldValue.int.inj (hi .ram))
    (FieldValue.int.inj (hi .sram))
    (FieldValue.int.inj (hi .gdbPort))
    (FieldValue.ulong.inj (hi .loops))

def fields : cmdline.Fields where
  field := field
  value := value
  initrd := Index.initrd
  gdbPort := Index.gdbPort
  field_inj := field_inj
  value_gdbPort _ := rfl
  field_assign i a s := by
    funext j
    cases i <;> cases j <;> rfl

/-- `-gdb_port 1234`. -/
def gdbPort1234 : cmdline.Given where
  word := "-gdb_port".toList
  argument := some "1234".toList
  option := ⟨"gdb_port".toList, HAS_ARG, Index.gdbPort⟩
  recognised := by decide
  named := by decide
  takes := rfl

/-- `-initrd rd`. -/
def initrdImage : cmdline.Given where
  word := "-initrd".toList
  argument := some "rd".toList
  option := ⟨"initrd".toList, HAS_ARG, Index.initrd⟩
  recognised := by decide
  named := by decide
  takes := rfl

/-- `--kernel image`. -/
def kernelImage : cmdline.Given where
  word := "--kernel".toList
  argument := some "image".toList
  option := ⟨"kernel".toList, HAS_ARG, Index.kernel⟩
  recognised := by decide
  named := by decide
  takes := rfl

end Roger

/-! ## 3. Energizer -/

namespace Energizer

/-- `CMDLINE_OPTION_...`. -/
inductive Index where
  | loops | ncpu | cpuFamily | cpu | ram | ecRam | sram | kernel | ecKernel | initrd | gdbPort
  | ecGdbPort | kernelCmd
  deriving DecidableEq

/-- `init_struct`, and the global that the option `L` sets. -/
@[ext] structure State where
  cpuFamily : Option Text
  cpuModel : Option Text
  kernelFilename : Option Text
  ecKernelFilename : Option Text
  initrdFilename : Option Text
  kernelCmdline : Option Text
  noCpus : BitVec 32
  ramsize : BitVec 32
  ecRamsize : BitVec 32
  sramsize : BitVec 32
  gdbPort : BitVec 32
  ecGdbPort : BitVec 32
  noFramesToSimulate : BitVec 32
  deriving DecidableEq

/-- `cmdline_options`. -/
def cmdlineOptions : List (CmdlineOption Index) :=
  [⟨"L".toList, HAS_ARG, .loops⟩,
   ⟨"ncpu".toList, HAS_ARG, .ncpu⟩,
   ⟨"M".toList, HAS_ARG, .cpuFamily⟩,
   ⟨"cpu".toList, HAS_ARG, .cpu⟩,
   ⟨"ram".toList, HAS_ARG, .ram⟩,
   ⟨"ec_ram".toList, HAS_ARG, .ecRam⟩,
   ⟨"sram".toList, HAS_ARG, .sram⟩,
   ⟨"kernel".toList, HAS_ARG, .kernel⟩,
   ⟨"ec_kernel".toList, HAS_ARG, .ecKernel⟩,
   ⟨"initrd".toList, HAS_ARG, .initrd⟩,
   ⟨"gdb_port".toList, HAS_ARG, .gdbPort⟩,
   ⟨"ec_gdb_port".toList, HAS_ARG, .ecGdbPort⟩,
   ⟨"append".toList, HAS_ARG, .kernelCmd⟩]

/-- The `switch`. -/
def assign (popt : Index) (optarg : Option Text) (s : State) : State :=
  match popt with
  | .loops => { s with noFramesToSimulate := atoiInt optarg }
  | .ncpu => { s with noCpus := atoiInt optarg }
  | .cpuFamily => { s with cpuFamily := optarg }
  | .cpu => { s with cpuModel := optarg }
  | .ram => { s with ramsize := megabytes optarg }
  | .ecRam => { s with ecRamsize := megabytes optarg }
  | .sram => { s with sramsize := megabytes optarg }
  | .kernel => { s with kernelFilename := optarg }
  | .ecKernel => { s with ecKernelFilename := optarg }
  -- no break: the next case is run as well
  | .initrd => { s with initrdFilename := optarg, gdbPort := atoiInt optarg }
  | .gdbPort => { s with gdbPort := atoiInt optarg }
  | .ecGdbPort => { s with ecGdbPort := atoiInt optarg }
  | .kernelCmd => { s with kernelCmdline := optarg }

abbrev cmdline : Cmdline where
  Index := Index
  State := State
  decEq := inferInstance
  cmdlineOptions := cmdlineOptions
  assign := assign
  found := by decide

/-- `parse_cmdline` of energizer. -/
def parseCmdline (argv : List Text) (s : State) : Except CmdlineError State :=
  cmdline.parseCmdline argv s

/-- What `sc_main` sets before. -/
def initial : State where
  cpuFamily := some "arm".toList
  cpuModel := none
  kernelFilename := none
  ecKernelFilename := none
  initrdFilename := none
  kernelCmdline := none
  noCpus := 4
  ramsize := 128 * 1024 * 1024
  ecRamsize := 20 * 1024 * 1024
  sramsize := 0
  gdbPort := 0
  ecGdbPort := 0
  noFramesToSimulate := 0

/-- The field that an option is for. -/
def field (s : State) : Index → FieldValue
  | .loops => .ulong s.noFramesToSimulate
  | .ncpu => .int s.noCpus
  | .cpuFamily => .string s.cpuFamily
  | .cpu => .string s.cpuModel
  | .ram => .int s.ramsize
  | .ecRam => .int s.ecRamsize
  | .sram => .int s.sramsize
  | .kernel => .string s.kernelFilename
  | .ecKernel => .string s.ecKernelFilename
  | .initrd => .string s.initrdFilename
  | .gdbPort => .int s.gdbPort
  | .ecGdbPort => .int s.ecGdbPort
  | .kernelCmd => .string s.kernelCmdline

/-- What its argument stands for. -/
def value (popt : Index) (optarg : Option Text) : FieldValue :=
  match popt with
  | .loops => .ulong (atoiInt optarg)
  | .ncpu => .int (atoiInt optarg)
  | .cpuFamily => .string optarg
  | .cpu => .string optarg
  | .ram => .int (megabytes optarg)
  | .ecRam => .int (megabytes optarg)
  | .sram => .int (megabytes optarg)
  | .kernel => .string optarg
  | .ecKernel => .string optarg
  | .initrd => .string optarg
  | .gdbPort => .int (atoiInt optarg)
  | .ecGdbPort => .int (atoiInt optarg)
  | .kernelCmd => .string optarg

theorem field_inj (s s' : State) (h : field s = field s') : s = s' := by
  have hi := congrFun h
  exact State.ext
    (FieldValue.string.inj (hi .cpuFamily))
    (FieldValue.string.inj (hi .cpu))
    (FieldValue.string.inj (hi .kernel))
    (FieldValue.string.inj (hi .ecKernel))
    (FieldValue.string.inj (hi .initrd))
    (FieldValue.string.inj (hi .kernelCmd))
    (FieldValue.int.inj (hi .ncpu))
    (FieldValue.int.inj (hi .ram))
    (FieldValue.int.inj (hi .ecRam))
    (FieldValue.int.inj (hi .sram))
    (FieldValue.int.inj (hi .gdbPort))
    (FieldValue.int.inj (hi .ecGdbPort))
    (FieldValue.ulong.inj (hi .loops))

def fields : cmdline.Fields where
  field := field
  value := value
  initrd := Index.initrd
  gdbPort := Index.gdbPort
  field_inj := field_inj
  value_gdbPort _ := rfl
  field_assign i a s := by
    funext j
    cases i <;> cases j <;> rfl

end Energizer

/-! ## 4. Thumper -/

namespace Thumper

/-- `CMDLINE_OPTION_...`. -/
inductive Index where
  | ncpu | cpuFamily | cpu | ram | sram | kernel | initrd | gdbPort | kernelCmd | fbUninit
  | blockDev
  deriving DecidableEq

/-- `init_struct`. -/
@[ext] structure State where
  cpuFamily : Option Text
  cpuModel : Option Text
  kernelFilename : Option Text
  initrdFilename : Option Text
  kernelCmdline : Option Text
  noCpus : BitVec 32
  ramsize : BitVec 32
  sramsize : BitVec 32
  gdbPort : BitVec 32
  fbUninit : BitVec 32
  blockDevice : Option Text
  deriving DecidableEq

/-- `cmdline_options`. -/
def cmdlineOptions : List (CmdlineOption Index) :=
  [⟨"ncpu".toList, HAS_ARG, .ncpu⟩,
   ⟨"M".toList, HAS_ARG, .cpuFamily⟩,
   ⟨"cpu".toList, HAS_ARG, .cpu⟩,
   ⟨"ram".toList, HAS_ARG, .ram⟩,
   ⟨"sram".toList, HAS_ARG, .sram⟩,
   ⟨"kernel".toList, HAS_ARG, .kernel⟩,
   ⟨"initrd".toList, HAS_ARG, .initrd⟩,
   ⟨"gdb_port".toList, HAS_ARG, .gdbPort⟩,
   ⟨"append".toList, HAS_ARG, .kernelCmd⟩,
   ⟨"uninitfb".toList, 0, .fbUninit⟩,
   ⟨"blockdev".toList, HAS_ARG, .blockDev⟩]

/-- The `switch`. -/
def assign (popt : Index) (optarg : Option Text) (s : State) : State :=
  match popt with
  | .ncpu => { s with noCpus := atoiInt optarg }
  | .cpuFamily => { s with cpuFamily := optarg }
  | .cpu => { s with cpuModel := optarg }
  | .ram => { s with ramsize := megabytes optarg }
  | .sram => { s with sramsize := megabytes optarg }
  | .kernel => { s with kernelFilename := optarg }
  -- no break: the next case is run as well
  | .initrd => { s with initrdFilename := optarg, gdbPort := atoiInt optarg }
  | .gdbPort => { s with gdbPort := atoiInt optarg }
  | .kernelCmd => { s with kernelCmdline := optarg }
  | .fbUninit => { s with fbUninit := 1 }
  | .blockDev => { s with blockDevice := optarg }

abbrev cmdline : Cmdline where
  Index := Index
  State := State
  decEq := inferInstance
  cmdlineOptions := cmdlineOptions
  assign := assign
  found := by decide

/-- `parse_cmdline` of thumper. -/
def parseCmdline (argv : List Text) (s : State) : Except CmdlineError State :=
  cmdline.parseCmdline argv s

/-- What `sc_main` sets before. -/
def initial : State where
  cpuFamily := some "arm".toList
  cpuModel := none
  kernelFilename := none
  initrdFilename := none
  kernelCmdline := none
  noCpus := 1
  ramsize := 128 * 1024 * 1024
  sramsize := 0
  gdbPort := 0
  fbUninit := 0
  blockDevice := none

/-- The field that an option is for. -/
def field (s : State) : Index → FieldValue
  | .ncpu => .int s.noCpus
  | .cpuFamily => .string s.cpuFamily
  | .cpu => .string s.cpuModel
  | .ram => .int s.ramsize
  | .sram => .int s.sramsize
  | .kernel => .string s.kernelFilename
  | .initrd => .string s.initrdFilename
  | .gdbPort => .int s.gdbPort
  | .kernelCmd => .string s.kernelCmdline
  | .fbUninit => .int s.fbUninit
  | .blockDev => .string s.blockDevice

/-- What its argument stands for. -/
def value (popt : Index) (optarg : Option Text) : FieldValue :=
  match popt with
  | .ncpu => .int (atoiInt optarg)
  | .cpuFamily => .string optarg
  | .cpu => .string optarg
  | .ram => .int (megabytes optarg)
  | .sram => .int (megabytes optarg)
  | .kernel => .string optarg
  | .initrd => .string optarg
  | .gdbPort => .int (atoiInt optarg)
  | .kernelCmd => .string optarg
  | .fbUninit => .int 1
  | .blockDev => .string optarg

theorem field_inj (s s' : State) (h : field s = field s') : s = s' := by
  have hi := congrFun h
  exact State.ext
    (FieldValue.string.inj (hi .cpuFamily))
    (FieldValue.string.inj (hi .cpu))
    (FieldValue.string.inj (hi .kernel))
    (FieldValue.string.inj (hi .initrd))
    (FieldValue.string.inj (hi .kernelCmd))
    (FieldValue.int.inj (hi .ncpu))
    (FieldValue.int.inj (hi .ram))
    (FieldValue.int.inj (hi .sram))
    (FieldValue.int.inj (hi .gdbPort))
    (FieldValue.int.inj (hi .fbUninit))
    (FieldValue.string.inj (hi .blockDev))

def fields : cmdline.Fields where
  field := field
  value := value
  initrd := Index.initrd
  gdbPort := Index.gdbPort
  field_inj := field_inj
  value_gdbPort _ := rfl
  field_assign i a s := by
    funext j
    cases i <;> cases j <;> rfl

end Thumper
/-! ## 5. The platforms -/

inductive PlatformName where
  | roger | energizer | thumper

namespace PlatformName

abbrev cmdline : PlatformName → Cmdline
  | .roger => Roger.cmdline
  | .energizer => Energizer.cmdline
  | .thumper => Thumper.cmdline

def fields : (p : PlatformName) → p.cmdline.Fields
  | .roger => Roger.fields
  | .energizer => Energizer.fields
  | .thumper => Thumper.fields

def initial : (p : PlatformName) → p.cmdline.State
  | .roger => Roger.initial
  | .energizer => Energizer.initial
  | .thumper => Thumper.initial

/-- **The options given, each once, change their own fields only and in every order the same, exactly
    when no initrd disturbs the gdb port.** -/
theorem independent_iff (p : PlatformName) (program : Text) {given : List p.cmdline.Given}
    (h : Once given) (s : p.cmdline.State) :
    p.fields.Independent program given s ↔ p.fields.PortUndisturbed given s :=
  ⟨p.fields.undisturbed_of_independent, fun hport =>
    p.fields.independent_of_undisturbed h hport program⟩

/-- On roger a kernel and then an initrd whose name is no number. -/
theorem roger_kernel_initrd :
    Roger.fields.Independent "roger".toList [Roger.kernelImage, Roger.initrdImage] Roger.initial :=
  (independent_iff .roger "roger".toList (by decide) Roger.initial).mpr (by decide)

/-- On roger an initrd takes back the port of a gdb before it. -/
theorem roger_initrd_resets_port :
    Once [Roger.gdbPort1234, Roger.initrdImage] ∧
      (Roger.parseCmdline
        ["roger".toList, "-gdb_port".toList, "1234".toList, "-initrd".toList, "rd".toList]
        Roger.initial).toOption.map (·.gdbPort) = some 0 ∧
      ¬ Roger.fields.Independent "roger".toList [Roger.gdbPort1234, Roger.initrdImage]
        Roger.initial := by
  refine ⟨by decide, by decide, fun h => ?_⟩
  exact absurd (Roger.fields.undisturbed_of_independent h) (by decide)

theorem port_initial (p : PlatformName) :
    p.fields.field p.initial p.fields.gdbPort = .int 0 := by
  cases p <;> rfl

/-- Without a gdb port on the command line, the name of an initrd has to read as 0. -/
theorem undisturbed_initial_iff (p : PlatformName) {given : List p.cmdline.Given}
    (hno : ∀ g ∈ given, g.key ≠ p.fields.gdbPort) :
    p.fields.PortUndisturbed given p.initial ↔
      ∀ g ∈ given, g.key = p.fields.initrd → atoiInt g.argument = 0 := by
  have hexp : p.fields.expected given p.initial p.fields.gdbPort = .int 0 :=
    (p.fields.expected_of_not_mem hno p.initial).trans p.port_initial
  rw [Fields.PortUndisturbed, hexp]
  simp only [FieldValue.int.injEq]

end PlatformName

end Rabbits
