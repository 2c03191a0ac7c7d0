import IkgtLoader.Flat.Schedule
import Mathlib.Data.Finset.Card
import Mathlib.Logic.Function.Basic

/-! One startup of the application processors: the bootstrap processor running
`startap_main` and every processor that answers the SIPI, one shared access a step. -/
namespace IkgtLoader.StartAp

inductive MpBootstrapState
  | init
  | apsEnumerated
  deriving DecidableEq

/-- `init32_struct_t`. Slots past the ones the loader filled are whatever is stored there. -/
structure Init32Struct where
  i32LowMemoryPage : BitVec 32
  i32NumOfAps : BitVec 16
  i32Pad : BitVec 16
  i32Esp : ℕ → BitVec 32

/-- The double word at a byte offset of the structure. -/
def Init32Struct.word (d : Init32Struct) (offset : BitVec 32) : BitVec 32 :=
  if offset = 0#32 then d.i32LowMemoryPage
  else if offset = 4#32 then d.i32Pad ++ d.i32NumOfAps
  else d.i32Esp ((offset.toNat - 8) / 4)

/-- `size` is `NELEMENTS(ap_presence_array)`; `aps` holds the local APIC ids, which
`shrl $24` leaves in eight bits; no `init32` is the NULL pointer. -/
structure Config where
  size : ℕ
  aps : Finset (BitVec 8)
  below_size : ∀ a ∈ aps, a.toNat < size
  init32 : Option Init32Struct
  continueApBootFunc : BitVec 32
  anyData : BitVec 32

/-- Where the bootstrap processor stands in `startap_main` and its callees. -/
inductive BspPc
  | startup
  | stall
  | enumerate (i : ℕ) (apNum : BitVec 8)
  | storeCount (apNum : BitVec 8)
  | launch (applicationProcesors : BitVec 32)
  | setUserFunc
  | setAnyData
  | setState
  | waitReady
  | runReturned
  | startApplication
  deriving DecidableEq

/-- Where an application processor stands between the SIPI and the user function.
`ecx` is the ordinal it read, `esp` the stack it took. -/
inductive ApPc
  | waitSipi
  | waitLock1
  | stage2
  | ordered (ecx : BitVec 32)
  | entered (ecx esp : BitVec 32)
  | ready (ecx esp : BitVec 32)
  | pushed (ecx esp anyData : BitVec 32)
  | user (ecx esp func anyData : BitVec 32)
  deriving DecidableEq

structure State where
  bsp : BspPc
  ap : BitVec 8 → ApPc
  sipiSent : Bool
  mpBootstrapState : MpBootstrapState
  apPresenceArray : ℕ → BitVec 8
  gApsCounter : BitVec 32
  gReadyCounter : BitVec 32
  gUserFunc : BitVec 32
  gAnyDataForUserFunc : BitVec 32

def apIntializeEnvironment (s : State) : State :=
  { s with mpBootstrapState := .init, gReadyCounter := 0, gUserFunc := 0, gAnyDataForUserFunc := 0 }

/-- One step of the bootstrap processor; waiting leaves the state as it is. -/
def stepBsp (cfg : Config) (s : State) : State :=
  match s.bsp with
  | .startup =>
    match cfg.init32 with
    | none => { s with bsp := .launch 0 }
    | some p =>
      if p.i32LowMemoryPage = 0 then { s with bsp := .launch (-1) }
      else { apIntializeEnvironment s with bsp := .stall, sipiSent := true }
  | .stall => { s with bsp := .enumerate 1 0 }
  | .enumerate i apNum =>
    if i < cfg.size then
      if s.apPresenceArray i ≠ 0 then
        { s with
          bsp := .enumerate (i + 1) (apNum + 1)
          apPresenceArray := Function.update s.apPresenceArray i (apNum + 1) }
      else { s with bsp := .enumerate (i + 1) apNum }
    else { s with bsp := .storeCount apNum }
  | .storeCount apNum =>
    { s with gApsCounter := apNum.setWidth 32, bsp := .launch (apNum.setWidth 32) }
  | .launch applicationProcesors =>
    if 0 < applicationProcesors then { s with bsp := .setUserFunc }
    else { s with bsp := .startApplication }
  | .setUserFunc => { s with gUserFunc := cfg.continueApBootFunc, bsp := .setAnyData }
  | .setAnyData => { s with gAnyDataForUserFunc := cfg.anyData, bsp := .setState }
  | .setState => { s with mpBootstrapState := .apsEnumerated, bsp := .waitReady }
  | .waitReady =>
    if s.gReadyCounter ≠ s.gApsCounter then s else { s with bsp := .runReturned }
  | .runReturned => { s with bsp := .startApplication }
  | .startApplication => s

/-- `movl gp_init32_data, %edx; addl $8, %edx; addl %eax, %edx; movl (%edx), %esp`
with `%eax = (ordinal - 1) << 2`. -/
def loadEsp (cfg : Config) (ecx : BitVec 32) : BitVec 32 :=
  match cfg.init32 with
  | none => 0
  | some p => p.word (8 + ((ecx - 1) <<< 2))

def State.setAp (s : State) (a : BitVec 8) (pc : ApPc) : State :=
  { s with ap := Function.update s.ap a pc }

/-- One step of the application processor with local APIC id `a`. -/
def stepAp (cfg : Config) (s : State) (a : BitVec 8) : State :=
  match s.ap a with
  | .waitSipi =>
    if s.sipiSent then
      { s.setAp a .waitLock1 with apPresenceArray := Function.update s.apPresenceArray a.toNat 1 }
    else s
  | .waitLock1 => if s.mpBootstrapState = .apsEnumerated then s.setAp a .stage2 else s
  | .stage2 => s.setAp a (.ordered ((s.apPresenceArray a.toNat).setWidth 32))
  | .ordered ecx => s.setAp a (.entered ecx (loadEsp cfg ecx))
  | .entered ecx esp => { s.setAp a (.ready ecx esp) with gReadyCounter := s.gReadyCounter + 1 }
  | .ready ecx esp => s.setAp a (.pushed ecx esp s.gAnyDataForUserFunc)
  | .pushed ecx esp anyData => s.setAp a (.user ecx esp s.gUserFunc anyData)
  | .user .. => s

inductive Actor
  | bsp
  | ap (a : BitVec 8)
  deriving DecidableEq

/-- Only the processors of the configuration exist. -/
def step (cfg : Config) (s : State) : Actor → State
  | .bsp => stepBsp cfg s
  | .ap a => if a ∈ cfg.aps then stepAp cfg s a else s

/-- The first startup: the presence array is still zero. -/
def initial : State where
  bsp := .startup
  ap := fun _ => .waitSipi
  sipiSent := false
  mpBootstrapState := .init
  apPresenceArray := fun _ => 0
  gApsCounter := 0
  gReadyCounter := 0
  gUserFunc := 0
  gAnyDataForUserFunc := 0

/-- Slots below the cursor are done with: slot 0 from the start, the others as
`bsp_enumerate_aps` passes them. -/
def BspPc.cursor (size : ℕ) : BspPc → ℕ
  | .startup => 1
  | .stall => 1
  | .enumerate i _ => i
  | _ => size

def ApPc.ecx? : ApPc → Option (BitVec 32)
  | .ordered ecx => some ecx
  | .entered ecx _ => some ecx
  | .ready ecx _ => some ecx
  | .pushed ecx _ _ => some ecx
  | .user ecx _ _ _ => some ecx
  | _ => none

/-- The stack pointer of a processor that has entered C code. -/
def ApPc.esp? : ApPc → Option (BitVec 32)
  | .entered _ esp => some esp
  | .ready _ esp => some esp
  | .pushed _ esp _ => some esp
  | .user _ esp _ _ => some esp
  | _ => none

/-- Past `wait_lock_1`. -/
def ApPc.Released : ApPc → Prop
  | .waitSipi => False
  | .waitLock1 => False
  | _ => True

theorem ApPc.released_of_ecx {pc : ApPc} {e : BitVec 32} (h : pc.ecx? = some e) :
    pc.Released := by
  cases pc <;> trivial

/-- Past its `lock; incl g_ready_counter`. -/
def ApPc.Passed : ApPc → Prop
  | .ready .. => True
  | .pushed .. => True
  | .user .. => True
  | _ => False

instance (pc : ApPc) : Decidable pc.Passed := by
  cases pc <;> unfold ApPc.Passed <;> infer_instance

def State.Reported (s : State) (a : BitVec 8) : Prop := s.ap a ≠ .waitSipi

instance (s : State) (a : BitVec 8) : Decidable (s.Reported a) :=
  inferInstanceAs (Decidable (s.ap a ≠ .waitSipi))

end IkgtLoader.StartAp
