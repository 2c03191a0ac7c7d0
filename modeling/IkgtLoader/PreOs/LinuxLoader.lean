import IkgtLoader.PreOs.E820

/-! `linux_loader.c`: a Linux kernel and its initrd are put where the boot protocol wants them. -/
namespace IkgtLoader
open Flat

/-! Offsets in the image of the kernel, and in `boot_params_t` for the copy of the header. -/
namespace SetupHeader

def setupSects : ℕ := 0x1f1

def vidMode : ℕ := 0x1fa

def header : ℕ := 0x202

def version : ℕ := 0x206

def typeOfLoader : ℕ := 0x210

def loadflags : ℕ := 0x211

def code32Start : ℕ := 0x214

def ramdiskImage : ℕ := 0x218

def ramdiskSize : ℕ := 0x21c

def cmdLinePtr : ℕ := 0x228

def initrdAddrMax : ℕ := 0x22c

def relocatableKernel : ℕ := 0x234

def cmdlineSize : ℕ := 0x238

def initSize : ℕ := 0x260

/-- `sizeof(setup_header_t)`. -/
def size : ℕ := 115

/-- `sizeof(linux_kernel_header_t)`. -/
def kernelHeaderSize : ℕ := 612

end SetupHeader

namespace BootParams

/-- `sizeof(boot_params_t)`. -/
def size : ℕ := 4096

def e820Entries : ℕ := 0x1e8

def e820Map : ℕ := 0x2d0

/-- `sizeof(e820entry_t)`. -/
def e820EntrySize : ℕ := 20

def tbootSharedAddr : ℕ := 0x58

end BootParams

def E820_RESERVED_MEM : BitVec 32 := 2

def E820_BAD_MEM : BitVec 32 := 5

def SECTOR_SIZE : BitVec 32 := 0x200

def DEFAULT_SECTOR_NUM : BitVec 8 := 4

def MAX_SECTOR_NUM : BitVec 8 := 64

def HDRS_MAGIC : BitVec 32 := 0x53726448

def FLAG_LOAD_HIGH : BitVec 8 := 0x01

def FLAG_CAN_USE_HEAP : BitVec 8 := 0x80

def GRUB_LINUX_BOOT_LOADER_TYPE : BitVec 8 := 0x72

def GRUB_LINUX_VID_MODE_NORMAL : BitVec 16 := 0xffff

/-- The index of the kernel among the modules, and of the initrd. -/
def MVMLINUZ : BitVec 32 := 0

def MINITRD : BitVec 32 := 1

/-- A store to a field of a record. -/
def Machine.put (s : Machine) {bits : ℕ} (p : BitVec 32) (offset : ℕ) (v : BitVec bits) : Machine :=
  { s with mem := s.mem.setField p offset v }

/-- An index equal to the count is let through. -/
def getMbiModule (mem : Memory 32) (mbi midx : BitVec 32) : BitVec 32 :=
  if MultibootInfo.modsCount mem mbi = 0 then NULL
  else if MultibootInfo.modsCount mem mbi < midx then NULL
  else MultibootInfo.modsAddr mem mbi + midx * BitVec.ofNat 32 moduleSize

/-- One round of the search over `(last_fit_base, last_fit_size)`. -/
def highestStep (mem : Memory 32) (mmap : BitVec 32) (size limit : BitVec 64) (i : ℕ)
    (lastFit : BitVec 64 × BitVec 64) : Loop.Outcome (BitVec 64 × BitVec 64) :=
  let entry := readMap mem (mapEntry mmap i)
  if entry.type ≠ MULTIBOOT_MEMORY_AVAILABLE then .next lastFit
  else if limit < entry.stop then .quit lastFit
  else if size ≤ entry.len ∧ lastFit.1 < entry.addr then .next (entry.addr, entry.len)
  else .next lastFit

/-- Base and size of the region, zeros if there is none. -/
def getHighestSizedRam (mem : Memory 32) (mbi : BitVec 32) (size limit : BitVec 64) :
    BitVec 64 × BitVec 64 :=
  let n := (MultibootInfo.mmapLength mem mbi).toNat / memoryMapSize
  (Loop.run (fun i _ => i < n) (highestStep mem (MultibootInfo.mmapAddr mem mbi) size limit) n 0
    (0, 0)).state

/-- One record of the map is stored in `e820_map[i]`, each field from the map as it is then. -/
def bootMapStep (bootParams mmap : BitVec 32) (i : ℕ) (s : Memory 32 × ℕ) :
    Loop.Outcome (Memory 32 × ℕ) :=
  let entry := bootParams + BitVec.ofNat 32 (BootParams.e820Map + i * BootParams.e820EntrySize)
  let mem := s.1.setField entry 0 (readMap s.1 (mapEntry mmap i)).addr
  let mem := mem.setField entry 8 (readMap mem (mapEntry mmap i)).len
  let type := (readMap mem (mapEntry mmap i)).type
  .next (mem.setField entry 16 (if type = E820_BAD_MEM then E820_RESERVED_MEM else type), i + 1)

/-- More rounds than a 32-bit length has records. -/
def mapFuel : ℕ := 0x10000000

/-- The text mode is announced and the address of tboot cleared. -/
def setupScreen (mem : Memory 32) (bootParams : BitVec 32) : Memory 32 :=
  let mem := mem.setField bootParams 0x06 (3 : BitVec 8)
  let mem := mem.setField bootParams 0x0e (25 : BitVec 8)
  let mem := mem.setField bootParams 0x07 (80 : BitVec 8)
  let mem := mem.setField bootParams 0x10 (16 : BitVec 16)
  let mem := mem.setField bootParams 0x0f (1 : BitVec 8)
  let mem := mem.setField bootParams 0x01 (24 : BitVec 8)
  let mem := mem.setField bootParams 0x0a (0 : BitVec 16)
  mem.setField bootParams BootParams.tbootSharedAddr (0 : BitVec 64)

def setupBootParams (mem : Memory 32) (mbi bootParams hdr : BitVec 32) : Memory 32 × Bool :=
  let mem := mem.copy (bootParams + BitVec.ofNat 32 SetupHeader.setupSects)
    (hdr + BitVec.ofNat 32 SetupHeader.setupSects) SetupHeader.size
  if MultibootInfo.flags mem mbi &&& MBI_MEMMAP = 0 then (mem, false)
  else
    let mmap := MultibootInfo.mmapAddr mem mbi
    let (mem, i) := (Loop.run
      (fun i s => i < (MultibootInfo.mmapLength s.1 mbi).toNat / memoryMapSize)
      (bootMapStep bootParams mmap) mapFuel 0 (mem, 0)).state
    let mem := mem.setField bootParams BootParams.e820Entries (BitVec.ofNat 8 i)
    (setupScreen mem bootParams, true)

/-- Nothing if there is no zero byte before the fuel is spent. -/
def strlen (mem : Memory 32) (s : BitVec 32) : ℕ → Option ℕ
  | 0 => none
  | fuel + 1 => if mem s = 0 then some 0 else (strlen mem (s + 1) fuel).map (· + 1)

/-- The bytes of the address space. -/
def addressSpace : ℕ := 2 ^ 32

def PAGE_4KB_MASK : ℕ := 0xfff

/-- `x & ~PAGE_4KB_MASK` in the width of `x`. -/
def pageDown {w : ℕ} (x : BitVec w) : BitVec w := x &&& ~~~BitVec.ofNat w PAGE_4KB_MASK

/-- The locals that are set before the initrd is looked at, `prot_size` as it is first, and the
size of the block that `boot_params` points to. -/
structure LinuxSetup where
  bootParams : BitVec 32
  bootSize : BitVec 32
  realModeSize : BitVec 32
  initSize : BitVec 32

/-- The checks of the header and the stores to it, up to the search for the initrd. -/
def prepareHeader (s : Machine) (hdr linuxSize : BitVec 32) : Machine × Option LinuxSetup :=
  if hdr = NULL ∨ linuxSize = 0 ∨ linuxSize < BitVec.ofNat 32 SetupHeader.kernelHeaderSize then
    (s, none)
  else
    let s := if s.mem.field 8 hdr SetupHeader.setupSects = 0 then
      s.put hdr SetupHeader.setupSects DEFAULT_SECTOR_NUM else s
    if MAX_SECTOR_NUM < s.mem.field 8 hdr SetupHeader.setupSects ∨
        s.mem.field 32 hdr SetupHeader.header ≠ HDRS_MAGIC ∨
        s.mem.field 8 hdr SetupHeader.loadflags &&& FLAG_LOAD_HIGH = 0 then (s, none)
    else
      let realModeSize := ((s.mem.field 8 hdr SetupHeader.setupSects).setWidth 32 + 1) * SECTOR_SIZE
      let bootSize := BitVec.ofNat 32 BootParams.size + s.mem.field 32 hdr SetupHeader.cmdlineSize
      match allocateMemory s bootSize with
      | (s, bootParams) =>
        if bootParams = NULL then (s, none)
        else
          let s := s.put hdr SetupHeader.cmdLinePtr
            (bootParams + BitVec.ofNat 32 BootParams.size)
          if s.mem.field 16 hdr SetupHeader.version < 0x020a then (s, none)
          else
            let initSize := s.mem.field 32 hdr SetupHeader.initSize
            let s := s.put hdr SetupHeader.typeOfLoader GRUB_LINUX_BOOT_LOADER_TYPE
            let s := s.put hdr SetupHeader.loadflags
              (s.mem.field 8 hdr SetupHeader.loadflags &&& ~~~FLAG_CAN_USE_HEAP)
            (s, some ⟨bootParams, bootSize, realModeSize, initSize⟩)

/-- `initrd_base`: at the end of the region, or below `initrd_addr_max` if it would exceed it. -/
def initrdBase (max : BitVec 32) (region : BitVec 64 × BitVec 64) (initrdSize : BitVec 32) :
    BitVec 32 :=
  let base := (pageDown (region.1 + region.2 - initrdSize.setWidth 64)).setWidth 32
  if max < base + initrdSize then pageDown (max - initrdSize) else base

/-- The search below 4 GB; nothing if there is no region. -/
def findInitrdBase (mem : Memory 32) (mbi hdr initrdSize : BitVec 32) : Option (BitVec 32) :=
  let region := getHighestSizedRam mem mbi (initrdSize.setWidth 64) 0x100000000
  if region.1 = 0 ∨ region.2 = 0 then none
  else some (initrdBase (mem.field 32 hdr SetupHeader.initrdAddrMax) region initrdSize)

/-- What a successful `expand_linux_image` returns, and what it has stored in three fields of the
header. -/
structure Boot where
  bootParams : BitVec 32
  entryPoint : BitVec 32
  ramdiskImage : BitVec 32
  ramdiskSize : BitVec 32
  code32Start : BitVec 32

/-- From the stores about the initrd to the end. Without a zero byte behind the command line
`strlen` does not return. -/
def finishLinux (s : Machine) (mbi hdr bootParams protectedModeBase ramdiskImage
    ramdiskSize : BitVec 32) : Option (Machine × Option Boot) :=
  let s := s.put hdr SetupHeader.ramdiskImage ramdiskImage
  let s := s.put hdr SetupHeader.ramdiskSize ramdiskSize
  let s := s.put hdr SetupHeader.code32Start protectedModeBase
  let s := s.put hdr SetupHeader.vidMode GRUB_LINUX_VID_MODE_NORMAL
  let kernelCmdline := moduleCmdline s.mem (getMbiModule s.mem mbi MVMLINUZ)
  match strlen s.mem kernelCmdline addressSpace with
  | none => none
  | some length =>
    if (s.mem.field 32 hdr SetupHeader.cmdlineSize).toNat < length then some (s, none)
    else
      let mem := s.mem.copy (s.mem.field 32 hdr SetupHeader.cmdLinePtr) kernelCmdline length
      match setupBootParams mem mbi bootParams hdr with
      | (mem, false) => some ({ s with mem := mem }, none)
      | (mem, true) => some ({ s with mem := mem },
          some ⟨bootParams, mem.field 32 bootParams SetupHeader.code32Start, ramdiskImage,
            ramdiskSize, protectedModeBase⟩)

/-- An initrd is given. -/
def WithInitrd (initrdImage initrdSize : BitVec 32) : Prop := initrdImage ≠ NULL ∧ initrdSize ≠ 0

instance (initrdImage initrdSize : BitVec 32) : Decidable (WithInitrd initrdImage initrdSize) :=
  inferInstanceAs (Decidable (_ ∧ _))

/-- The two pointers for results are those of locals of the caller. -/
def expandLinuxImage (s : Machine) (mbi linuxImage linuxSize initrdImage initrdSize : BitVec 32) :
    Option (Machine × Option Boot) :=
  match prepareHeader s linuxImage linuxSize with
  | (s, none) => some (s, none)
  | (s, some p) =>
    let protectedModeBase := linuxImage + p.realModeSize
    let protSize := alignForward p.initSize
    if WithInitrd initrdImage initrdSize then
      match findInitrdBase s.mem mbi linuxImage initrdSize with
      | none => some (s, none)
      | some base =>
        if s.mem.field 8 linuxImage SetupHeader.relocatableKernel = 0 then some (s, none)
        -- no overlap of the initrd and the protected mode kernel code
        else if base < protectedModeBase + alignForward protSize then some (s, none)
        else finishLinux { s with mem := s.mem.copy base initrdImage initrdSize.toNat } mbi
          linuxImage p.bootParams protectedModeBase base initrdSize
    else if s.mem.field 8 linuxImage SetupHeader.relocatableKernel = 0 then some (s, none)
    else finishLinux s mbi linuxImage p.bootParams protectedModeBase 0 0

/-- The return to the caller, or the jump to the kernel with what it is given. -/
def launchLinuxKernel (s : Machine) (mbi : BitVec 32) : Option (Machine × Option Boot) :=
  let m := getMbiModule s.mem mbi MVMLINUZ
  if m = NULL then some (s, none)
  else
    let kernelImage := moduleStart s.mem m
    let kernelSize := moduleEnd s.mem m - moduleStart s.mem m
    let m := getMbiModule s.mem mbi MINITRD
    if m = NULL then expandLinuxImage s mbi kernelImage kernelSize NULL 0
    else expandLinuxImage s mbi kernelImage kernelSize (moduleStart s.mem m)
      (moduleEnd s.mem m - moduleStart s.mem m)

end IkgtLoader
