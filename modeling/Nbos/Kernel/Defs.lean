import Mathlib.Data.Fintype.Pi
import Mathlib.Data.Int.Notation

/-!
# `kernel.h`: the constants and the structures of the kernel

Machine words that live in a packed structure (on disk, in a trap frame) are `UInt32` and `UInt16`;
addresses, pids and counters are naturals. `NULL` in a pointer into a table is `none`.
-/

namespace Nbos.Kernel

/-! ### Memory and disk -/

abbrev pageSize : ℕ := 4096
abbrev pageStructEntries : ℕ := 1024
abbrev phySize : ℕ := 0x2000000
abbrev kernelVirBase : ℕ := 0xc0000000
abbrev userStackStart : ℕ := 0xbffffffc
abbrev sectorSize : ℕ := 512

/-- `PHY_2_VIR`, on 32-bit words. -/
def phy2Vir (x : ℕ) : ℕ := (kernelVirBase + x) % 2 ^ 32

/-- `VIR_2_PHY`, on 32-bit words. -/
def vir2Phy (x : ℕ) : ℕ := (2 ^ 32 - kernelVirBase + x) % 2 ^ 32

/-- `ALIGN_UP`, on 32-bit words. -/
def alignUp (x : ℕ) : ℕ := ((x + 0xfff) % 2 ^ 32) &&& 0xfffff000

abbrev pagePrivilegeSupervisor : ℕ := 0
abbrev pagePrivilegeUser : ℕ := 1

/-! ### The file system -/

abbrev fileMaxInProcess : ℕ := 20
abbrev fileMaxInSys : ℕ := 100
abbrev maxBlocksInFile : ℕ := 20
abbrev fileNameMax : ℕ := 20

abbrev stdinFileno : ℕ := 0
abbrev stdoutFileno : ℕ := 1
abbrev stderrFileno : ℕ := 2

abbrev oRdonly : UInt32 := 0
abbrev oWronly : UInt32 := 1
abbrev oRdwr : UInt32 := 2

abbrev regularFile : UInt16 := 0
abbrev directoryFile : UInt16 := 1

abbrev blockSize : ℕ := 512
abbrev superBlockSector : ℕ := 300
abbrev superBlockNo : ℕ := 0
abbrev blockFree : ℕ := 0
abbrev blockBusy : ℕ := 1
abbrev dataBlockBitSize : ℕ := 5
abbrev inodeBlockSize : ℕ := 50
abbrev fileSysBlocks : ℕ := 700

abbrev shellSector : ℕ := 357
abbrev myproSector : ℕ := 372
abbrev shellBlocks : ℕ := 15
abbrev myproBlocks : ℕ := 15

/-- `struct inode`. The compiler pads `mode` to a word, and the padding travels with the rest. -/
@[ext] structure Inode where
  size : UInt32
  atime : UInt32
  mtime : UInt32
  ctime : UInt32
  mode : UInt16
  padding : UInt16
  nextInodeBlockNo : UInt32
  nextInodeOffset : UInt32
  myInodeBlockNo : UInt32
  myInodeOffset : UInt32
  blockNo : Fin maxBlocksInFile → UInt32
  deriving DecidableEq

/-- `struct super_block`. -/
@[ext] structure SuperBlock where
  freeInodeBlockNo : UInt32
  freeInodeOffset : UInt32
  rootdirInodeBlockNo : UInt32
  rootdirInodeOffset : UInt32
  dataBlockBitNo : Fin dataBlockBitSize → UInt32
  deriving DecidableEq

/-- `struct open_file`; `isopen` is `OPEN` or `CLOSE`. -/
@[ext] structure OpenFile where
  oflags : UInt32
  offset : ℤ
  fInodeBlockNo : UInt32
  fInodeOffset : UInt32
  isopen : Bool
  deriving DecidableEq

/-- `struct fd`; `ofptr` points into the file table. -/
@[ext] structure Fd where
  openFlag : Bool
  ofptr : Option (Fin fileMaxInSys)
  deriving DecidableEq

/-! ### Processes -/

abbrev pcbMax : ℕ := 20
abbrev pidMax : ℕ := 60

-- the same instance in every module, whatever it imports
instance (priority := high) : @NeZero ℕ ⟨0⟩ pcbMax := ⟨Nat.succ_ne_zero 19⟩
instance (priority := high) : @NeZero ℕ ⟨0⟩ fileMaxInSys := ⟨Nat.succ_ne_zero 99⟩

/-- `enum run_state`. -/
inductive RunState where
  | free | born | runnable | running | zombie | abort
  deriving DecidableEq

/-- `struct context`, every field in its place: the assembly reads it by offset. -/
@[ext] structure Context where
  edi : UInt32
  esi : UInt32
  ebp : UInt32
  nesp : UInt32
  ebx : UInt32
  edx : UInt32
  ecx : UInt32
  eax : UInt32
  gs : UInt16
  padding6 : UInt16
  fs : UInt16
  padding5 : UInt16
  es : UInt16
  padding4 : UInt16
  ds : UInt16
  padding3 : UInt16
  eip : UInt32
  cs : UInt16
  padding2 : UInt16
  eflags : UInt32
  esp : UInt32
  ss : UInt16
  padding1 : UInt16
  deriving DecidableEq

/-- `struct intr_context`: what the entry code and the processor push. -/
@[ext] structure IntrContext where
  edi : UInt32
  esi : UInt32
  ebp : UInt32
  espCurrent : UInt32
  ebx : UInt32
  edx : UInt32
  ecx : UInt32
  eax : UInt32
  gs : UInt16
  fs : UInt16
  es : UInt16
  ds : UInt16
  interNo : UInt32
  errorCode : UInt32
  eip : UInt32
  cs : UInt16
  eflags : UInt32
  esp : UInt32
  ss : UInt16
  deriving DecidableEq

/-- `struct pcb`, without the two fields (`size`, `sector`) that no live code touches. -/
@[ext] structure Pcb where
  ctx : Context
  pid : ℕ
  fatherPid : ℕ
  pstate : RunState
  pagedir : ℕ
  nextVirAddr : ℕ
  fdlist : Fin fileMaxInProcess → Fd
  deriving DecidableEq

end Nbos.Kernel
