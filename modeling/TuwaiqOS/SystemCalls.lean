import TuwaiqOS.DirectoryListing
import TuwaiqOS.InputQueues

/-!
# The system calls

`dispatch` of `syscall.rs` over one machine: tasks and memory, the open files
of the processes, the input queues, the filesystem and the screen. All calls
are taken as they are without other tasks in between, so the two memory calls
perform all their sections. A call has no result if it does not return to
Ring 3: `EXIT`, or a fault in the kernel.
-/

namespace TuwaiqOS.SystemCalls

open Utf8Text ByteFields FsTree VfsMounts AddressSpaces Scheduler UserMemory
open InputQueues DirectoryListing
open FrameConservation (vmOf storeVm)
open ProcessMemory (Caller Request)
open DataConfinement (System currentProcess currentWorkingDirectory copyUserPath sysChdir sysSpawn
  sysPutFile sysRemove sysMkdir)

/-! ## The machine -/

/-- `PixelFormat` of the bootloader. -/
inductive PixelFormat where
  /-- Red first. -/
  | rgb
  /-- Blue first. -/
  | bgr
  /-- Grayscale. -/
  | u8
  /-- Anything else. -/
  | unknown

/-- The framebuffer and its bytes. -/
structure FrameBuffer where
  /-- Pixels of a row. -/
  width : ℕ
  /-- Rows. -/
  height : ℕ
  /-- Pixels from one row to the next. -/
  stride : ℕ
  /-- Bytes of a pixel. -/
  bytesPerPixel : ℕ
  /-- Layout of a pixel. -/
  pixelFormat : PixelFormat
  /-- The memory of the screen; `byte_len` is its length. -/
  bytes : List UInt8

/-- `PIXEL_FORMAT_RGB` and the others. -/
def PixelFormat.code : PixelFormat → ℕ
  | .rgb => 0
  | .bgr => 1
  | .u8 => 2
  | .unknown => 3

/-- The bytes of `display::info`. -/
def FrameBuffer.info (screen : FrameBuffer) : List UInt8 :=
  leBytes 4 screen.width++leBytes 4 screen.height++leBytes 4 screen.stride++
    leBytes 4 screen.bytesPerPixel++leBytes 4 screen.pixelFormat.code

/-- Everything that system calls work on. -/
structure Machine where
  /-- Tasks, memory, mounts and the published tree. -/
  system : System
  /-- The open files of each task. -/
  files : ℕ → FileTable.Table
  /-- The input queues. -/
  input : Input Unit
  /-- The framebuffer, if one is active. -/
  screen : Option FrameBuffer

/-- Outcomes of the heap allocations of a spawn and of persisting a tree. -/
structure Outcomes where
  /-- Which heap allocations of a spawn succeed. -/
  heap : ℕ → Bool
  /-- The outcome of writing a new tree to the disk. -/
  sync : Except String Unit

namespace Machine

section

variable (machine : Machine)

/-- Tasks and memory. -/
def kernel : Kernel := machine.system.kernel

/-- Physical memory. -/
def ram : Ram := machine.kernel.paging.ram

/-- The address space of the current process. -/
def space : Option AddressSpace :=
  (currentProcess machine.kernel).bind fun current => current.2.addressSpace

/-- `current_task_id`. -/
def currentTaskId : Option ℕ :=
  machine.kernel.tasks[machine.kernel.current]?.map Tcb.id

/-- The machine with another kernel. -/
def withKernel (kernel : Kernel) : Machine :=
  {machine with system := {machine.system with kernel := kernel}}

/-- The machine with other contents of physical memory. -/
def withRam (ram : Ram) : Machine :=
  machine.withKernel {machine.kernel with paging := {machine.kernel.paging with ram := ram}}

/-- Return a value after a copy to the caller, or -1 if the copy fails. -/
def copied (answer : ℤ) : Option Ram → ℤ×Machine
  | none => (-1,machine)
  | some ram => (answer,machine.withRam ram)

/-- The path at a range of the caller's memory. -/
def path (ptr len : ℕ) : Option Text :=
  copyUserPath (userBuffer machine.space machine.ram ptr len)

/-- Return from a call that works on tasks, memory and the tree. -/
def served (result : ℤ×System) : ℤ×Machine :=
  (result.1,{machine with system := result.2})

end

end Machine

/-! ## Calls without arguments in memory -/

/-- `sys_yield`, up to the moment when the caller has given up the
processor. -/
def sysYield (machine : Machine) : ℤ×Machine :=
  (0,machine.withKernel {machine.kernel with ticksSinceSwitch := 0}.schedule)

/-- `sys_getpid`. -/
def sysGetpid (machine : Machine) : ℤ×Machine :=
  match machine.currentTaskId with
  | none => (-1,machine)
  | some id => (id,machine)

/-- `sys_uptime_ticks`. -/
def sysUptimeTicks (machine : Machine) : ℤ×Machine :=
  (if machine.kernel.ticks<2^63 then machine.kernel.ticks else machine.kernel.ticks-2^64,machine)

/-! ## Memory calls -/

/-- A memory call with at most so many sections, without other tasks in
between. -/
def memoryCall (machine : Machine) (request : Request) (sections : ℕ) : Option (ℤ×Machine) :=
  match currentProcess machine.kernel with
  | none => some (-1,machine)
  | some (tcb,process) =>
    ((Caller.mk (vmOf machine.kernel process) (.idle 0) 0).enter request).bind fun entered =>
      match (entered.sections sections).job with
      | .idle answer => some (answer,machine.withKernel
          (storeVm machine.kernel tcb (entered.sections sections).vm tcb.job))
      | _ => none

/-- More sections than an `MMAP` has. -/
def mmapSections (len : ℕ) : ℕ := 9*((len+0xFFF)/4096)+16

/-- `sys_mmap`. -/
def sysMmap (machine : Machine) (len writable : ℕ) : Option (ℤ×Machine) :=
  memoryCall machine (.mmap len (writable≠0)) (mmapSections len)

/-- More sections than a `MUNMAP` has. -/
def munmapSections (len : ℕ) : ℕ := 5*(len/4096)+7

/-- `sys_munmap`. -/
def sysMunmap (machine : Machine) (ptr len : ℕ) : Option (ℤ×Machine) :=
  memoryCall machine (.munmap ptr len) (munmapSections len)

/-! ## The console, the screen and the input queue -/

/-- `MAX_WRITE_LEN`. -/
def maxWriteLen : ℕ := 4096

/-- `sys_write`, without the serial console. -/
def sysWrite (machine : Machine) (ptr len : ℕ) : ℤ×Machine :=
  if len>maxWriteLen then (-1,machine)
  else
    match copyFromCurrentUser machine.space ptr len machine.ram with
    | none => (-1,machine)
    | some bytes => (bytes.length,machine)

/-- `sys_display_info`. -/
def sysDisplayInfo (machine : Machine) (outPtr outLen : ℕ) : ℤ×Machine :=
  match machine.screen with
  | none => (-1,machine)
  | some screen =>
    if outLen<screen.info.length then (-1,machine)
    else machine.copied 0 (copyToCurrentUser machine.space outPtr screen.info machine.ram)

/-- `PRESENT_COPY_CHUNK`. -/
def presentCopyChunk : ℕ := 64*1024

/-- Bytes of the current process, through its own page tables. -/
def loadBytes (space : AddressSpace) (ram : Ram) (source len : ℕ) : Option (List UInt8) :=
  (List.range len).mapM fun offset => byteAt space ram (source+offset)

/-- `copy_framebuffer_bytes_batched`, with what is copied so far. Nothing is
returned if a page of the source is not mapped. -/
def copyFramebufferBytesBatched (space : AddressSpace) (ram : Ram) (source len copied : ℕ)
    (destination : List UInt8) : Option (List UInt8) :=
  if _hmore : copied<len then
    (loadBytes space ram (source+copied) (min presentCopyChunk (len-copied))).bind fun chunk =>
      copyFramebufferBytesBatched space ram source len (copied+min presentCopyChunk (len-copied))
        (destination.take copied++chunk++destination.drop (copied+chunk.length))
  else some destination
termination_by len-copied
decreasing_by
  rw [presentCopyChunk]
  omega

section

variable (machine : Machine)

/-- `present`: the new bytes of the screen, or the reason why the call is
refused. Nothing is returned after a fault. -/
def present (userPtr userLen : ℕ) : Option (Except String FrameBuffer) :=
  match machine.screen with
  | none => some (.error "display not active")
  | some screen =>
    if userLen≠screen.bytes.length then
      some (.error "buffer size does not match display dimensions")
    else
      match checkedUserVirtAddr userPtr with
      | .error reason => some (.error reason)
      | .ok () =>
        if !validateCurrentUserRange machine.space userPtr userLen false then
          some (.error "invalid source buffer")
        else machine.space.bind fun space =>
          (copyFramebufferBytesBatched space machine.ram userPtr userLen 0 screen.bytes).map
            fun bytes => .ok {screen with bytes := bytes}

/-- `sys_display_present`. -/
def sysDisplayPresent (ptr len : ℕ) : Option (ℤ×Machine) :=
  match machine.currentTaskId with
  | none => some (-1,machine)
  | some callerPid =>
    if foregroundProcessId machine.input≠some callerPid then some (-1,machine)
    else (present machine ptr len).map fun
      | .error _ => (-1,machine)
      | .ok screen => (0,{machine with screen := some screen})

/-- `sys_input_poll`. -/
def sysInputPoll (outPtr outLen : ℕ) : ℤ×Machine :=
  let copy := fun bytes => copyToCurrentUser machine.space outPtr bytes machine.ram
  let polled := InputQueues.sysInputPoll machine.kernel.ticks machine.currentTaskId outLen
    (validateCurrentUserRange machine.space outPtr encodedEventLen true)
    (fun bytes => (copy bytes).isSome) machine.input
  let written := polled.2.1.bind fun delivered => copy delivered.2.toLeBytes
  (polled.1,{machine.withRam (written.getD machine.ram) with input := polled.2.2})

/-! ## Files and directories -/

/-- `sys_getcwd`. -/
def sysGetcwd (outPtr outLen : ℕ) : ℤ×Machine :=
  match currentWorkingDirectory machine.kernel with
  | none => (-1,machine)
  | some cwd =>
    if outLen<len cwd then (-1,machine)
    else machine.copied (len cwd) (copyToCurrentUser machine.space outPtr (asBytes cwd) machine.ram)

/-- A call on the open files of the current task. -/
def fileCall (call : FileTable.FileCall) : Option (ℤ×Machine) :=
  match machine.currentTaskId with
  | none => some (-1,machine)
  | some id => (call.perform machine.space machine.ram (machine.files id)).map fun result =>
    (result.1,{machine.withRam result.2.1 with
      files := Function.update machine.files id result.2.2})

/-- What `sys_open` reads. -/
def openedContents (pathPtr pathLen : ℕ) : Option (List UInt8) := do
  let path ← machine.path pathPtr pathLen
  let cwd ← currentWorkingDirectory machine.kernel
  (readFile machine.system.mounts machine.system.fs cwd path).toOption

/-- The data of `sys_put_file`. -/
def putData (specPtr : ℕ) : Option (List UInt8) := do
  let (dataPtr,dataLen) ← copyUserBufferSpec machine.space machine.ram specPtr
  copyFromCurrentUser machine.space dataPtr dataLen machine.ram

/-- `sys_readdir`. -/
def sysReaddir (pathPtr pathLen specPtr : ℕ) : ℤ×Machine :=
  let listed := DirectoryListing.sysReaddir machine.space (currentWorkingDirectory machine.kernel)
    (listDir machine.system.mounts machine.system.fs) pathPtr pathLen specPtr machine.ram
  (listed.1,machine.withRam listed.2)

end

/-- `STAT_RECORD_LEN`. -/
def statRecordLen : ℕ := 16

/-- The record of `sys_stat`. -/
def statRecord (metadata : EntryMetadata) : List UInt8 :=
  leBytes 8 (match metadata.kind with
    | .file => 1
    | .directory => 2)++leBytes 8 metadata.size

/-- `sys_stat`. -/
def sysStat (machine : Machine) (pathPtr pathLen outPtr : ℕ) : ℤ×Machine :=
  match machine.path pathPtr pathLen with
  | none => (-1,machine)
  | some path =>
    if !validateCurrentUserRange machine.space outPtr statRecordLen true then (-1,machine)
    else
      match currentWorkingDirectory machine.kernel with
      | none => (-1,machine)
      | some cwd =>
        match metadata machine.system.mounts machine.system.fs cwd path with
        | .error _ => (-1,machine)
        | .ok found => machine.copied 0
            (copyToCurrentUser machine.space outPtr (statRecord found) machine.ram)

/-! ## Dispatch -/

/-- `dispatch`: the return value and the machine, if the call returns. -/
def dispatch (outcomes : Outcomes) (machine : Machine) (num a1 a2 a3 : ℕ) : Option (ℤ×Machine) :=
  match num with
  | 0 => none
  | 1 => some (sysWrite machine a1 a2)
  | 2 => some (sysYield machine)
  | 3 => some (sysGetpid machine)
  | 4 => sysMmap machine a1 a2
  | 5 => sysMunmap machine a1 a2
  | 6 => some (sysDisplayInfo machine a1 a2)
  | 7 => sysDisplayPresent machine a1 a2
  | 8 => some (sysInputPoll machine a1 a2)
  | 9 => some (sysUptimeTicks machine)
  | 10 => some (machine.served (sysChdir machine.system (machine.path a1 a2)))
  | 11 => some (sysGetcwd machine a1 a2)
  | 12 => fileCall machine (.open (openedContents machine a1 a2))
  | 13 => fileCall machine (.read a1 a2 a3)
  | 14 => fileCall machine (.close a1)
  | 15 => some (machine.served (sysSpawn machine.system (machine.path a1 a2) outcomes.heap))
  | 16 => some (machine.served
      (sysPutFile machine.system (machine.path a1 a2) (putData machine a3) outcomes.sync))
  | 17 => some (machine.served (sysRemove machine.system (machine.path a1 a2) outcomes.sync))
  | 18 => some (machine.served (sysMkdir machine.system (machine.path a1 a2) outcomes.sync))
  | 19 => some (sysReaddir machine a1 a2 a3)
  | 20 => some (sysStat machine a1 a2 a3)
  | 21 => fileCall machine (.seek a1 a2)
  | _ => some (-1,machine)

end TuwaiqOS.SystemCalls
