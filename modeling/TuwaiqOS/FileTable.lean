import TuwaiqOS.MemoryCalls
import TuwaiqOS.UserMemory

/-!
# The table of open files of a process

A process has up to sixteen open files, each a snapshot of its contents with
a read offset. The table keeps the total of their lengths incrementally and
reuses free slots. Seen from outside it is a map from handles to read
cursors: every call changes the cursor of its own handle, or nothing.
-/

namespace TuwaiqOS.FileTable

open ByteFields AddressSpaces ElfImage UserMemory ProcessMemory
open FrameConservation (smallPaging backs_smallPaging)

/-- `MAX_OPEN_FILES`. -/
def maxOpenFiles : ℕ := 16

/-- `MAX_OPEN_FILE_BYTES`. -/
def maxOpenFileBytes : ℕ := 256*1024

/-- `FIRST_FILE_HANDLE`. -/
def firstFileHandle : ℕ := 3

/-- `MAX_FILE_IO_LEN`. -/
def maxFileIoLen : ℕ := 4096

/-- `OpenFile`. -/
structure OpenFile where
  /-- The contents when the file was opened. -/
  data : List UInt8
  /-- Where the next read begins. -/
  offset : ℕ

/-- The fields of `ProcessState` about open files. -/
structure Table where
  /-- `open_files`. -/
  openFiles : List (Option OpenFile)
  /-- `open_file_bytes`. -/
  openFileBytes : ℕ

/-- The table of a new process. -/
def Table.empty : Table := ⟨[],0⟩

/-! ## Operations on the table -/

/-- The handle of a slot. -/
def handleOf (index : ℕ) : Option ℕ :=
  if index+firstFileHandle<2^32 then some (index+firstFileHandle) else none

/-- The slot of a handle. -/
def slotOf (handle : ℕ) : Option ℕ :=
  if handle<firstFileHandle then none else some (handle-firstFileHandle)

/-- The open file of a handle. -/
def Table.file (table : Table) (handle : ℕ) : Option OpenFile := do
  (table.openFiles[← slotOf handle]?).join

/-- Replace the open file of a handle. -/
def Table.replace (table : Table) (handle : ℕ) (file : Option OpenFile) : Table :=
  {table with openFiles := table.openFiles.set (handle-firstFileHandle) file}

/-- `open_file_for_current_process`. -/
def openFileForCurrentProcess (data : List UInt8) (table : Table) : Option ℕ×Table :=
  let total := table.openFileBytes+data.length
  if 2^64 ≤ total then (none,table)
  else if total>maxOpenFileBytes then (none,table)
  else
    match table.openFiles.findIdx? Option.isNone with
    | some index => (handleOf index,⟨table.openFiles.set index (some ⟨data,0⟩),total⟩)
    | none =>
      if table.openFiles.length ≥ maxOpenFiles then (none,table)
      else (handleOf table.openFiles.length,⟨table.openFiles++[some ⟨data,0⟩],total⟩)

/-- `peek_file_for_current_process`: contents, start and end of the read. -/
def peekFileForCurrentProcess (handle maxLen : ℕ) (table : Table) :
    Option (List UInt8×ℕ×ℕ) := do
  let file ← table.file handle
  if 2^64 ≤ file.offset+maxLen then none
  else some (file.data,file.offset,min (file.offset+maxLen) file.data.length)

/-- `advance_file_for_current_process`: the new table, if it succeeds. -/
def advanceFileForCurrentProcess (handle amount : ℕ) (table : Table) : Option Table := do
  let file ← table.file handle
  if 2^64 ≤ file.offset+amount then none
  else if file.offset+amount>file.data.length then none
  else some (table.replace handle (some {file with offset := file.offset+amount}))

/-- `seek_file_for_current_process`: the new table, if it succeeds. -/
def seekFileForCurrentProcess (handle offset : ℕ) (table : Table) : Option Table := do
  let file ← table.file handle
  if offset>file.data.length then none
  else some (table.replace handle (some {file with offset := offset}))

/-- `close_file_for_current_process`. The slot is emptied before the total
is reduced. -/
def closeFileForCurrentProcess (handle : ℕ) (table : Table) : Bool×Table :=
  match table.file handle with
  | none => (false,table)
  | some file =>
    let emptied := table.replace handle none
    if file.data.length ≤ table.openFileBytes then
      (true,{emptied with openFileBytes := table.openFileBytes-file.data.length})
    else (false,emptied)

/-! ## System calls -/

/-- The end of `sys_open`, where `contents` is what `vfs::read_file`
returned. -/
def sysOpen (contents : Option (List UInt8)) (table : Table) : ℤ×Table :=
  match contents with
  | none => (-1,table)
  | some data =>
    match openFileForCurrentProcess data table with
    | (some handle,later) => (handle,later)
    | (none,later) => (-1,later)

/-- `sys_read`: the answer, the memory and the table, or nothing if taking
the slice panics. -/
def sysRead (space : Option AddressSpace) (handle outPtr outLen : ℕ) (ram : Ram)
    (table : Table) : Option (ℤ×Ram×Table) :=
  if 2^32 ≤ handle then some (-1,ram,table)
  else if outLen>maxFileIoLen then some (-1,ram,table)
  else if !validateCurrentUserRange space outPtr outLen true then some (-1,ram,table)
  else
    match peekFileForCurrentProcess handle outLen table with
    | none => some (-1,ram,table)
    | some (data,start,finish) =>
      if finish<start ∨ data.length<finish then none
      else
        let bytes := slice data start (finish-start)
        match if bytes.isEmpty then some ram else copyToCurrentUser space outPtr bytes ram with
        | none => some (-1,ram,table)
        | some written =>
          match advanceFileForCurrentProcess handle bytes.length table with
          | none => some (-1,written,table)
          | some later => some (bytes.length,written,later)

/-- `sys_close`. -/
def sysClose (handle : ℕ) (table : Table) : ℤ×Table :=
  if 2^32 ≤ handle then (-1,table)
  else
    match closeFileForCurrentProcess handle table with
    | (true,later) => (0,later)
    | (false,later) => (-1,later)

/-- `sys_seek`. -/
def sysSeek (handle absoluteOffset : ℕ) (table : Table) : ℤ×Table :=
  if 2^32 ≤ handle then (-1,table)
  else
    match seekFileForCurrentProcess handle absoluteOffset table with
    | some later => (absoluteOffset,later)
    | none => (-1,table)

/-- A call on the table, with the memory of the caller at that moment. -/
inductive FileCall where
  /-- `OPEN` of a file with these contents, or of a path that cannot be
  read. -/
  | open (contents : Option (List UInt8))
  /-- `READ`. -/
  | read (handle outPtr outLen : ℕ)
  /-- `SEEK`. -/
  | seek (handle absoluteOffset : ℕ)
  /-- `CLOSE`. -/
  | close (handle : ℕ)

/-- Perform a call: the answer, the memory and the table. -/
def FileCall.perform (space : Option AddressSpace) (ram : Ram) (table : Table) :
    FileCall → Option (ℤ×Ram×Table)
  | .open contents => some ((sysOpen contents table).1,ram,(sysOpen contents table).2)
  | .read handle outPtr outLen => sysRead space handle outPtr outLen ram table
  | .seek handle offset => some ((sysSeek handle offset table).1,ram,(sysSeek handle offset table).2)
  | .close handle => some ((sysClose handle table).1,ram,(sysClose handle table).2)

/-- The process has made a call: its memory and its answer. -/
def answered (caller : Caller) (answer : ℤ) (written : Ram) : Caller :=
  {caller with
    vm := {caller.vm with paging := {caller.vm.paging with ram := written}},job := .idle answer}

/-- A process that was spawned from an executable, some time later, with its
table. It calls `MMAP` and `MUNMAP`, other tasks run, and outside of these
calls it makes calls on its table. -/
inductive Reaches (bytes : List UInt8) : Caller → Table → Prop where
  /-- The process was spawned. -/
  | spawned {caller : Caller} (hspawned : Spawned bytes caller) : Reaches bytes caller .empty
  /-- A step that does not concern the table. -/
  | step {caller later : Caller} {table : Table} (hpast : Reaches bytes caller table)
    (hstep : Step caller later) : Reaches bytes later table
  /-- A call on the table. -/
  | call {caller : Caller} {table later : Table} {written : Ram} {rax answer : ℤ}
    (call : FileCall) (hpast : Reaches bytes caller table) (hjob : caller.job=.idle rax)
    (hperform : call.perform caller.vm.process.addressSpace caller.vm.paging.ram table=
      some (answer,written,later)) : Reaches bytes (answered caller answer written) later

/-! ## The table as a map of cursors -/

/-- Handles of open files. -/
def Table.openHandles (table : Table) : List ℕ :=
  (List.range' firstFileHandle table.openFiles.length).filter fun handle =>
    (table.file handle).isSome

/-- Bytes that a slot holds. -/
def slotLength : Option OpenFile → ℕ
  | none => 0
  | some file => file.data.length

/-- Bytes of all open files. -/
def Table.total (table : Table) : ℕ := (table.openFiles.map slotLength).sum

/-- What holds of every table. -/
structure Sound (table : Table) : Prop where
  /-- There are at most sixteen slots. -/
  slots : table.openFiles.length ≤ maxOpenFiles
  /-- The kept total is the sum of the lengths. -/
  sum : table.openFileBytes=table.total
  /-- It is bounded. -/
  limit : table.openFileBytes ≤ maxOpenFileBytes
  /-- Offsets lie inside of their files. -/
  offsets : ∀ handle file,table.file handle=some file → file.offset ≤ file.data.length

/-- Another file can be opened with these contents. -/
def Table.Fits (table : Table) (data : List UInt8) : Prop :=
  table.total+data.length ≤ maxOpenFileBytes ∧
    ∃ handle,firstFileHandle ≤ handle ∧ handle<firstFileHandle+maxOpenFiles ∧
      table.file handle=none

/-- Bytes that a read of `len` bytes returns. -/
def OpenFile.ahead (file : OpenFile) (len : ℕ) : List UInt8 :=
  slice file.data file.offset (min (file.offset+len) file.data.length-file.offset)

/-- What a call does to the cursors, to memory and what it answers. Exactly
one cursor changes, or nothing. -/
def Served (space : AddressSpace) (ram : Ram) (table : Table) :
    FileCall → ℤ×Ram×Table → Prop
  | .open contents,(answer,written,later) => written=ram ∧
    ((∃ (data : List UInt8) (handle : ℕ),contents=some data ∧ table.Fits data ∧ answer=handle ∧
        firstFileHandle ≤ handle ∧ table.file handle=none ∧
        later.file=Function.update table.file handle (some ⟨data,0⟩)) ∨
      (answer=-1 ∧ later=table ∧ ∀ data,contents=some data → ¬table.Fits data))
  | .read handle outPtr outLen,(answer,written,later) =>
    (∃ file,table.file handle=some file ∧ outLen ≤ maxFileIoLen ∧
        validateCurrentUserRange (some space) outPtr outLen true=true ∧
        answer=(file.ahead outLen).length ∧
        Written space outPtr (file.ahead outLen) ram written ∧
        file.offset+(file.ahead outLen).length=min (file.offset+outLen) file.data.length ∧
        later.file=Function.update table.file handle
          (some {file with offset := file.offset+(file.ahead outLen).length})) ∨
      (answer=-1 ∧ written=ram ∧ later=table ∧ (table.file handle=none ∨ maxFileIoLen<outLen ∨
        validateCurrentUserRange (some space) outPtr outLen true=false))
  | .seek handle offset,(answer,written,later) => written=ram ∧
    ((∃ file,table.file handle=some file ∧ offset ≤ file.data.length ∧ answer=offset ∧
        later.file=Function.update table.file handle (some {file with offset := offset})) ∨
      (answer=-1 ∧ later=table ∧
        ∀ file,table.file handle=some file → file.data.length<offset))
  | .close handle,(answer,written,later) => written=ram ∧
    ((∃ file,table.file handle=some file ∧ answer=0 ∧
        later.file=Function.update table.file handle none) ∨
      (answer=-1 ∧ later=table ∧ table.file handle=none))

section

variable {table later : Table} {handle : ℕ} {old : OpenFile}

theorem file_eq (table : Table) (handle : ℕ) : table.file handle=
    if handle<firstFileHandle then none else (table.openFiles[handle-firstFileHandle]?).join := by
  simp only [Table.file,slotOf]
  split <;> rfl

/-- The slot of an open file. -/
theorem slot_of_file (hfile : table.file handle=some old) : firstFileHandle ≤ handle ∧
    table.openFiles[handle-firstFileHandle]?=some (some old) := by
  rw [file_eq] at hfile
  split at hfile
  · cases hfile
  · exact ⟨by omega,Option.join_eq_some_iff.mp hfile⟩

/-- Putting a file into a slot changes the cursor of its handle only. -/
theorem file_set {files : List (Option OpenFile)} {index : ℕ} (hindex : index<files.length)
    (new : Option OpenFile) (first second : ℕ) : Table.file ⟨files.set index new,first⟩=
      Function.update (Table.file ⟨files,second⟩) (index+firstFileHandle) new := by
  funext other
  rw [Function.update_apply,file_eq,file_eq]
  by_cases hlow : other<firstFileHandle
  · rw [if_pos hlow,if_neg (by omega),if_pos hlow]
  · by_cases hsame : other=index+firstFileHandle
    · rw [if_neg hlow,if_pos hsame,hsame,Nat.add_sub_cancel,List.getElem?_set_self hindex]
      rfl
    · rw [if_neg hlow,if_neg hsame,if_neg hlow,List.getElem?_set_ne (by omega)]

theorem file_push (files : List (Option OpenFile)) (new : OpenFile) (first second : ℕ) :
    Table.file ⟨files++[some new],first⟩=
      Function.update (Table.file ⟨files,second⟩) (files.length+firstFileHandle) (some new) := by
  funext other
  rw [Function.update_apply,file_eq,file_eq]
  by_cases hlow : other<firstFileHandle
  · rw [if_pos hlow,if_neg (by omega),if_pos hlow]
  · by_cases hsame : other=files.length+firstFileHandle
    · rw [if_neg hlow,if_pos hsame,hsame,Nat.add_sub_cancel,List.getElem?_concat_length]
      rfl
    · rw [if_neg hlow,if_neg hsame,if_neg hlow]
      by_cases hinside : other-firstFileHandle<files.length
      · rw [List.getElem?_append_left hinside]
      · have hpast : files.length ≤ other-firstFileHandle := by omega
        rw [List.getElem?_eq_none hpast,
          List.getElem?_eq_none (by rw [List.length_append,List.length_singleton]; omega)]

/-- Changing one slot exchanges its bytes in the total. -/
theorem total_set {files : List (Option OpenFile)} {index : ℕ} {before : Option OpenFile}
    (hslot : files[index]?=some before) (new : Option OpenFile) :
    ((files.set index new).map slotLength).sum+slotLength before=
      (files.map slotLength).sum+slotLength new := by
  induction files generalizing index with
  | nil => cases hslot
  | cons head rest ih =>
    cases index with
    | zero =>
      cases hslot
      simp only [List.set_cons_zero,List.map_cons,List.sum_cons]
      omega
    | succ index =>
      have hrest := ih hslot
      simp only [List.set_cons_succ,List.map_cons,List.sum_cons]
      omega

section

variable (hfile : table.file handle=some old)
include hfile

/-- Replacing an open file changes its own cursor only. -/
theorem file_replace (new : Option OpenFile) :
    (table.replace handle new).file=Function.update table.file handle new := by
  obtain ⟨hlow,hslot⟩ := slot_of_file hfile
  obtain ⟨hindex,-⟩ := List.getElem?_eq_some_iff.mp hslot
  have hset := file_set hindex new table.openFileBytes table.openFileBytes
  rwa [Nat.sub_add_cancel hlow] at hset

theorem total_replace (new : Option OpenFile) :
    (table.replace handle new).total+old.data.length=table.total+slotLength new :=
  total_set (slot_of_file hfile).2 new

/-- The total counts every open file. -/
theorem length_le_total : old.data.length ≤ table.total := by
  have htotal := total_replace hfile none
  have hnone : slotLength none=0 := rfl
  omega

end

section

variable (hsound : Sound table)
include hsound

/-- One cursor changes to an offset inside of its file. -/
theorem Sound.update {new : Option OpenFile}
    (hfile : later.file=Function.update table.file handle new)
    (hnew : ∀ file,new=some file → file.offset ≤ file.data.length)
    (hslots : later.openFiles.length ≤ maxOpenFiles) (hsum : later.openFileBytes=later.total)
    (hlimit : later.openFileBytes ≤ maxOpenFileBytes) : Sound later := by
  refine ⟨hslots,hsum,hlimit,fun other file hother => ?_⟩
  rw [hfile,Function.update_apply] at hother
  split at hother
  · exact hnew file hother
  · exact hsound.offsets other file hother

/-- Moving the offset of an open file inside of the file. -/
theorem Sound.move (hfile : table.file handle=some old) {offset : ℕ}
    (hoffset : offset ≤ old.data.length) :
    Sound (table.replace handle (some {old with offset := offset})) := by
  have htotal := total_replace hfile (some {old with offset := offset})
  have hlength : slotLength (some {old with offset := offset})=old.data.length := rfl
  refine hsound.update (file_replace hfile _) ?_ ?_ ?_ hsound.limit
  · rintro file ⟨⟩
    exact hoffset
  · rw [Table.replace,List.length_set]
    exact hsound.slots
  · have hsum := hsound.sum
    have hbytes : (table.replace handle (some {old with offset := offset})).openFileBytes=
      table.openFileBytes := rfl
    omega

/-! ## What each operation does -/

/-- Opening takes a free handle, exactly when the contents fit. -/
theorem openFileForCurrentProcess_cases (data : List UInt8) :
    (∃ handle later,openFileForCurrentProcess data table=(some handle,later) ∧ table.Fits data ∧
      firstFileHandle ≤ handle ∧ table.file handle=none ∧
      later.file=Function.update table.file handle (some ⟨data,0⟩) ∧ Sound later) ∨
    (openFileForCurrentProcess data table=(none,table) ∧ ¬table.Fits data) := by
  have hsum := hsound.sum
  have hslots := hsound.slots
  have hmax : maxOpenFileBytes<2^64 := by decide
  have hhandles : firstFileHandle+maxOpenFiles<2^32 := by decide
  have hnew : ∀ file,some (⟨data,0⟩ : OpenFile)=some file → file.offset ≤ file.data.length := by
    rintro file ⟨⟩
    exact Nat.zero_le _
  have hadded : slotLength (some ⟨data,0⟩)=data.length := rfl
  simp only [openFileForCurrentProcess]
  by_cases hfit : table.openFileBytes+data.length ≤ maxOpenFileBytes
  · rw [if_neg (by omega),if_neg (by omega)]
    rcases hfree : table.openFiles.findIdx? Option.isNone with _|index
    · have hfull := List.findIdx?_eq_none_iff.mp hfree
      dsimp only
      split
      · refine Or.inr ⟨rfl,?_⟩
        rintro ⟨-,handle,hlow,hhigh,hnone⟩
        rw [file_eq,if_neg (by omega)] at hnone
        obtain ⟨slot,hslot⟩ : ∃ slot,table.openFiles[handle-firstFileHandle]?=some slot :=
          ⟨_,List.getElem?_eq_getElem (by omega)⟩
        rw [hslot] at hnone
        have hopen := hfull slot (List.mem_of_getElem? hslot)
        rw [show slot=none from hnone] at hopen
        cases hopen
      · rw [handleOf,if_pos (by omega)]
        have hnone : table.file (table.openFiles.length+firstFileHandle)=none := by
          rw [file_eq,if_neg (by omega),Nat.add_sub_cancel,List.getElem?_eq_none le_rfl]
          rfl
        have hfile := file_push table.openFiles ⟨data,0⟩ (table.openFileBytes+data.length)
          table.openFileBytes
        refine Or.inl ⟨_,_,rfl,⟨by omega,_,by omega,by omega,hnone⟩,by omega,hnone,hfile,?_⟩
        refine hsound.update hfile hnew ?_ ?_ hfit
        · rw [List.length_append,List.length_singleton]
          omega
        · rw [Table.total,List.map_append,List.sum_append,List.map_singleton,List.sum_singleton,
            hadded,hsum,Table.total]
    · obtain ⟨hindex,hempty,-⟩ := List.findIdx?_eq_some_iff_getElem.mp hfree
      have hslot : table.openFiles[index]?=some none := by
        rw [List.getElem?_eq_getElem hindex,Option.isNone_iff_eq_none.mp hempty]
      dsimp only
      rw [handleOf,if_pos (by omega)]
      have hnone : table.file (index+firstFileHandle)=none := by
        rw [file_eq,if_neg (by omega),Nat.add_sub_cancel,hslot]
        rfl
      have hfile := file_set hindex (some ⟨data,0⟩) (table.openFileBytes+data.length)
        table.openFileBytes
      have htotal := total_set hslot (some ⟨data,0⟩)
      refine Or.inl ⟨_,_,rfl,⟨by omega,_,by omega,by omega,hnone⟩,by omega,hnone,hfile,?_⟩
      refine hsound.update hfile hnew ?_ ?_ hfit
      · rw [List.length_set]
        exact hslots
      · have hzero : slotLength none=0 := rfl
        rw [Table.total] at hsum ⊢
        dsimp only
        omega
  · refine Or.inr ⟨?_,?_⟩
    · split
      · rfl
      · rw [if_pos (by omega)]
    · rintro ⟨hsmall,-⟩
      omega

/-- Closing an open file empties its slot and takes its bytes off. -/
theorem closeFileForCurrentProcess_cases (handle : ℕ) :
    (∃ old later,closeFileForCurrentProcess handle table=(true,later) ∧
      table.file handle=some old ∧ later.file=Function.update table.file handle none ∧
      Sound later) ∨
    (closeFileForCurrentProcess handle table=(false,table) ∧ table.file handle=none) := by
  rw [closeFileForCurrentProcess]
  rcases hfile : table.file handle with _|old
  · exact Or.inr ⟨rfl,rfl⟩
  · have hle := length_le_total hfile
    have hsum := hsound.sum
    have hlimit := hsound.limit
    have htotal := total_replace hfile none
    have hzero : slotLength none=0 := rfl
    dsimp only
    rw [if_pos (by omega)]
    refine Or.inl ⟨old,_,rfl,rfl,file_replace hfile none,?_⟩
    refine hsound.update (file_replace hfile none) nofun ?_ ?_ ?_
    · rw [Table.replace,List.length_set]
      exact hsound.slots
    · change table.openFileBytes-old.data.length=(table.replace handle none).total
      omega
    · change table.openFileBytes-old.data.length ≤ maxOpenFileBytes
      omega

/-- Seeking succeeds exactly inside of the file. -/
theorem seekFileForCurrentProcess_cases (handle offset : ℕ) :
    (∃ old later,seekFileForCurrentProcess handle offset table=some later ∧
      table.file handle=some old ∧ offset ≤ old.data.length ∧
      later.file=Function.update table.file handle (some {old with offset := offset}) ∧
      Sound later) ∨
    (seekFileForCurrentProcess handle offset table=none ∧
      ∀ old,table.file handle=some old → old.data.length<offset) := by
  rw [seekFileForCurrentProcess]
  rcases hfile : table.file handle with _|old
  · exact Or.inr ⟨rfl,nofun⟩
  · by_cases hinside : offset ≤ old.data.length
    · refine Or.inl ⟨old,_,if_neg (by omega),rfl,hinside,file_replace hfile _,
        hsound.move hfile hinside⟩
    · refine Or.inr ⟨if_pos (by omega),?_⟩
      rintro _ ⟨⟩
      omega

end

/-- Bytes ahead of an offset inside of the file end where the read ends. -/
theorem length_ahead {len : ℕ} (hoffset : old.offset ≤ old.data.length) :
    old.offset+(old.ahead len).length=min (old.offset+len) old.data.length := by
  rw [OpenFile.ahead,length_slice (by omega)]
  omega

end

section

variable {space : AddressSpace} {ram : Ram} {table : Table}

/-- A read copies the bytes ahead and moves behind them. The slice lies
inside of the contents, so that it is taken without panic. -/
theorem read_served (hsound : Sound table) (hspace : Unshared space) (handle outPtr outLen : ℕ) :
    ∃ outcome,sysRead (some space) handle outPtr outLen ram table=some outcome ∧
      Served space ram table (.read handle outPtr outLen) outcome ∧ Sound outcome.2.2 := by
  have hrefused : table.file handle=none ∨ maxFileIoLen<outLen ∨
      validateCurrentUserRange (some space) outPtr outLen true=false →
      Served space ram table (.read handle outPtr outLen) (-1,ram,table) :=
    fun hcause => Or.inr ⟨rfl,rfl,rfl,hcause⟩
  have hslots := hsound.slots
  have hhandles : firstFileHandle+maxOpenFiles<2^32 := by decide
  have hsmall : maxOpenFileBytes+maxFileIoLen<2^64 := by decide
  rw [sysRead]
  rcases hfile : table.file handle with _|file
  · refine ⟨(-1,ram,table),?_,hrefused (Or.inl hfile),hsound⟩
    have hpeek : peekFileForCurrentProcess handle outLen table=none := by
      rw [peekFileForCurrentProcess,hfile]
      rfl
    rw [hpeek]
    simp only [ite_self]
  · obtain ⟨hlow,hslot⟩ := slot_of_file hfile
    obtain ⟨hindex,-⟩ := List.getElem?_eq_some_iff.mp hslot
    have hoffset := hsound.offsets handle file hfile
    have hlength := length_le_total hfile
    have hsum := hsound.sum
    have hlimit := hsound.limit
    rw [if_neg (by omega)]
    by_cases hlen : maxFileIoLen<outLen
    · exact ⟨_,if_pos hlen,hrefused (Or.inr (Or.inl hlen)),hsound⟩
    rw [if_neg hlen]
    rcases hvalid : validateCurrentUserRange (some space) outPtr outLen true with _|_
    · exact ⟨_,rfl,hrefused (Or.inr (Or.inr hvalid)),hsound⟩
    have hahead := @length_ahead file outLen hoffset
    have hpeek : peekFileForCurrentProcess handle outLen table=
        some (file.data,file.offset,min (file.offset+outLen) file.data.length) := by
      rw [peekFileForCurrentProcess,hfile]
      exact if_neg (by omega)
    have hadvance : advanceFileForCurrentProcess handle (file.ahead outLen).length table=
        some (table.replace handle
          (some {file with offset := file.offset+(file.ahead outLen).length})) := by
      rw [advanceFileForCurrentProcess,hfile]
      exact (if_neg (by omega)).trans (if_neg (by omega))
    obtain ⟨written,hcopy,hwritten⟩ : ∃ written,
        (if (file.ahead outLen).isEmpty then some ram
          else copyToCurrentUser (some space) outPtr (file.ahead outLen) ram)=some written ∧
        Written space outPtr (file.ahead outLen) ram written := by
      by_cases hempty : (file.ahead outLen).isEmpty
      · refine ⟨ram,if_pos hempty,?_⟩
        rw [List.isEmpty_iff.mp hempty]
        exact Written.nil outPtr ram
      · obtain ⟨written,hcopy⟩ := copyToCurrentUser_checked ram hvalid
          (show (file.ahead outLen).length ≤ outLen by omega)
        exact ⟨written,(if_neg hempty).trans hcopy,copyToCurrentUser_written hspace hcopy⟩
    refine ⟨((file.ahead outLen).length,written,table.replace handle
      (some {file with offset := file.offset+(file.ahead outLen).length})),?_,Or.inl ⟨file,hfile,
      by omega,hvalid,rfl,hwritten,hahead,file_replace hfile _⟩,hsound.move hfile (by omega)⟩
    rw [hpeek]
    simp only [Bool.not_true,Bool.false_eq_true,if_false]
    rw [if_neg (by omega)]
    have hslice : slice file.data file.offset
        (min (file.offset+outLen) file.data.length-file.offset)=file.ahead outLen := rfl
    simp only [hslice,hcopy,hadvance]

/-- Every call answers, treats the table as a map of cursors and keeps it
sound. -/
theorem call_served (hsound : Sound table) (hspace : Unshared space) (call : FileCall) :
    ∃ outcome,call.perform (some space) ram table=some outcome ∧
      Served space ram table call outcome ∧ Sound outcome.2.2 := by
  have hslots := hsound.slots
  have hhandles : firstFileHandle+maxOpenFiles<2^32 := by decide
  have hsmall : ∀ {handle file},table.file handle=some file → handle<2^32 := by
    intro handle file hfile
    obtain ⟨hlow,hslot⟩ := slot_of_file hfile
    obtain ⟨hindex,-⟩ := List.getElem?_eq_some_iff.mp hslot
    omega
  cases call with
  | «open» contents =>
    rcases contents with _|data
    · exact ⟨_,rfl,⟨rfl,Or.inr ⟨rfl,rfl,nofun⟩⟩,hsound⟩
    · rcases openFileForCurrentProcess_cases hsound data with
        ⟨handle,later,hopen,hfits,hlow,hnone,hfile,hlater⟩|⟨hopen,hfull⟩
      · have hcall : sysOpen (some data) table=((handle : ℤ),later) := by rw [sysOpen,hopen]
        refine ⟨(handle,ram,later),by rw [FileCall.perform,hcall],⟨rfl,Or.inl ?_⟩,hlater⟩
        exact ⟨data,handle,rfl,hfits,rfl,hlow,hnone,hfile⟩
      · have hcall : sysOpen (some data) table=(-1,table) := by rw [sysOpen,hopen]
        refine ⟨(-1,ram,table),by rw [FileCall.perform,hcall],⟨rfl,Or.inr ⟨rfl,rfl,?_⟩⟩,hsound⟩
        rintro _ ⟨⟩
        exact hfull
  | read handle outPtr outLen => exact read_served hsound hspace handle outPtr outLen
  | seek handle offset =>
    rcases seekFileForCurrentProcess_cases hsound handle offset with
      ⟨old,later,hseek,hfile,hinside,hupdate,hlater⟩|⟨hseek,houtside⟩
    · have hcall : sysSeek handle offset table=((offset : ℤ),later) := by
        rw [sysSeek,if_neg (Nat.not_le.mpr (hsmall hfile)),hseek]
      refine ⟨(offset,ram,later),by rw [FileCall.perform,hcall],⟨rfl,Or.inl ?_⟩,hlater⟩
      exact ⟨old,hfile,hinside,rfl,hupdate⟩
    · have hcall : sysSeek handle offset table=(-1,table) := by
        rw [sysSeek,hseek]
        exact ite_self _
      exact ⟨(-1,ram,table),by rw [FileCall.perform,hcall],⟨rfl,Or.inr ⟨rfl,rfl,houtside⟩⟩,hsound⟩
  | close handle =>
    rcases closeFileForCurrentProcess_cases hsound handle with
      ⟨old,later,hclose,hfile,hupdate,hlater⟩|⟨hclose,hnone⟩
    · have hcall : sysClose handle table=(0,later) := by
        rw [sysClose,if_neg (Nat.not_le.mpr (hsmall hfile)),hclose]
      exact ⟨(0,ram,later),by rw [FileCall.perform,hcall],
        ⟨rfl,Or.inl ⟨old,hfile,rfl,hupdate⟩⟩,hlater⟩
    · have hcall : sysClose handle table=(-1,table) := by
        rw [sysClose,hclose]
        exact ite_self _
      exact ⟨(-1,ram,table),by rw [FileCall.perform,hcall],⟨rfl,Or.inr ⟨rfl,rfl,hnone⟩⟩,hsound⟩

end

/-! ## Whole runs -/

section

variable {bytes : List UInt8} {caller : Caller} {table : Table}

/-- Outside of calls a process has its memory, with no address twice. -/
theorem unshared_of_idle {regions : List (ℕ×ℕ)} {rax : ℤ} (hbalanced : caller.Balanced)
    (hholds : Holds bytes regions caller) (hjob : caller.job=.idle rax) :
    ∃ space,caller.vm.process.addressSpace=some space ∧ Unshared space := by
  cases hholds with
  | resting _ space _ hresting _ =>
    have hbacks := hbalanced.backs
    rw [VmCalls.ProcessState.ownedFrames_some hresting.has] at hbacks
    exact ⟨space,hresting.has,unshared_of_backs hresting.tight.exclusive hbacks⟩
  | mapping _ _ _ _ _ hmapping => exact absurd hmapping.busy (not_busy hjob)
  | unmapping _ _ _ _ _ hunmapping => exact absurd hunmapping.busy (not_busy hjob)

/-- A call on the table leaves the process where it is. -/
theorem holds_answered {regions : List (ℕ×ℕ)} {rax : ℤ} (hbalanced : caller.Balanced)
    (hholds : Holds bytes regions caller) (hjob : caller.job=.idle rax) (answer : ℤ)
    (written : Ram) : (answered caller answer written).Balanced ∧
      Holds bytes regions (answered caller answer written) := by
  cases hholds with
  | resting _ space _ hresting harena =>
    rw [Caller.Balanced,hjob] at hbalanced
    exact ⟨hbalanced,.resting answer space rfl hresting harena⟩
  | mapping _ _ _ _ _ hmapping => exact absurd hmapping.busy (not_busy hjob)
  | unmapping _ _ _ _ _ hunmapping => exact absurd hunmapping.busy (not_busy hjob)

theorem sound_empty : Sound .empty := by
  refine ⟨by decide,rfl,by decide,fun handle file hfile => ?_⟩
  rw [file_eq] at hfile
  split at hfile <;> cases hfile

/-- The table is sound at every time. -/
theorem reaches_invariant (hreaches : Reaches bytes caller table) :
    Sound table ∧ caller.Balanced ∧ ∃ regions,Holds bytes regions caller := by
  induction hreaches with
  | spawned hspawned => exact ⟨sound_empty,hspawned.balanced,[],holds_spawned hspawned⟩
  | step _ hstep ih =>
    obtain ⟨hsound,hbalanced,regions,hholds⟩ := ih
    obtain ⟨hlater,hkept,-⟩ := MemoryCalls.holds_step hholds hbalanced hstep
    exact ⟨hsound,hlater,_,hkept⟩
  | @call caller table later written rax answer call _ hjob hperform ih =>
    obtain ⟨hsound,hbalanced,regions,hholds⟩ := ih
    obtain ⟨space,hspace,hunshared⟩ := unshared_of_idle hbalanced hholds hjob
    obtain ⟨hlater,hkept⟩ := holds_answered hbalanced hholds hjob answer written
    obtain ⟨outcome,houtcome,-,hsame⟩ := @call_served space caller.vm.paging.ram table hsound
      hunshared call
    rw [hspace,houtcome] at hperform
    cases hperform
    exact ⟨hsame,hlater,regions,hkept⟩

theorem mem_openHandles {handle : ℕ} : handle∈table.openHandles ↔ (table.file handle).isSome := by
  rw [Table.openHandles,List.mem_filter]
  refine and_iff_right_of_imp fun hopen => ?_
  obtain ⟨file,hfile⟩ := Option.isSome_iff_exists.mp hopen
  obtain ⟨hlow,hslot⟩ := slot_of_file hfile
  obtain ⟨hindex,-⟩ := List.getElem?_eq_some_iff.mp hslot
  rw [List.mem_range'_1]
  omega

/-- At every time the total is the sum of the lengths of the open files and
bounded, there are at most sixteen open handles, all different and none below
three, and offsets lie inside of their files. Every call then answers without
panic and acts on the table as on a map of independent cursors: a read into a
valid buffer stores the bytes ahead and moves behind them, a seek succeeds
exactly inside of the file, and other handles do not change. -/
theorem file_table_is_cursor_map (hreaches : Reaches bytes caller table) :
    Sound table ∧ table.openHandles.Nodup ∧ table.openHandles.length ≤ maxOpenFiles ∧
      (∀ handle∈table.openHandles,firstFileHandle ≤ handle) ∧
      (∀ handle,handle∈table.openHandles ↔ (table.file handle).isSome) ∧
      ∀ rax,caller.job=.idle rax → ∃ space,caller.vm.process.addressSpace=some space ∧
        ∀ call : FileCall,∃ outcome,
          call.perform (some space) caller.vm.paging.ram table=some outcome ∧
          Served space caller.vm.paging.ram table call outcome := by
  obtain ⟨hsound,hbalanced,regions,hholds⟩ := reaches_invariant hreaches
  refine ⟨hsound,List.Nodup.filter _ List.nodup_range',?_,?_,fun _ => mem_openHandles,fun rax hjob => ?_⟩
  · calc table.openHandles.length
      _ ≤ (List.range' firstFileHandle table.openFiles.length).length := List.length_filter_le _ _
      _ = table.openFiles.length := List.length_range'
      _ ≤ maxOpenFiles := hsound.slots
  · intro handle hmem
    exact (List.mem_range'_1.mp (List.mem_of_mem_filter hmem)).1
  · obtain ⟨space,hspace,hunshared⟩ := unshared_of_idle hbalanced hholds hjob
    refine ⟨space,hspace,fun call => ?_⟩
    obtain ⟨outcome,hperform,hserved,-⟩ := @call_served space caller.vm.paging.ram table hsound
      hunshared call
    exact ⟨outcome,hperform,hserved⟩

/-- A process opens a file of three bytes and reads two of them to its
stack. -/
theorem file_table_is_cursor_map_first_read :
    ∃ caller table space written later,Reaches tinyElf caller table ∧
      caller.vm.process.addressSpace=some space ∧
      (FileCall.read 3 (userSpaceBase+userSpaceSize-0x1010) 2).perform (some space)
        caller.vm.paging.ram table=some (2,written,later) ∧
      byteAt space written (userSpaceBase+userSpaceSize-0x1010+1)=some 20 ∧
      later.file 3=some ⟨[10,20,30],2⟩ := by
  have hspawn : ((spawnAlone tinyElf smallPaging none).any fun before =>
      validateCurrentUserRange before.vm.process.addressSpace
        (userSpaceBase+userSpaceSize-0x1010) 2 true)=true := by
    decide +kernel
  obtain ⟨before,hspawn,hvalid⟩ := (Option.any_eq_true _ _).mp hspawn
  have hspawned := spawned_spawnAlone backs_smallPaging hspawn
  obtain ⟨rax,hjob⟩ := hspawned.job
  have hreaches := Reaches.call (.open (some [10,20,30])) (.spawned hspawned) hjob rfl
  obtain ⟨space,hspace,hcalls⟩ := (file_table_is_cursor_map hreaches).2.2.2.2.2 3 rfl
  obtain ⟨⟨answer,written,later⟩,hperform,hserved⟩ :=
    hcalls (.read 3 (userSpaceBase+userSpaceSize-0x1010) 2)
  have hsame : before.vm.process.addressSpace=some space := hspace
  rw [hsame] at hvalid
  rcases hserved with ⟨file,hfile,-,-,hanswer,hwritten,-,hlater⟩|⟨-,-,-,hnone|hlong|hrefused⟩
  · cases hfile
    cases hanswer
    refine ⟨_,_,space,written,later,hreaches,hspace,hperform,hwritten.inside 1 20 rfl,?_⟩
    rw [hlater]
    rfl
  · cases hnone
  · exact absurd hlong (by decide)
  · rw [hvalid] at hrefused
    cases hrefused

end

end TuwaiqOS.FileTable
