import TuwaiqOS.DataConfinement
import TuwaiqOS.DirectoryView
import TuwaiqOS.Fat32Bounds
import TuwaiqOS.FileTable

/-!
# Listings in user memory

`READDIR` writes the entries of a directory to a buffer of the caller, each
followed by a newline. No entry contains a control byte: the reader of the
metadata and the normalizer reject such names, the FAT32 volume admits only
printable ones, and the mount points are fixed. So the caller gets the list
back by splitting what was written at the newlines. The buffer is checked
before the directory is read, and it is written once, or not at all.
-/

namespace TuwaiqOS.DirectoryListing

open Utf8Text ByteFields FallibleSteps DeviceProgram FsTree BlockProgram Checkpoint
open VfsMounts TreeRuns DirectoryView AddressSpaces UserMemory ProcessMemory
open DataConfinement (UserBuffer copyUserPath)
open FileTable (maxFileIoLen)
open Fat32Bounds (outcome_decodeEntry outcome_scanRecords length_of_mem_records)

/-! ## Arguments in user memory -/

/-- A range of the caller's memory. -/
def userBuffer (space : Option AddressSpace) (ram : Ram) (ptr len : ℕ) : UserBuffer :=
  ⟨len,copyFromCurrentUser space ptr len ram⟩

/-- `BUFFER_SPEC_LEN`. -/
def bufferSpecLen : ℕ := 16

/-- `copy_user_buffer_spec`: pointer and length. -/
def copyUserBufferSpec (space : Option AddressSpace) (ram : Ram) (specPtr : ℕ) : Option (ℕ×ℕ) := do
  let bytes ← copyFromCurrentUser space specPtr bufferSpecLen ram
  let pointer := leValue (slice bytes 0 8)
  let length := leValue (slice bytes 8 8)
  if length>maxFileIoLen then none else some (pointer,length)

/-! ## The call -/

/-- The byte after each entry. -/
def newline : UInt8 := 0x0A

/-- The loop of `sys_readdir`, with what is encoded so far. -/
def encodeEntries (outLen : ℕ) : List Text → List UInt8 → Option (List UInt8)
  | [],encoded => some encoded
  | entry::rest,encoded =>
    if 2^64 ≤ encoded.length+len entry then none
    else if 2^64 ≤ encoded.length+len entry+1 then none
    else if encoded.length+len entry+1>outLen then none
    else encodeEntries outLen rest (encoded++asBytes entry++[newline])

/-- `sys_readdir`: the answer and the memory. -/
def sysReaddir (space : Option AddressSpace) (cwd : Option Text)
    (listDir : Text → Text → Except String (List Text)) (pathPtr pathLen specPtr : ℕ)
    (ram : Ram) : ℤ×Ram :=
  match copyUserPath (userBuffer space ram pathPtr pathLen) with
  | none => (-1,ram)
  | some path =>
    match copyUserBufferSpec space ram specPtr with
    | none => (-1,ram)
    | some (outPtr,outLen) =>
      if !validateCurrentUserRange space outPtr outLen true then (-1,ram)
      else
        match cwd with
        | none => (-1,ram)
        | some cwd =>
          match listDir cwd path with
          | .error _ => (-1,ram)
          | .ok entries =>
            match encodeEntries outLen entries [] with
            | none => (-1,ram)
            | some encoded =>
              match if encoded.isEmpty then some ram
                else copyToCurrentUser space outPtr encoded ram with
              | none => (-1,ram)
              | some later => (encoded.length,later)

/-! ## The encoding -/

/-- Entries, each with a newline behind it. -/
def encoding (entries : List Text) : List UInt8 :=
  entries.flatMap fun entry => asBytes entry++[newline]

/-- What a reader of the buffer takes as the entries. -/
def splitAtNewlines (bytes : List UInt8) : List (List UInt8) := (bytes.splitOn newline).dropLast

/-- The loop succeeds if the whole encoding fits. -/
theorem encodeEntries_eq {outLen : ℕ} (hsmall : outLen<2^64) (entries : List Text)
    {encoded : List UInt8} (hencoded : encoded.length ≤ outLen) :
    encodeEntries outLen entries encoded=
      if encoded.length+(encoding entries).length ≤ outLen then some (encoded++encoding entries)
      else none := by
  induction entries generalizing encoded with
  | nil =>
    have hnone : encoding []=[] := rfl
    rw [encodeEntries,hnone,List.append_nil,if_pos (by simpa using hencoded)]
  | cons entry rest ih =>
    have hcons : encoding (entry::rest)=asBytes entry++[newline]++encoding rest :=
      List.flatMap_cons
    have hlength : (encoding (entry::rest)).length=len entry+1+(encoding rest).length := by
      rw [hcons,List.length_append,List.length_append,List.length_singleton,len]
    have hnext : (encoded++asBytes entry++[newline]).length=encoded.length+len entry+1 := by
      rw [List.length_append,List.length_append,List.length_singleton,len]
    rw [encodeEntries]
    by_cases hfits : encoded.length+len entry+1 ≤ outLen
    · rw [if_neg (by omega),if_neg (by omega),if_neg (by omega),ih (by rw [hnext]; exact hfits),
        hnext,hlength,hcons]
      simp only [List.append_assoc,Nat.add_assoc]
    · rw [hlength,if_neg (by omega : ¬encoded.length+_ ≤ outLen)]
      by_cases hfirst : 2^64 ≤ encoded.length+len entry
      · rw [if_pos hfirst]
      · rw [if_neg hfirst]
        by_cases hsecond : 2^64 ≤ encoded.length+len entry+1
        · rw [if_pos hsecond]
        · rw [if_neg hsecond,if_pos (by omega)]

/-- Texts without control bytes have no newline. -/
theorem newline_notMem {text : Text} (htext : hasControlByte text=false) :
    newline∉asBytes text := by
  intro hmem
  have hany : hasControlByte text=true := List.any_eq_true.mpr ⟨newline,hmem,by decide⟩
  rw [htext] at hany
  cases hany

variable {entries : List Text} {path : Text}

/-- Splitting gives the entries back. -/
theorem splitAtNewlines_encoding (hentries : ∀ entry∈entries,hasControlByte entry=false) :
    splitAtNewlines (encoding entries)=entries.map asBytes := by
  have hsplit : (encoding entries).splitOn newline=entries.map asBytes++[[]] := by
    induction entries with
    | nil => rfl
    | cons entry rest ih =>
      obtain ⟨hentry,hrest⟩ := List.forall_mem_cons.mp hentries
      have hcons : encoding (entry::rest)=asBytes entry++newline::encoding rest := by
        rw [encoding,List.flatMap_cons,List.append_assoc]
        rfl
      have hfirst : ∀ byte∈asBytes entry,(byte==newline)=false := by
        intro byte hbyte
        refine beq_false_of_ne fun hsame => ?_
        rw [hsame] at hbyte
        exact newline_notMem hentry hbyte
      rw [hcons,List.splitOn,List.splitOnP_append_cons_of_forall_mem hfirst newline (by decide)]
      exact congrArg _ (ih hrest)
  rw [splitAtNewlines,hsplit,List.dropLast_concat]

/-! ## No name has a control byte -/

/-- Texts without control bytes. -/
def Plain (entries : List Text) : Prop := ∀ entry∈entries,hasControlByte entry=false

theorem hasControlByte_concat_slash {name : Text} (hname : hasControlByte name=false) :
    hasControlByte (name++['/'])=false := by
  rw [hasControlByte_append,hname]
  decide

/-- Part of a text without control bytes. -/
theorem hasControlByte_drop {text : Text} (count : ℕ) (htext : hasControlByte text=false) :
    hasControlByte (text.drop count)=false := by
  have hsplit := hasControlByte_append (text.take count) (text.drop count)
  rw [List.take_append_drop,htext] at hsplit
  exact (Bool.or_eq_false_iff.mp hsplit.symm).2

/-- Names in TuwaiqFS. -/
theorem plain_listAt {tree : FsNode} (htree : Tidy tree) (hlist : listAt tree path=.ok entries) :
    Plain entries := by
  obtain ⟨components,-,hlist⟩ := bind_ok_iff.mp hlist
  obtain ⟨children,hchildren,hsame⟩ := bind_ok_iff.mp hlist
  cases hsame
  obtain ⟨node,hnode,hdir⟩ := bind_ok_iff.mp hchildren
  cases node with
  | file content => cases hdir
  | dir found =>
    cases hdir
    intro display hmem
    obtain ⟨⟨name,child⟩,hentry,rfl⟩ := List.mem_map.mp hmem
    have hname := (nameOk_of_mem htree hnode hentry).1
    cases child with
    | file content => exact hname.noControl
    | dir below => exact hasControlByte_concat_slash hname.noControl

section

variable {volume : Fat32.Fat32Volume}

/-- Entries with names without control bytes. -/
def PlainEntries (entries : List Fat32.DirectoryEntry) : Prop :=
  ∀ entry∈entries,hasControlByte entry.name=false

theorem plain_scanSectors (firstLba count index : ℕ) {entries : List Fat32.DirectoryEntry}
    (hentries : PlainEntries entries) :
    Guarded (fun _ => True) (fun _ => True) (fun scan => PlainEntries scan.entries)
      (Fat32.scanSectors firstLba count index entries) := by
  induction count generalizing index entries with
  | zero => exact guarded_pure hentries
  | succ count ih =>
    rw [Fat32.scanSectors]
    refine guarded_bind (guarded_any _) fun lba _ => ?_
    refine guarded_bind (guarded_any _) fun sector _ => ?_
    refine guarded_bind (guarded_settled (outcome_scanRecords trivial
      (fun hlength => (outcome_decodeEntry hlength).imp (fun _ _ => trivial) fun _ => And.right)
      (fun _ => length_of_mem_records) hentries)) fun scan hscan => ?_
    cases scan with
    | finished found => exact guarded_pure hscan
    | more found => exact ih (index+1) hscan

theorem plain_readDirectoryFrom (visited cluster : ℕ) {entries : List Fat32.DirectoryEntry}
    (hentries : PlainEntries entries) : Guarded (fun _ => True) (fun _ => True) PlainEntries
      (Fat32.readDirectoryFrom volume visited cluster entries) := by
  induction hleft : volume.clusterCount-visited using Nat.strong_induction_on
    generalizing visited cluster entries with
  | _ left ih =>
    rw [Fat32.readDirectoryFrom]
    split_ifs with hcount hloop
    · exact guarded_throw trivial
    · exact guarded_throw trivial
    refine guarded_bind (guarded_any _) fun firstLba _ => ?_
    refine guarded_bind (plain_scanSectors firstLba _ 0 hentries) fun scan hscan => ?_
    cases scan with
    | finished found => exact guarded_pure hscan
    | more found =>
      refine guarded_bind (guarded_any _) fun next _ => ?_
      cases next with
      | none => exact guarded_pure hscan
      | some following => exact ih _ (by omega) _ _ hscan rfl

/-- Names of the FAT32 volume, whatever the disk holds. -/
theorem plain_list (path : Text) :
    Guarded (fun _ => True) (fun _ => True) Plain (Fat32.list volume path) := by
  have hnames : ∀ cluster,Guarded (fun _ => True) (fun _ => True) Plain
      (do let entries ← Fat32.readDirectory volume cluster
          pure (entries.map Fat32.DirectoryEntry.display)) := by
    intro cluster
    refine guarded_bind (guarded_bind (guarded_any _) fun _ _ =>
      plain_readDirectoryFrom 0 cluster (by simp [PlainEntries])) fun entries hentries => ?_
    refine guarded_pure fun display hmem => ?_
    obtain ⟨entry,hentry,rfl⟩ := List.mem_map.mp hmem
    have hname := hentries entry hentry
    unfold Fat32.DirectoryEntry.display
    split
    · exact hasControlByte_concat_slash hname
    · exact hname
  refine guarded_bind (guarded_any _) fun located _ => ?_
  cases located with
  | root => exact hnames _
  | entry entry => exact guarded_ite (fun _ => hnames _) fun _ => guarded_throw trivial

theorem plain_serve (device : FatDevice) (hlist : (serve device volume).list path=.ok entries) :
    Plain entries := by
  have hprogram : (Fat32.list volume path).run.Always (fun _ => True)
      (Outcome (fun _ => True) Plain) := plain_list path
  have houtcome := (hprogram.play device (by simp : ∀ op∈[],True)).1
  change (((Fat32.list volume path).run.play device []).1.mapError _)=_ at hlist
  cases hplay : ((Fat32.list volume path).run.play device []).1 with
  | error fault =>
    rw [hplay] at hlist
    cases hlist
  | ok found =>
    rw [hplay] at hlist houtcome
    cases hlist
    exact houtcome

end

/-- A mount that is added to a listing. -/
theorem plain_mergeChild (hentries : Plain entries) {child : Text}
    (hchild : hasControlByte child=false) : Plain (mergeChild entries child) := by
  unfold mergeChild
  split
  · exact hentries
  · intro entry hmem
    rcases List.mem_append.mp hmem with hold|hnew
    · exact hentries entry hold
    · rw [List.mem_singleton.mp hnew]
      exact hasControlByte_concat_slash hchild

theorem plain_foldl_mergeChild {children : List Text} (hentries : Plain entries)
    (hchildren : Plain children) : Plain (children.foldl mergeChild entries) := by
  induction children generalizing entries with
  | nil => exact hentries
  | cons child rest ih =>
    obtain ⟨hchild,hrest⟩ := List.forall_mem_cons.mp hchildren
    exact ih (plain_mergeChild hentries hchild) hrest

theorem plain_mountChild {absolute child : Text} {candidate : Mount}
    (hcandidate : hasControlByte candidate.path=false)
    (hchild : mountChild absolute candidate=some child) : hasControlByte child=false := by
  rw [mountChild] at hchild
  by_cases hroot : candidate.path=['/'] ∨ '/'∉candidate.path
  · rw [if_pos hroot] at hchild
    cases hchild
  · rw [if_neg hroot] at hchild
    obtain ⟨-,hsame⟩ := Option.ite_none_right_eq_some.mp hchild
    cases hsame
    exact hasControlByte_drop _ hcandidate

/-- No entry that `list_dir` returns has a control byte. -/
theorem plain_listDir {tuwaiqFs : Except String Unit} {device : FatDevice}
    {fat : Except String Fat32.Fat32Volume} {mounts : List Mount}
    (hinit : init tuwaiqFs (fat.map (serve device))=.ok mounts) {fs : Option FsNode}
    (hfs : ∀ tree,fs=some tree → Tidy tree) {cwd : Text}
    (hlist : listDir mounts fs cwd path=.ok entries) : Plain entries := by
  obtain ⟨absolute,-,hlist⟩ := bind_ok_iff.mp hlist
  obtain ⟨⟨mount,backendPath⟩,hresolve,hlist⟩ := bind_ok_iff.mp hlist
  have hmem := resolve_mem hresolve
  have hmounts : ∀ mount∈mounts,hasControlByte mount.path=false ∧
      (mount.backend=.tuwaiq ∨ ∃ volume,mount.backend=.fat32 (serve device volume)) := by
    rw [init_eq] at hinit
    cases hinit
    intro mount hmount
    rcases List.mem_append.mp hmount with hfirst|hsecond
    · cases tuwaiqFs with
      | error reason => cases hfirst
      | ok _ =>
        rw [List.mem_singleton.mp hfirst]
        exact ⟨by decide,Or.inl rfl⟩
    · cases fat with
      | error reason => cases hsecond
      | ok volume =>
        rw [List.mem_singleton.mp hsecond]
        exact ⟨(by decide : hasControlByte ['/','b','o','o','t']=false),Or.inr ⟨volume,rfl⟩⟩
  have hchildren : Plain (mounts.filterMap (mountChild absolute)) := by
    intro child hchild
    obtain ⟨candidate,hcandidate,hsome⟩ := List.mem_filterMap.mp hchild
    exact plain_mountChild (hmounts candidate hcandidate).1 hsome
  dsimp only at hlist
  rcases (hmounts mount hmem).2 with hbackend|⟨volume,hbackend⟩
  · rw [hbackend] at hlist
    obtain ⟨shown,hshown,hsame⟩ := bind_ok_iff.mp hlist
    cases hsame
    cases fs with
    | none => cases hshown
    | some tree => exact plain_foldl_mergeChild (plain_listAt (hfs tree rfl) hshown) hchildren
  · rw [hbackend] at hlist
    obtain ⟨shown,hshown,hsame⟩ := bind_ok_iff.mp hlist
    cases hsame
    exact plain_foldl_mergeChild (plain_serve device hshown) hchildren

/-! ## What the caller gets -/

/-- The path, the descriptor and the buffer are valid, the path is that of a
directory with these entries, and their encoding fits. -/
def Answerable (space : AddressSpace) (cwd : Text)
    (listDir : Text → Text → Except String (List Text)) (pathPtr pathLen specPtr : ℕ) (ram : Ram)
    (outPtr : ℕ) (entries : List Text) : Prop :=
  ∃ path outLen,copyUserPath (userBuffer (some space) ram pathPtr pathLen)=some path ∧
    copyUserBufferSpec (some space) ram specPtr=some (outPtr,outLen) ∧
    validateCurrentUserRange (some space) outPtr outLen true=true ∧
    listDir cwd path=.ok entries ∧ (encoding entries).length ≤ outLen

theorem copyUserBufferSpec_small {space : Option AddressSpace} {ram : Ram}
    {specPtr outPtr outLen : ℕ}
    (hspec : copyUserBufferSpec space ram specPtr=some (outPtr,outLen)) :
    outLen ≤ maxFileIoLen := by
  obtain ⟨bytes,-,hspec⟩ := Option.bind_eq_some_iff.mp hspec
  dsimp only at hspec
  split at hspec
  · cases hspec
  · cases hspec
    omega

section

variable {space : AddressSpace} {cwd : Text} {listDir : Text → Text → Except String (List Text)}
  {pathPtr pathLen specPtr : ℕ} {ram : Ram}

/-- An answerable call writes the encoding. -/
theorem sysReaddir_answerable (hspace : Unshared space) {outPtr : ℕ}
    (hanswerable : Answerable space cwd listDir pathPtr pathLen specPtr ram outPtr entries) :
    ∃ later,sysReaddir (some space) (some cwd) listDir pathPtr pathLen specPtr ram=
        (((encoding entries).length : ℤ),later) ∧
      Written space outPtr (encoding entries) ram later := by
  obtain ⟨path,outLen,hpath,hspec,hvalid,hlist,hfits⟩ := hanswerable
  have hsmall := copyUserBufferSpec_small hspec
  have hbound : maxFileIoLen<2^64 := by decide
  have hencode : encodeEntries outLen entries []=some (encoding entries) := by
    rw [encodeEntries_eq (by omega) entries (Nat.zero_le _),if_pos (by simpa using hfits)]
    rfl
  rw [sysReaddir,hpath]
  dsimp only
  rw [hspec]
  dsimp only
  rw [hvalid,hlist]
  dsimp only
  rw [hencode]
  cases hempty : (encoding entries).isEmpty with
  | true =>
    have hnil := List.isEmpty_iff.mp hempty
    refine ⟨ram,by simp [hempty],?_⟩
    rw [hnil]
    exact Written.nil outPtr ram
  | false =>
    obtain ⟨later,hcopy⟩ := copyToCurrentUser_checked ram hvalid hfits
    exact ⟨later,by simp [hempty,hcopy],copyToCurrentUser_written hspace hcopy⟩

/-- Every other call fails and writes nothing. -/
theorem sysReaddir_refused (hrefused : ∀ outPtr entries,
    ¬Answerable space cwd listDir pathPtr pathLen specPtr ram outPtr entries) :
    sysReaddir (some space) (some cwd) listDir pathPtr pathLen specPtr ram=(-1,ram) := by
  rw [sysReaddir]
  cases hpath : copyUserPath (userBuffer (some space) ram pathPtr pathLen) with
  | none => rfl
  | some path =>
    cases hspec : copyUserBufferSpec (some space) ram specPtr with
    | none => rfl
    | some buffer =>
      obtain ⟨outPtr,outLen⟩ := buffer
      dsimp only
      cases hvalid : validateCurrentUserRange (some space) outPtr outLen true with
      | false => rfl
      | true =>
        cases hlist : listDir cwd path with
        | error reason => rfl
        | ok entries =>
          have hsmall := copyUserBufferSpec_small hspec
          have hbound : maxFileIoLen<2^64 := by decide
          have hlong : ¬(encoding entries).length ≤ outLen := fun hfits =>
            hrefused outPtr entries ⟨path,outLen,hpath,hspec,hvalid,hlist,hfits⟩
          have hencode : encodeEntries outLen entries []=none := by
            rw [encodeEntries_eq (by omega) entries (Nat.zero_le _),if_neg (by simpa using hlong)]
          dsimp only
          rw [hencode]
          rfl

end

/-- At every time, for every mounted FAT32 volume, every tree that runs of the
VFS lead to and every process: `READDIR` succeeds exactly if the path, the
descriptor and the buffer are valid, the path is that of a directory and the
encoding of its entries fits. It then returns the length of the encoding and
changes exactly that many bytes of the buffer, and splitting them at newlines
gives the entries in order. A call that fails changes nothing. -/
theorem readdir_decodable {tuwaiqFs : Except String Unit} {device : FatDevice}
    {fat : Except String Fat32.Fat32Volume} {mounts : List Mount}
    (hinit : init tuwaiqFs (fat.map (serve device))=.ok mounts) {machine : FsMachine}
    {tree : FsNode} (hmount : Routine.MayReturn mount tree) (hfs : machine.memory.fs=some tree)
    (hfree : machine.memory.writerActive=false) (calls : List (VfsCall×List WriteFate))
    {bytes : List UInt8} {caller : Caller} {table : FileTable.Table} {rax : ℤ}
    (hreaches : FileTable.Reaches bytes caller table) (hjob : caller.job=.idle rax) (cwd : Text)
    (pathPtr pathLen specPtr : ℕ) :
    ∃ space,caller.vm.process.addressSpace=some space ∧
      let list := listDir mounts (runCalls mounts calls machine).memory.fs
      let ram := caller.vm.paging.ram
      let result := sysReaddir (some space) (some cwd) list pathPtr pathLen specPtr ram
      (∀ outPtr entries,Answerable space cwd list pathPtr pathLen specPtr ram outPtr entries →
        result.1=(encoding entries).length ∧
          Written space outPtr (encoding entries) ram result.2 ∧
          splitAtNewlines (encoding entries)=entries.map asBytes) ∧
      (result.1= -1 ↔ ¬∃ outPtr entries,
        Answerable space cwd list pathPtr pathLen specPtr ram outPtr entries) ∧
      (result.1= -1 → result.2=ram) := by
  obtain ⟨-,hbalanced,regions,hholds⟩ := FileTable.reaches_invariant hreaches
  obtain ⟨space,hspace,hunshared⟩ := FileTable.unshared_of_idle hbalanced hholds hjob
  have hserving : TreeRuns.Serving machine := ⟨hfree,tree,hfs,mount_treeOk hmount⟩
  obtain ⟨last,hlast,hok⟩ := (serving_runCalls hinit calls hserving).tree
  have htidy : ∀ found,(runCalls mounts calls machine).memory.fs=some found → Tidy found := by
    intro found hfound
    rw [hlast] at hfound
    cases hfound
    exact tidy_of_treeOk hok
  refine ⟨space,hspace,?_⟩
  intro list ram result
  have hserved : ∀ outPtr entries,
      Answerable space cwd list pathPtr pathLen specPtr ram outPtr entries →
        result.1=(encoding entries).length ∧ Written space outPtr (encoding entries) ram result.2 := by
    intro outPtr entries hanswerable
    obtain ⟨later,hresult,hwritten⟩ := sysReaddir_answerable hunshared hanswerable
    have hsame : result=(((encoding entries).length : ℤ),later) := hresult
    rw [hsame]
    exact ⟨rfl,hwritten⟩
  have hrefused : (¬∃ outPtr entries,
      Answerable space cwd list pathPtr pathLen specPtr ram outPtr entries) →
        result=(-1,ram) := by
    intro hnone
    exact sysReaddir_refused fun outPtr entries h => hnone ⟨outPtr,entries,h⟩
  have hfails : result.1= -1 ↔ ¬∃ outPtr entries,
      Answerable space cwd list pathPtr pathLen specPtr ram outPtr entries := by
    constructor
    · rintro hfailed ⟨outPtr,entries,hanswerable⟩
      have hlength := (hserved outPtr entries hanswerable).1
      omega
    · intro hnone
      rw [hrefused hnone]
  refine ⟨fun outPtr entries hanswerable => ?_,hfails,fun hfailed => ?_⟩
  · obtain ⟨hlength,hwritten⟩ := hserved outPtr entries hanswerable
    obtain ⟨path,outLen,-,-,-,hlist,-⟩ := hanswerable
    exact ⟨hlength,hwritten,splitAtNewlines_encoding (plain_listDir hinit htidy hlist)⟩
  · rw [hrefused (hfails.mp hfailed)]

/-- Where the process keeps the arguments of a call, on its stack. -/
def stackPlace : ℕ := userSpaceBase+userSpaceSize-0x1100

/-- The path `/` and the descriptor of a buffer of 64 bytes behind it. -/
def rootArguments : List UInt8 :=
  [0x2f,0,0,0,0,0,0,0]++leBytes 8 (stackPlace+0x20)++leBytes 8 64

/-- A process lists the root, which shows the mount point of the FAT32
volume only. -/
theorem readdir_decodable_root :
    ∃ caller table space,FileTable.Reaches ElfImage.tinyElf caller table ∧
      caller.vm.process.addressSpace=some space ∧
      (sysReaddir (some space) (some ['/']) (listDir sampleTable (some emptyRoot)) stackPlace 1
        (stackPlace+8) caller.vm.paging.ram).1=6 ∧
      splitAtNewlines (encoding [bootName++['/']])=[asBytes (bootName++['/'])] := by
  have hspawn : ((spawnAlone ElfImage.tinyElf FrameConservation.smallPaging none).any fun before =>
      before.vm.process.addressSpace.any fun space =>
      (writeBytesInAddressSpace space stackPlace rootArguments
        before.vm.paging.ram).toOption.any fun ram =>
      copyUserPath (userBuffer (some space) ram stackPlace 1)==some ['/'] &&
      copyUserBufferSpec (some space) ram (stackPlace+8)==some (stackPlace+0x20,64) &&
      validateCurrentUserRange (some space) (stackPlace+0x20) 64 true)=true := by
    decide +kernel
  obtain ⟨before,hspawn,hrun⟩ := (Option.any_eq_true _ _).mp hspawn
  obtain ⟨space,hspace,hrun⟩ := (Option.any_eq_true _ _).mp hrun
  obtain ⟨ram,-,hrun⟩ := (Option.any_eq_true _ _).mp hrun
  simp only [Bool.and_eq_true,beq_iff_eq] at hrun
  obtain ⟨⟨hpath,hspec⟩,hvalid⟩ := hrun
  have hspawned := spawned_spawnAlone FrameConservation.backs_smallPaging hspawn
  obtain ⟨rax,hjob⟩ := hspawned.job
  -- the process has written the arguments to its stack
  have hothers : Interferes before (FileTable.answered before rax ram) := by
    have hbalanced := hspawned.balanced
    rw [Caller.Balanced,hjob] at hbalanced
    exact ⟨hjob.symm,rfl,rfl,hbalanced,fun hbusy => absurd hbusy (not_busy hjob),
      fun hbusy => absurd hbusy (not_busy hjob)⟩
  have hreaches := (FileTable.Reaches.spawned hspawned).step (.others hothers)
  have hfs : freshMachine.memory.fs=some emptyRoot := rfl
  obtain ⟨found,hfound,hserved,-⟩ := readdir_decodable init_sampleTable mayReturn_mount_blank
    hfs rfl [] hreaches rfl ['/'] stackPlace 1 (stackPlace+8)
  have hsame : found=space := Option.some.inj (hfound.symm.trans hspace)
  subst hsame
  obtain ⟨hlength,-,hsplit⟩ := hserved (stackPlace+0x20) [bootName++['/']]
    ⟨['/'],64,hpath,hspec,hvalid,rfl,by decide⟩
  exact ⟨_,_,found,hreaches,hfound,hlength,hsplit⟩

end TuwaiqOS.DirectoryListing
