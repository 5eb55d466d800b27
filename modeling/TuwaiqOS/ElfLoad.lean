import TuwaiqOS.LoadedImage

/-!
# Loading an executable

`load` works on untrusted bytes, with unchecked sums, slices and conversions
to addresses between its checks. Here it is taken as it is written, with a
panic wherever one of them could go wrong, and with its loops over addresses.
It never panics, and its two passes are the ones of the image model: a file
with a program header that the loader cannot accept is refused before the
address space changes, and a file that is loaded has its image in memory.
-/

namespace TuwaiqOS.ElfLoad

open FallibleSteps ByteFields ResourceLedger FrameAllocator PageTables AddressSpaces ElfImage
open LoadedImage
open BootInfoFrameAllocator (books)
open FrameConservation (smallPaging backs_smallPaging)

/-! ## The loader with its panics -/

/-- How `load` can stop. -/
inductive Stop where
  /-- An `Err`. -/
  | error (reason : String)
  /-- A panic. -/
  | panic
  deriving DecidableEq

/-- `a + b` of type `u64` or `usize`. -/
def plus (a b : ℕ) : Except Stop ℕ := if a+b<2^64 then .ok (a+b) else .error .panic

/-- `a * b` of type `usize`. -/
def times (a b : ℕ) : Except Stop ℕ := if a*b<2^64 then .ok (a*b) else .error .panic

/-- `a - b` of type `u64`. -/
def minus (a b : ℕ) : Except Stop ℕ := if b ≤ a then .ok (a-b) else .error .panic

/-- `bytes[index]`. -/
def byteOf (bytes : List UInt8) (index : ℕ) : Except Stop UInt8 :=
  match bytes[index]? with
  | some byte => .ok byte
  | none => .error .panic

/-- `&bytes[start..stop]`. -/
def rangeOf (bytes : List UInt8) (start stop : ℕ) : Except Stop (List UInt8) :=
  if start ≤ stop ∧ stop≤bytes.length then .ok (slice bytes start (stop-start))
  else .error .panic

/-- `VirtAddr::new`. -/
def virtAddr (address : ℕ) : Except Stop ℕ :=
  if canonical address then .ok address else .error .panic

/-- `read_u16`, `read_u32` and `read_u64` by their width. -/
def readAt (bytes : List UInt8) (offset width : ℕ) : Except Stop ℕ := do
  let stop ← plus offset width
  if stop≤bytes.length then .ok (leValue (slice bytes offset width))
  else .error (.error "truncated ELF header")

/-- `parse_program_header`. -/
def programHeaderAt (bytes : List UInt8) (offset : ℕ) : Except Stop ProgramHeader :=
  if 2^64≤offset+phdrSize then .error (.error "program header offset overflow")
  else if bytes.length<offset+phdrSize then .error (.error "program header out of bounds")
  else do
    return ⟨← readAt bytes offset 4,← readAt bytes (← plus offset 4) 4,
      ← readAt bytes (← plus offset 8) 8,← readAt bytes (← plus offset 16) 8,
      ← readAt bytes (← plus offset 32) 8,← readAt bytes (← plus offset 40) 8⟩

/-- The loop of the first pass over the program headers. -/
def firstPassFrom (bytes : List UInt8) (ePhoff : ℕ) :
    List ℕ → List ProgramHeader → Except Stop (List ProgramHeader)
  | [],headers => .ok headers
  | index::rest,headers => do
    let shift ← times index phdrSize
    let offset ← plus ePhoff shift
    let header ← programHeaderAt bytes offset
    match ← (checkHeader bytes header).mapError Stop.error with
    | none => firstPassFrom bytes ePhoff rest headers
    | some kept => firstPassFrom bytes ePhoff rest (headers++[kept])

/-- The first pass of `load`. -/
def firstPass (bytes : List UInt8) : Except Stop (ℕ×List ProgramHeader) :=
  if bytes.length<ehdrSize then .error (.error "ELF: file too small for a header")
  else rangeOf bytes 0 4>>=fun magic =>
  if magic≠[0x7f,0x45,0x4c,0x46] then .error (.error "ELF: bad magic")
  else byteOf bytes 4>>=fun elfClass =>
  if elfClass≠2 then .error (.error "ELF: not a 64-bit object (ELFCLASS64 required)")
  else byteOf bytes 5>>=fun elfData =>
  if elfData≠1 then .error (.error "ELF: not little-endian (ELFDATA2LSB required)")
  else byteOf bytes 6>>=fun elfVersion =>
  if elfVersion≠1 then .error (.error "ELF: unsupported e_ident version")
  else readAt bytes 16 2>>=fun eType =>
  readAt bytes 18 2>>=fun eMachine =>
  readAt bytes 20 4>>=fun eVersion =>
  readAt bytes 24 8>>=fun eEntry =>
  readAt bytes 32 8>>=fun ePhoff =>
  readAt bytes 54 2>>=fun ePhentsize =>
  readAt bytes 56 2>>=fun ePhnum =>
  if eType≠2 then
    .error (.error "ELF: unsupported e_type (only ET_EXEC is supported -- no relocations/PIE)")
  else if eMachine≠62 then
    .error (.error "ELF: unsupported e_machine (only EM_X86_64 is supported)")
  else if eVersion≠1 then .error (.error "ELF: unsupported e_version")
  else if ePhentsize≠phdrSize then
    .error (.error
      "ELF: unsupported e_phentsize (only the standard 56-byte Elf64_Phdr is supported)")
  else if ePhnum=0 then .error (.error "ELF: no program headers (nothing to load)")
  else if 2^64≤ePhentsize*ePhnum then
    .error (.error "ELF: program header table size overflow")
  else if 2^64≤ePhoff+ePhentsize*ePhnum then
    .error (.error "ELF: program header table offset overflow")
  else if bytes.length<ePhoff+ePhentsize*ePhnum then
    .error (.error "ELF: program header table out of bounds")
  else if inUserRange eEntry 1=false then
    .error (.error "ELF: entry point outside the permitted user address range")
  else firstPassFrom bytes ePhoff (List.range ePhnum) []>>=fun headers =>
  if headers.isEmpty then .error (.error "ELF: no PT_LOAD segments (nothing to load)")
  else .ok (eEntry,headers)

/-- A part of `load`. The space and the memory keep what was done when it
stops. -/
abbrev Loader := ExceptT Stop (StateM (AddressSpace×Paging))

/-- A computation that does not touch the space. -/
def settle {α : Type} (step : Except Stop α) : Loader α := ExceptT.mk (pure step)

/-- An operation on the space. -/
def operate (op : SpaceOp) : Loader Unit := ExceptT.mk fun state =>
  let done := op.perform state.1 state.2
  (done.1.mapError .error,done.2)

/-- The loop over the pages of a segment. -/
def eachPage (op : ℕ → SpaceOp) (pageAddr pageEnd : ℕ) : Loader Unit :=
  if _hmore : pageAddr<pageEnd then do
    let address ← settle (virtAddr pageAddr)
    operate (op (address/4096))
    let _ ← settle (plus pageAddr 4096)
    eachPage op (pageAddr+4096) pageEnd
  else pure ()
termination_by pageEnd-pageAddr
decreasing_by omega

/-- The second pass of `load` for one segment. -/
def loadSegment (bytes : List UInt8) (header : ProgramHeader) : Loader Unit := do
  let segEnd ← settle (plus header.pVaddr header.pMemsz)
  let pageStart := header.pVaddr/4096*4096
  let rounded ← settle (plus segEnd 0xFFF)
  let pageEnd := rounded/4096*4096
  let finalFlags := segmentPageFlags header.pFlags
  eachPage (SpaceOp.map · stagingFlags) pageStart pageEnd
  let dest ← settle (virtAddr pageStart)
  let span ← settle (minus pageEnd pageStart)
  operate (.zero dest span)
  let fileEnd ← settle (plus header.pOffset header.pFilesz)
  let fileBytes ← settle (rangeOf bytes header.pOffset fileEnd)
  let place ← settle (virtAddr header.pVaddr)
  operate (.write place fileBytes)
  if finalFlags≠stagingFlags then eachPage (SpaceOp.protect · finalFlags) pageStart pageEnd
  else pure ()

/-- `load`: the entry point. -/
def load (bytes : List UInt8) : Loader ℕ := do
  let parsed ← settle (firstPass bytes)
  parsed.2.forM (loadSegment bytes)
  settle (virtAddr parsed.1)

/-- Run a part of `load`. -/
def runOn {α : Type} (loader : Loader α) (space : AddressSpace) (paging : Paging) :
    Except Stop α×AddressSpace×Paging := ExceptT.run loader (space,paging)

/-! ## The first pass -/

/-- `e_phoff` of a file. -/
def tableOffset (bytes : List UInt8) : ℕ := leValue (slice bytes 32 8)

/-- `e_phnum` of a file. -/
def tableCount (bytes : List UInt8) : ℕ := leValue (slice bytes 56 2)

/-- `e_entry` of a file. -/
def entryPoint (bytes : List UInt8) : ℕ := leValue (slice bytes 24 8)

variable {reason : String} {offset width entry : ℕ} {headers : List ProgramHeader}

section

variable {α β : Type} {bytes : List UInt8}

/-- A check with its text on both sides. -/
theorem check_eq {c d : Prop} [Decidable c] [Decidable d] (hiff : c ↔ d) {rest : Except Stop α}
    {next : PUnit → Except String α} (hrest : ¬d → rest=(next ⟨⟩).mapError .error) :
    (if c then .error (.error reason) else rest)=
      (if d then throw reason>>=next else next ⟨⟩).mapError Stop.error := by
  by_cases hd : d
  · rw [if_pos hd,if_pos (hiff.mpr hd)]
    rfl
  · rw [if_neg hd,if_neg (mt hiff.mp hd)]
    exact hrest hd

/-- A field that lies in the file is read on both sides. -/
theorem field_eq (hsmall : bytes.length<2^63) (hfit : offset+width≤bytes.length)
    {rest : ℕ → Except Stop α} {next : ℕ → Except String α}
    (hrest : rest (leValue (slice bytes offset width))=
      (next (leValue (slice bytes offset width))).mapError .error) :
    (readAt bytes offset width>>=rest)=(readField bytes offset width>>=next).mapError .error := by
  have hread : readAt bytes offset width=.ok (leValue (slice bytes offset width)) := by
    rw [readAt,plus,if_pos (by omega)]
    exact if_pos hfit
  rw [hread,readField,if_pos hfit]
  exact hrest

theorem mapError_bind (first : Except String β) (rest : β → Except String α) :
    (first>>=rest).mapError Stop.error=
      first.mapError .error>>=fun value => (rest value).mapError .error := by
  cases first <;> rfl

theorem byteOf_ok {index : ℕ} (hindex : index<bytes.length) :
    ∃ byte,bytes[index]?=some byte ∧ byteOf bytes index=.ok byte := by
  refine ⟨bytes[index],List.getElem?_eq_getElem hindex,?_⟩
  rw [byteOf,List.getElem?_eq_getElem hindex]

theorem programHeaderAt_eq (hfit : offset+phdrSize≤bytes.length) (hsmall : bytes.length<2^63) :
    programHeaderAt bytes offset=(parseProgramHeader bytes offset).mapError .error := by
  have hsize : phdrSize=56 := rfl
  have hplus : ∀ width≤56,plus offset width=.ok (offset+width) := fun width hwidth =>
    if_pos (by omega)
  unfold programHeaderAt parseProgramHeader
  refine check_eq Iff.rfl fun hoverflow => ?_
  refine check_eq Iff.rfl fun hbounds => ?_
  refine field_eq hsmall (by omega) ?_
  refine (bind_of_ok (hplus 4 (by omega)) _).trans ?_
  refine field_eq hsmall (by omega) ?_
  refine (bind_of_ok (hplus 8 (by omega)) _).trans ?_
  refine field_eq hsmall (by omega) ?_
  refine (bind_of_ok (hplus 16 (by omega)) _).trans ?_
  refine field_eq hsmall (by omega) ?_
  refine (bind_of_ok (hplus 32 (by omega)) _).trans ?_
  refine field_eq hsmall (by omega) ?_
  refine (bind_of_ok (hplus 40 (by omega)) _).trans ?_
  exact field_eq hsmall (by omega) rfl

/-- The loop reads the headers that the abstract first pass reads. -/
theorem firstPassFrom_eq {ePhoff : ℕ} (hsmall : bytes.length<2^63) {indices : List ℕ}
    (hindices : ∀ index∈indices,ePhoff+index*phdrSize+phdrSize≤bytes.length)
    (headers : List ProgramHeader) :
    firstPassFrom bytes ePhoff indices headers=
      ((indices.mapM fun index => do
          checkHeader bytes (← parseProgramHeader bytes (ePhoff+index*phdrSize)))>>=fun found =>
        pure (headers++found.reduceOption)).mapError .error := by
  induction indices generalizing headers with
  | nil =>
    have hnone : headers++([] : List (Option ProgramHeader)).reduceOption=headers :=
      List.append_nil _
    rw [firstPassFrom,List.mapM_nil,pure_bind,hnone]
    rfl
  | cons index rest ih =>
    obtain ⟨hindex,hrest⟩ := List.forall_mem_cons.mp hindices
    have htimes : times index phdrSize=.ok (index*phdrSize) := if_pos (by omega)
    have hplus : plus ePhoff (index*phdrSize)=.ok (ePhoff+index*phdrSize) := if_pos (by omega)
    have hcons : firstPassFrom bytes ePhoff (index::rest) headers=
        (programHeaderAt bytes (ePhoff+index*phdrSize)>>=fun header =>
          (checkHeader bytes header).mapError Stop.error>>=fun result =>
            firstPassFrom bytes ePhoff rest (headers++result.toList)) := by
      rw [firstPassFrom]
      refine (bind_of_ok htimes _).trans ((bind_of_ok hplus _).trans ?_)
      refine congrArg _ (funext fun header => congrArg _ (funext fun result => ?_))
      cases result with
      | none => rw [Option.toList_none,List.append_nil]
      | some kept => rfl
    rw [hcons,programHeaderAt_eq hindex hsmall,List.mapM_cons]
    simp only [bind_assoc,pure_bind,mapError_bind]
    refine congrArg _ (funext fun header => congrArg _ (funext fun result => ?_))
    rw [ih hrest,mapError_bind]
    refine congrArg _ (funext fun found => ?_)
    cases result with
    | none =>
      rw [Option.toList_none,List.append_nil]
      rfl
    | some kept =>
      rw [Option.toList_some,← List.append_cons]
      rfl

end

theorem firstPass_eq {bytes : List UInt8} (hsmall : bytes.length<2^63) :
    firstPass bytes=(parse bytes).mapError .error := by
  have hehdr : ehdrSize=64 := rfl
  have hphdr : phdrSize=56 := rfl
  unfold firstPass parse
  refine check_eq Iff.rfl fun hlong => ?_
  have hmagic : rangeOf bytes 0 4=.ok (slice bytes 0 4) := if_pos ⟨by omega,by omega⟩
  obtain ⟨elfClass,hclass,hclassByte⟩ := @byteOf_ok bytes 4 (by omega)
  obtain ⟨elfData,hdata,hdataByte⟩ := @byteOf_ok bytes 5 (by omega)
  obtain ⟨elfVersion,hversion,hversionByte⟩ := @byteOf_ok bytes 6 (by omega)
  rw [hmagic,hclassByte,hdataByte,hversionByte]
  refine check_eq Iff.rfl fun _ => ?_
  refine check_eq (by simp [hclass]) fun _ => ?_
  refine check_eq (by simp [hdata]) fun _ => ?_
  refine check_eq (by simp [hversion]) fun _ => ?_
  refine field_eq hsmall (by omega) ?_
  refine field_eq hsmall (by omega) ?_
  refine field_eq hsmall (by omega) ?_
  refine field_eq hsmall (by omega) ?_
  refine field_eq hsmall (by omega) ?_
  refine field_eq hsmall (by omega) ?_
  refine field_eq hsmall (by omega) ?_
  refine check_eq Iff.rfl fun _ => ?_
  refine check_eq Iff.rfl fun _ => ?_
  refine check_eq Iff.rfl fun _ => ?_
  refine check_eq Iff.rfl fun hentsize => ?_
  refine check_eq Iff.rfl fun _ => ?_
  refine check_eq Iff.rfl fun _ => ?_
  refine check_eq Iff.rfl fun _ => ?_
  refine check_eq Iff.rfl fun hbounds => ?_
  refine check_eq Iff.rfl fun _ => ?_
  have hindices : ∀ index∈List.range (tableCount bytes),
      tableOffset bytes+index*phdrSize+phdrSize≤bytes.length := by
    intro index hindex
    have hlast := List.mem_range.mp hindex
    rw [not_not] at hentsize
    rw [hentsize,hphdr] at hbounds
    rw [hphdr,tableOffset]
    rw [tableCount] at hlast
    omega
  have hloop := firstPassFrom_eq hsmall hindices []
  refine (congrArg (·>>=_) hloop).trans ?_
  dsimp only
  rw [mapError_bind,bind_assoc]
  refine Eq.trans ?_ (mapError_bind _ _).symm
  exact congrArg _ (funext fun found => check_eq Iff.rfl fun _ => rfl)

/-- What is known of a file that passes. -/
structure Parsed (bytes : List UInt8) (entry : ℕ) (headers : List ProgramHeader) : Prop where
  /-- The entry point lies in the user region. -/
  entry : inUserRange entry 1=true
  /-- Every program header was read and checked. -/
  headers : ∃ found,(List.range (tableCount bytes)).mapM (fun index => do
    checkHeader bytes (← parseProgramHeader bytes (tableOffset bytes+index*phdrSize)))=.ok found ∧
      headers=found.reduceOption

theorem check_ok {α : Type} {c : Prop} [Decidable c] {next : PUnit → Except String α} {value : α}
    (hrun : (if c then throw reason>>=next else next ⟨⟩)=.ok value) : ¬c ∧ next ⟨⟩=.ok value := by
  by_cases hc : c
  · rw [if_pos hc] at hrun
    cases hrun
  · rw [if_neg hc] at hrun
    exact ⟨hc,hrun⟩

theorem read_ok {α : Type} {bytes : List UInt8} {next : ℕ → Except String α} {value : α}
    (hrun : (readField bytes offset width>>=next)=.ok value) :
    next (leValue (slice bytes offset width))=.ok value := by
  obtain ⟨found,hfound,hnext⟩ := bind_ok_iff.mp hrun
  rw [readField] at hfound
  split at hfound
  · cases hfound
    exact hnext
  · cases hfound

theorem parsed_of_parse {bytes : List UInt8} (hparse : parse bytes=.ok (entry,headers)) :
    Parsed bytes entry headers ∧ entry=entryPoint bytes := by
  unfold parse at hparse
  obtain ⟨-,hparse⟩ := check_ok hparse
  obtain ⟨-,hparse⟩ := check_ok hparse
  obtain ⟨-,hparse⟩ := check_ok hparse
  obtain ⟨-,hparse⟩ := check_ok hparse
  obtain ⟨-,hparse⟩ := check_ok hparse
  have hparse := read_ok (read_ok (read_ok (read_ok (read_ok (read_ok (read_ok hparse))))))
  obtain ⟨-,hparse⟩ := check_ok hparse
  obtain ⟨-,hparse⟩ := check_ok hparse
  obtain ⟨-,hparse⟩ := check_ok hparse
  obtain ⟨-,hparse⟩ := check_ok hparse
  obtain ⟨-,hparse⟩ := check_ok hparse
  obtain ⟨-,hparse⟩ := check_ok hparse
  obtain ⟨-,hparse⟩ := check_ok hparse
  obtain ⟨-,hparse⟩ := check_ok hparse
  obtain ⟨hentry,hparse⟩ := check_ok hparse
  obtain ⟨found,hfound,hparse⟩ := bind_ok_iff.mp hparse
  obtain ⟨-,hparse⟩ := check_ok hparse
  cases hparse
  exact ⟨⟨by simpa using hentry,found,hfound,rfl⟩,rfl⟩

/-! ## The second pass -/

section

variable {α β : Type} {first : Loader α} {rest : α → Loader β} {space : AddressSpace}
  {paging : Paging}

/-- A part that succeeds hands its value, the space and the memory on; a part
that stops is the last one. -/
theorem runOn_bind : runOn (first>>=rest) space paging=
    ExceptT.bindCont rest (runOn first space paging).1 (runOn first space paging).2 := rfl

end

/-- A part of `load` performs these operations and does not panic. -/
def Does (loader : Loader Unit) (ops : List SpaceOp) : Prop :=
  ∀ space paging,runOn loader space paging=
    ((performAll ops space paging).1.mapError .error,(performAll ops space paging).2)

section

variable {first second : Loader Unit} {ops others : List SpaceOp}

theorem does_nothing : Does (pure ()) [] := fun _ _ => rfl

theorem does_operate (op : SpaceOp) : Does (operate op) [op] := by
  intro space paging
  cases hop : (op.perform space paging).1 with
  | error reason =>
    rw [performAll_cons_error hop]
    change ((op.perform space paging).1.mapError _,_)=_
    rw [hop]
  | ok _ =>
    rw [performAll_cons hop]
    change ((op.perform space paging).1.mapError _,_)=_
    rw [hop]
    rfl

theorem does_settle {α : Type} {step : Except Stop α} {value : α} {rest : α → Loader Unit}
    (hstep : step=.ok value) (hrest : Does (rest value) ops) : Does (settle step>>=rest) ops := by
  subst hstep
  exact hrest

/-- One part after another. -/
theorem Does.bind (hfirst : Does first ops) (hsecond : Does second others) :
    Does (first>>=fun _ => second) (ops++others) := by
  intro space paging
  have hrun := hfirst space paging
  cases hops : (performAll ops space paging).1 with
  | error reason =>
    rw [hops] at hrun
    rw [runOn_bind,hrun,performAll_append_error hops,hops]
    rfl
  | ok _ =>
    rw [hops] at hrun
    rw [runOn_bind,hrun,performAll_append hops]
    exact hsecond _ _

theorem virtAddr_ok {address : ℕ} (haddress : address<2^47) : virtAddr address=.ok address := by
  refine if_pos ?_
  rw [canonical,Bool.or_eq_true,decide_eq_true_eq]
  exact Or.inl haddress

/-- The loop over whole pages. -/
theorem does_eachPage (op : ℕ → SpaceOp) (first count : ℕ) (hend : (first+count)*4096 ≤ 2^47) :
    Does (eachPage op (first*4096) ((first+count)*4096)) ((List.range' first count).map op) := by
  induction count generalizing first with
  | zero =>
    rw [eachPage,dif_neg (by omega)]
    exact does_nothing
  | succ count ih =>
    have hcanonical : virtAddr (first*4096)=.ok (first*4096) := virtAddr_ok (by omega)
    have hnext : plus (first*4096) 4096=.ok (first*4096+4096) := if_pos (by omega)
    have hsame : first+(count+1)=first+1+count := by omega
    rw [hsame] at hend ⊢
    have hrest := ih (first+1) hend
    rw [eachPage,dif_pos (by omega),List.range'_succ,List.map_cons]
    refine does_settle hcanonical ?_
    rw [Nat.mul_div_cancel _ (by decide)]
    refine Does.bind (does_operate (op first)) (does_settle hnext ?_)
    rwa [Nat.add_one_mul] at hrest

variable {bytes : List UInt8} {header : ProgramHeader}

theorem does_loadSegment (hsmall : bytes.length<2^63) (hadmitted : Admitted bytes header) :
    Does (loadSegment bytes header) (segmentOps bytes header) := by
  have hfile := hadmitted.file
  have hlow := hadmitted.low
  have hhigh := hadmitted.high
  have hsizes := hadmitted.sizes
  have hregion : userSpaceBase+userSpaceSize+4096 ≤ 2^47 := by decide
  have hcount : (segmentPages header).length=
      (header.pVaddr+header.pMemsz+4095)/4096-header.pVaddr/4096 := List.length_range'
  have hend : (header.pVaddr+header.pMemsz+0xFFF)/4096*4096=
      (header.pVaddr/4096+(segmentPages header).length)*4096 := by
    rw [hcount]
    congr 1
    omega
  have hpages : ∀ op : ℕ → SpaceOp,Does (eachPage op (header.pVaddr/4096*4096)
      ((header.pVaddr+header.pMemsz+0xFFF)/4096*4096)) ((segmentPages header).map op) := by
    intro op
    have hlast : (header.pVaddr/4096+(segmentPages header).length)*4096 ≤ 2^47 := by
      rw [← hend]
      omega
    have hdoes := does_eachPage op _ _ hlast
    rw [hend]
    rw [hcount] at hdoes ⊢
    exact hdoes
  have hops : segmentOps bytes header=(segmentPages header).map (SpaceOp.map · stagingFlags)++
      ([.zero (header.pVaddr/4096*4096) ((segmentPages header).length*4096)]++
        ([.write header.pVaddr (slice bytes header.pOffset header.pFilesz)]++
          if segmentPageFlags header.pFlags≠stagingFlags then
            (segmentPages header).map (SpaceOp.protect · (segmentPageFlags header.pFlags))
          else [])) := by
    rw [segmentOps]
    simp only [List.append_assoc,List.cons_append,List.nil_append]
  have hspan : minus ((header.pVaddr+header.pMemsz+0xFFF)/4096*4096) (header.pVaddr/4096*4096)=
      .ok ((segmentPages header).length*4096) := by
    rw [hend,minus,if_pos (by omega)]
    congr 1
    omega
  have hrange : rangeOf bytes header.pOffset (header.pOffset+header.pFilesz)=
      .ok (slice bytes header.pOffset header.pFilesz) := by
    rw [rangeOf,if_pos ⟨by omega,hfile⟩,Nat.add_sub_cancel_left]
  rw [hops]
  refine does_settle (if_pos (by omega)) (does_settle (if_pos (by omega)) ?_)
  refine Does.bind (hpages _) (does_settle (virtAddr_ok (by omega)) (does_settle hspan ?_))
  refine Does.bind (does_operate _) (does_settle (if_pos (by omega)) (does_settle hrange ?_))
  refine does_settle (virtAddr_ok (by omega)) (Does.bind (does_operate _) ?_)
  split
  · exact hpages _
  · exact does_nothing

theorem does_forM (hsmall : bytes.length<2^63) (hadmitted : ∀ header∈headers,Admitted bytes header) :
    Does (headers.forM (loadSegment bytes)) (headers.flatMap (segmentOps bytes)) := by
  induction headers with
  | nil => exact does_nothing
  | cons header rest ih =>
    obtain ⟨hheader,hrest⟩ := List.forall_mem_cons.mp hadmitted
    exact Does.bind (does_loadSegment hsmall hheader) (ih hrest)

end

/-! ## Both passes -/

/-- The program header at a place of the table. -/
def headerAt (bytes : List UInt8) (index : ℕ) : Except String ProgramHeader :=
  parseProgramHeader bytes (tableOffset bytes+index*phdrSize)

/-- The `PT_LOAD` headers of a file. -/
def segments (bytes : List UInt8) : List ProgramHeader :=
  ((List.range (tableCount bytes)).filterMap fun index => (headerAt bytes index).toOption).filter
    fun header => header.pType=1

/-- A program header that the loader cannot accept: one for dynamic linking,
or a segment that is malformed, not in the file, not in the user region or
not readable. -/
def Refused (bytes : List UInt8) (header : ProgramHeader) : Prop :=
  header.pType=2 ∨ header.pType=3 ∨ header.pType=1 ∧ (header.pMemsz<header.pFilesz ∨
    bytes.length<header.pOffset+header.pFilesz ∨ header.pVaddr<userSpaceBase ∨
    userSpaceBase+userSpaceSize<header.pVaddr+header.pMemsz ∨ header.pFlags.testBit 2=false)

section

variable {bytes : List UInt8}

/-- The checks for one program header. -/
theorem checkHeader_ok {header : ProgramHeader} {result : Option ProgramHeader}
    (hcheck : checkHeader bytes header=.ok result) :
    ¬Refused bytes header ∧ result=(if header.pType=1 then some header else none) ∧
      (header.pType=1 → Admitted bytes header) := by
  rw [checkHeader] at hcheck
  by_cases hdynamic : header.pType=2 ∨ header.pType=3
  · rw [if_pos hdynamic] at hcheck
    cases hcheck
  rw [if_neg hdynamic] at hcheck
  by_cases hload : header.pType=1
  · rw [if_neg (not_not.mpr hload)] at hcheck
    iterate 5 (split at hcheck; · cases hcheck)
    rename_i hsizes hoverflow hfile hrange hread
    cases hcheck
    rw [Bool.not_eq_false,inUserRange] at hrange
    simp only [Bool.and_eq_true,decide_eq_true_eq] at hrange
    refine ⟨?_,(if_pos hload).symm,fun _ => ⟨by omega,by omega,hrange.1.2,hrange.2⟩⟩
    rintro (htype|htype|⟨-,hbad|hbad|hbad|hbad|hbad⟩)
    · exact hdynamic (.inl htype)
    · exact hdynamic (.inr htype)
    · exact hsizes hbad
    · exact hfile hbad
    · omega
    · omega
    · exact hread hbad
  · rw [if_pos hload] at hcheck
    cases hcheck
    refine ⟨?_,(if_neg hload).symm,fun htype => absurd htype hload⟩
    rintro (htype|htype|⟨htype,-⟩)
    · exact hdynamic (.inl htype)
    · exact hdynamic (.inr htype)
    · exact hload htype

/-- What the loop of the first pass finds at some places. -/
theorem checkHeaders_ok {indices : List ℕ} {found : List (Option ProgramHeader)}
    (hfound : indices.mapM (fun index => headerAt bytes index>>=checkHeader bytes)=.ok found) :
    found.reduceOption=(indices.filterMap fun index => (headerAt bytes index).toOption).filter
        (fun header => header.pType=1) ∧
      ∀ index∈indices,∃ header,headerAt bytes index=.ok header ∧ ¬Refused bytes header ∧
        (header.pType=1 → Admitted bytes header) := by
  induction indices generalizing found with
  | nil =>
    rw [List.mapM_nil] at hfound
    cases hfound
    exact ⟨rfl,by simp⟩
  | cons index rest ih =>
    obtain ⟨result,results,rfl,hindex,hrest⟩ := mapM_cons_ok hfound
    obtain ⟨header,hheader,hcheck⟩ := bind_ok_iff.mp hindex
    obtain ⟨hrefused,hresult,hadmitted⟩ := checkHeader_ok hcheck
    obtain ⟨hlater,hothers⟩ := ih hrest
    refine ⟨?_,List.forall_mem_cons.mpr ⟨⟨header,hheader,hrefused,hadmitted⟩,hothers⟩⟩
    rw [List.filterMap_cons,hheader]
    by_cases hload : header.pType=1
    · have hkept : (some header::results).reduceOption=header::results.reduceOption := rfl
      rw [hresult,if_pos hload,hkept,hlater]
      simp [Except.toOption,hload]
    · have hskipped : (none::results).reduceOption=results.reduceOption := rfl
      rw [hresult,if_neg hload,hskipped,hlater]
      simp [Except.toOption,hload]

/-- A file that passes: its segments, all of them admitted, and no header
that cannot be accepted. -/
theorem parse_ok (hparse : parse bytes=.ok (entry,headers)) :
    headers=segments bytes ∧ inUserRange entry 1=true ∧ (∀ header∈headers,Admitted bytes header) ∧
      ∀ index<tableCount bytes,∃ header,headerAt bytes index=.ok header ∧
        ¬Refused bytes header := by
  obtain ⟨⟨hentry,found,hfound,rfl⟩,-⟩ := parsed_of_parse hparse
  obtain ⟨hsegments,hheaders⟩ := checkHeaders_ok hfound
  refine ⟨hsegments,hentry,fun header hheader => ?_,fun index hindex => ?_⟩
  · rw [hsegments,List.mem_filter,List.mem_filterMap] at hheader
    obtain ⟨⟨index,hindex,hread⟩,hload⟩ := hheader
    obtain ⟨other,hother,-,hadmitted⟩ := hheaders index hindex
    rw [hother] at hread
    cases hread
    exact hadmitted (of_decide_eq_true hload)
  · obtain ⟨header,hheader,hrefused,-⟩ := hheaders index (List.mem_range.mpr hindex)
    exact ⟨header,hheader,hrefused⟩

/-- A file that does not pass changes nothing. -/
theorem load_refused (hsmall : bytes.length<2^63) (hparse : parse bytes=.error reason)
    (space : AddressSpace) (paging : Paging) :
    runOn (load bytes) space paging=(.error (.error reason),space,paging) := by
  have hfirst : firstPass bytes=.error (.error reason) := by
    rw [firstPass_eq hsmall,hparse]
    rfl
  rw [load,hfirst]
  rfl

/-- A file that passes is loaded by the second pass. -/
theorem load_parsed (hsmall : bytes.length<2^63) (hparse : parse bytes=.ok (entry,headers))
    (space : AddressSpace) (paging : Paging) : runOn (load bytes) space paging=
      (((performAll (headers.flatMap (segmentOps bytes)) space paging).1.mapError .error).map
        (fun _ => entry),(performAll (headers.flatMap (segmentOps bytes)) space paging).2) := by
  obtain ⟨-,hentry,hadmitted,-⟩ := parse_ok hparse
  have hfirst : firstPass bytes=.ok (entry,headers) := by
    rw [firstPass_eq hsmall,hparse]
    rfl
  have haddress : virtAddr entry=.ok entry := by
    have hregion : userSpaceBase+userSpaceSize<2^47 := by decide
    rw [inUserRange] at hentry
    simp only [Bool.and_eq_true,decide_eq_true_eq] at hentry
    exact virtAddr_ok (by omega)
  have hrun := does_forM hsmall hadmitted space paging
  have hload : runOn (load bytes) space paging=
      runOn (headers.forM (loadSegment bytes)>>=fun _ => settle (virtAddr entry)) space paging := by
    rw [load,hfirst]
    rfl
  rw [hload,haddress]
  cases hops : (performAll (headers.flatMap (segmentOps bytes)) space paging).1 with
  | error reason =>
    rw [hops] at hrun
    rw [runOn_bind,hrun]
    rfl
  | ok _ =>
    rw [hops] at hrun
    rw [runOn_bind,hrun]
    rfl

end

/-- Whether both passes succeed. -/
def loads (bytes : List UInt8) (space : AddressSpace) (paging : Paging) : Bool :=
  (parse bytes).toOption.any fun parsed =>
    (performAll (parsed.2.flatMap (segmentOps bytes)) space paging).1.isOk

theorem load_of_loads {bytes : List UInt8} (hsmall : bytes.length<2^63) {space : AddressSpace}
    {paging : Paging} (hloads : loads bytes space paging=true) :
    ∃ entry,(runOn (load bytes) space paging).1=.ok entry := by
  rw [loads] at hloads
  cases hparse : parse bytes with
  | error reason =>
    rw [hparse] at hloads
    cases hloads
  | ok parsed =>
    rw [hparse] at hloads
    refine ⟨parsed.1,?_⟩
    rw [load_parsed hsmall hparse]
    have hops : (performAll (parsed.2.flatMap (segmentOps bytes)) space paging).1.isOk=true := hloads
    cases hrun : (performAll (parsed.2.flatMap (segmentOps bytes)) space paging).1 with
    | error reason =>
      rw [hrun] at hops
      cases hops
    | ok _ => rfl

/-- A file that is loaded into a fresh address space: its entry point is the
one of its header, and its segments are in memory. -/
theorem loaded_load {bytes : List UInt8} (hsmall : bytes.length<2^63)
    {allocator later : BootInfoFrameAllocator} {rest : Multiset ℕ}
    (hbacks : Backs books allocator rest) {root : AddressSpace}
    (hnew : newAddressSpace allocator=.ok (root,later)) (ram : Ram) {entry : ℕ}
    (hload : (runOn (load bytes) root ⟨later,ram⟩).1=.ok entry) :
    entry=entryPoint bytes ∧ (∀ header∈segments bytes,Admitted bytes header) ∧
      Loaded bytes (segments bytes) (runOn (load bytes) root ⟨later,ram⟩).2.1
        (runOn (load bytes) root ⟨later,ram⟩).2.2.ram := by
  obtain ⟨hroot,htables⟩ := ProcessMemory.tight_newAddressSpace hnew
  have howned : Backs books later (root.ownedFrames+rest) :=
    moves_newAddressSpace hnew rest (by rwa [zero_add])
  cases hparse : parse bytes with
  | error reason =>
    rw [load_refused hsmall hparse] at hload
    cases hload
  | ok parsed =>
    obtain ⟨found,headers⟩ := parsed
    obtain ⟨hsegments,-,hadmitted,-⟩ := parse_ok hparse
    rw [load_parsed hsmall hparse] at hload ⊢
    rw [← hsegments]
    cases hops : (performAll (headers.flatMap (segmentOps bytes)) root ⟨later,ram⟩).1 with
    | error reason =>
      rw [hops] at hload
      cases hload
    | ok _ =>
      rw [hops] at hload
      cases hload
      have hempty : Loaded bytes [] root ram := loaded_nil fun page => by
        rw [htables]
        rfl
      exact ⟨(parsed_of_parse hparse).2,hadmitted,
        @loaded_performAll bytes headers [] root ⟨later,ram⟩ rest hroot howned hadmitted hempty hops⟩

/-- The first address space of the small machine. -/
def firstSpace : AddressSpace := ⟨0x100000,[0x100000],Tables.empty⟩

/-- The small machine after it. -/
def afterFirst : Paging := ⟨⟨[⟨0x100000,0x140000,.usable⟩],1,[],1⟩,fun _ => 0⟩

theorem newAddressSpace_first :
    newAddressSpace smallPaging.allocator=.ok (firstSpace,afterFirst.allocator) := rfl

/-- The small executable with a note as its second program header, the bytes
of which would neither be in the file nor in the user region. -/
def noteElf : List UInt8 :=
  tinyElf.take 56++leBytes 2 2++tinyElf.drop 58++leBytes 4 4++leBytes 4 4++leBytes 8 (2^40)++
    leBytes 8 0++leBytes 8 0++leBytes 8 16++leBytes 8 8++leBytes 8 4

/-- The page of an address is present and Ring 3 can use it. -/
def Enterable (space : AddressSpace) (address : ℕ) : Prop :=
  ∃ leaf,space.tables.leaf (address/4096)=some leaf ∧ leaf.flags.present=true ∧
    leaf.flags.userAccessible=true

/-- The entry point lies on a page of a segment. -/
def EntryInside (bytes : List UInt8) : Prop :=
  ∃ header∈segments bytes,entryPoint bytes/4096∈segmentPages header

instance (bytes : List UInt8) : Decidable (EntryInside bytes) :=
  inferInstanceAs (Decidable (∃ header∈segments bytes,entryPoint bytes/4096∈segmentPages header))

/-- The loaded segments are what Ring 3 can use of the space. -/
theorem enterable_iff {bytes : List UInt8} {space : AddressSpace} {ram : Ram}
    (hloaded : Loaded bytes headers space ram) (address : ℕ) :
    Enterable space address ↔ ∃ header∈headers,address/4096∈segmentPages header := by
  constructor
  · rintro ⟨leaf,hleaf,-⟩
    exact (hloaded.pages _).mp (by simp [hleaf])
  · rintro ⟨header,hheader,hpage⟩
    obtain ⟨frame,hleaf⟩ := (hloaded.filled header hheader).leaf _ hpage
    exact ⟨_,hleaf,rfl,rfl⟩

/-- An executable that is loaded can be entered when its entry point lies on
a page of a segment, and only then. -/
theorem entry_enterable_iff {bytes : List UInt8} (hsmall : bytes.length<2^63)
    {allocator later : BootInfoFrameAllocator} {rest : Multiset ℕ}
    (hbacks : Backs books allocator rest) {root : AddressSpace}
    (hnew : newAddressSpace allocator=.ok (root,later)) (ram : Ram) {entry : ℕ}
    (hload : (runOn (load bytes) root ⟨later,ram⟩).1=.ok entry) :
    Enterable (runOn (load bytes) root ⟨later,ram⟩).2.1 entry ↔ EntryInside bytes := by
  obtain ⟨hentry,-,hloaded⟩ := loaded_load hsmall hbacks hnew ram hload
  rw [enterable_iff hloaded,hentry,EntryInside]

/-- The small executable is entered on its only page. -/
theorem entry_enterable_tinyElf :
    EntryInside tinyElf ∧ ∃ entry,(runOn (load tinyElf) firstSpace afterFirst).1=.ok entry ∧
      Enterable (runOn (load tinyElf) firstSpace afterFirst).2.1 entry := by
  have hsmall : tinyElf.length<2^63 := by decide +kernel
  have hinside : EntryInside tinyElf := by decide +kernel
  have hloads : loads tinyElf firstSpace afterFirst=true := by decide +kernel
  obtain ⟨entry,hentry⟩ := load_of_loads hsmall hloads
  have hiff := @entry_enterable_iff tinyElf hsmall _ _ _ backs_smallPaging _ newAddressSpace_first
    afterFirst.ram entry
  have hpaging : Paging.mk afterFirst.allocator afterFirst.ram=afterFirst := rfl
  rw [hpaging] at hiff
  exact ⟨hinside,entry,hentry,(hiff hentry).mpr hinside⟩

/-- The small executable with an entry point 64 KiB above its only page. -/
def strayElf : List UInt8 :=
  tinyElf.take 24++leBytes 8 (userSpaceBase+0x10000)++tinyElf.drop 32

/-- The entry point is only checked against the user region: this file is
loaded although nothing is mapped where it is entered. -/
theorem stray_entry_accepted :
    newAddressSpace smallPaging.allocator=.ok (firstSpace,afterFirst.allocator) ∧
      ∃ entry,(runOn (load strayElf) firstSpace afterFirst).1=.ok entry ∧
        (runOn (load strayElf) firstSpace afterFirst).2.1.tables.leaf (entry/4096)=none := by
  have hsmall : strayElf.length<2^63 := by decide +kernel
  have hloads : loads strayElf firstSpace afterFirst=true := by decide +kernel
  obtain ⟨entry,hload⟩ := load_of_loads hsmall hloads
  have hexact := @loaded_load strayElf hsmall _ _ _ backs_smallPaging _ newAddressSpace_first
    afterFirst.ram entry
  have hpaging : Paging.mk afterFirst.allocator afterFirst.ram=afterFirst := rfl
  rw [hpaging] at hexact
  obtain ⟨hentry,-,hloaded⟩ := hexact hload
  refine ⟨newAddressSpace_first,entry,hload,?_⟩
  by_contra hmapped
  have hinside : EntryInside strayElf := by
    rw [EntryInside,← hentry]
    exact (hloaded.pages _).mp hmapped
  exact absurd hinside (by decide +kernel)

end TuwaiqOS.ElfLoad
