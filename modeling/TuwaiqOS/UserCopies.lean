import TuwaiqOS.FrameOwnership
import TuwaiqOS.UserMemory

/-!
# Checked copies to and from user memory

`validate_user_range` looks at one address per page, and accepts a range
exactly if every byte of it is mapped for the user. A copy to user memory
goes page by page: each part is translated and stored before the next one is
looked at. Because the whole range was checked, no later part can fail, so a
copy stores everything or nothing, and what was stored is read back.
-/

namespace TuwaiqOS.UserCopies

open FallibleSteps ResourceLedger FrameAllocator PageTables AddressSpaces ExclusiveSpaces
open FrameOwnership StagedSpaces UserMemory
open BootInfoFrameAllocator (books)

/-! ## Writes, part by part -/

/-- The loop of `for_each_mapped_chunk` when it copies data: a part is stored
before the next one is translated. -/
def writeChunks (space : AddressSpace) : List (ℕ×ℕ) → List UInt8 → Ram → Except String Unit×Ram
  | [],_,ram => (.ok (),ram)
  | part::rest,data,ram =>
    match mappedPart space part with
    | .error reason => (.error reason,ram)
    | .ok (physical,len) =>
      writeChunks space rest (data.drop len) (ram.store physical (data.take len))

/-- `write_bytes_in_address_space`, with memory as it is left behind. -/
def writeInPlace (space : AddressSpace) (dest : ℕ) (data : List UInt8) (ram : Ram) :
    Except String Unit×Ram :=
  match validateUserRange space dest data.length true with
  | .error reason => (.error reason,ram)
  | .ok () => writeChunks space (chunks dest data.length) data ram

section

variable {space : AddressSpace}

/-- Without a part that fails the loop stores all parts. -/
theorem writeChunks_ok {parts places : List (ℕ×ℕ)}
    (hparts : parts.mapM (mappedPart space)=.ok places) (data : List UInt8) (ram : Ram) :
    writeChunks space parts data ram=(.ok (),(places.foldl (fun (state : Ram×List UInt8) part =>
        (state.1.store part.1 (state.2.take part.2),state.2.drop part.2)) (ram,data)).1) := by
  induction parts generalizing places data ram with
  | nil =>
    cases hparts
    rfl
  | cons part rest ih =>
    obtain ⟨first,later,rfl,hfirst,hrest⟩ := mapM_cons_ok hparts
    rw [writeChunks,hfirst]
    exact ih hrest _ _

/-- A write stores everything, or fails with memory as it was. -/
theorem writeInPlace_cases (space : AddressSpace) (dest : ℕ) (data : List UInt8) (ram : Ram) :
    (∃ reason,writeInPlace space dest data ram=(.error reason,ram) ∧
      validateUserRange space dest data.length true=.error reason) ∨
    ∃ later,writeInPlace space dest data ram=(.ok (),later) ∧
      writeBytesInAddressSpace space dest data ram=.ok later := by
  rw [writeInPlace]
  cases hvalid : validateUserRange space dest data.length true with
  | error reason => exact Or.inl ⟨reason,rfl,rfl⟩
  | ok _ =>
    obtain ⟨later,hwrite⟩ := (writeBytesInAddressSpace_isOk ram).mpr hvalid
    obtain ⟨places,hplaces,hlater⟩ := bind_ok_iff.mp hwrite
    rw [forEachMappedChunk_eq] at hplaces
    obtain ⟨_,-,hplaces⟩ := bind_ok_iff.mp hplaces
    refine Or.inr ⟨later,?_,hwrite⟩
    cases hlater
    exact writeChunks_ok hplaces data ram

end

/-! ## Reads -/

section

variable {space : AddressSpace} {ram : Ram}

/-- One turn of the loop of `read_bytes_from_address_space_into`. -/
def readPart (space : AddressSpace) (ram : Ram) (part : ℕ×ℕ) : Except String (List UInt8) :=
  match translateInAddressSpace space part.1 with
  | none => .error "source page not mapped"
  | some (physical,flags) =>
    if flags.userAccessible=false then .error "source page not user-accessible"
    else .ok ((List.range part.2).map fun offset => ram (physical+offset))

theorem readBytesFromAddressSpaceInto_eq (space : AddressSpace) (src len : ℕ) (ram : Ram) :
    readBytesFromAddressSpaceInto space src len ram=
      (validateUserRange space src len false>>=fun _ =>
        (chunks src len).mapM (readPart space ram)>>=fun parts => pure parts.flatten) := rfl

/-- The bytes of one part. -/
theorem readPart_eq {src part : ℕ} {data : List UInt8}
    (hcheck : checkUserPage space false src=.ok ()) (hpage : src%4096+part ≤ 4096)
    (hpart : part ≤ data.length)
    (hdata : ∀ offset byte,data[offset]?=some byte → byteAt space ram (src+offset)=some byte) :
    readPart space ram (src,part)=.ok (data.take part) := by
  obtain ⟨leaf,hleaf,-,huser,-⟩ := checkUserPage_ok_iff.mp hcheck
  have htranslate : translateInAddressSpace space src=some (leaf.frame+src%4096,leaf.flags) :=
    translate_some_iff.mpr ⟨leaf,hleaf,rfl,rfl⟩
  have hbytes : (List.range part).map (fun offset => ram (leaf.frame+src%4096+offset))=
      data.take part := by
    refine List.ext_getElem? fun offset => ?_
    by_cases hoffset : offset<part
    · have hplace := translate_add htranslate (show src%4096+offset<4096 by omega)
      obtain ⟨byte,hbyte⟩ : ∃ byte,data[offset]?=some byte :=
        ⟨_,List.getElem?_eq_getElem (by omega)⟩
      have hseen := hdata offset byte hbyte
      rw [byteAt,hplace,Option.map_some] at hseen
      rw [List.getElem?_map,List.getElem?_range hoffset,List.getElem?_take_of_lt hoffset,hbyte]
      exact hseen
    · rw [List.getElem?_eq_none (by rw [List.length_map,List.length_range]; omega),
        List.getElem?_eq_none (by rw [List.length_take]; omega)]
  rw [readPart]
  dsimp only
  rw [htranslate]
  dsimp only
  rw [huser,if_neg (by decide),hbytes]

/-- Reading part by part gives the bytes that the process sees. -/
theorem readParts_eq {fuel src : ℕ} {data : List UInt8}
    (hfuel : data.length=0 ∨ src%4096+data.length ≤ fuel*4096)
    (hcheck : ∀ offset<data.length,checkUserPage space false (src+offset)=.ok ())
    (hdata : ∀ offset byte,data[offset]?=some byte → byteAt space ram (src+offset)=some byte) :
    ∃ parts,(chunksFrom fuel src data.length).mapM (readPart space ram)=.ok parts ∧
      parts.flatten=data := by
  induction fuel generalizing src data with
  | zero =>
    have hempty : data=[] := List.length_eq_zero_iff.mp (by omega)
    subst hempty
    exact ⟨[],rfl,rfl⟩
  | succ fuel ih =>
    rcases Nat.eq_zero_or_pos data.length with hzero|hlen
    · have hempty : data=[] := List.length_eq_zero_iff.mp hzero
      subst hempty
      exact ⟨[],rfl,rfl⟩
    · obtain ⟨part,hpos,hle,hpage,hend,hchunks⟩ := @chunksFrom_cons fuel src data.length hlen
      have hfirst : readPart space ram (src,part)=.ok (data.take part) :=
        readPart_eq (hcheck 0 hlen) hpage hle hdata
      obtain ⟨rest,hrest,hjoin⟩ := @ih (src+part) (data.drop part)
        (by rw [List.length_drop]; omega)
        (fun offset hoffset => by
          rw [List.length_drop] at hoffset
          rw [Nat.add_assoc]
          exact hcheck (part+offset) (by omega))
        (fun offset byte hbyte => by
          rw [List.getElem?_drop] at hbyte
          rw [Nat.add_assoc]
          exact hdata (part+offset) byte hbyte)
      rw [List.length_drop] at hrest
      refine ⟨data.take part::rest,?_,?_⟩
      · rw [hchunks,List.mapM_cons,hfirst,hrest]
        rfl
      · rw [List.flatten_cons,hjoin,List.take_append_drop]

/-- A range that can be written can be read. -/
theorem validateUserRange_readable {start len : ℕ}
    (hvalid : validateUserRange space start len true=.ok ()) :
    validateUserRange space start len false=.ok () := by
  rw [validateUserRange_iff] at hvalid ⊢
  obtain ⟨hlow,hhigh,hend,hall⟩ := hvalid
  refine ⟨hlow,hhigh,hend,fun offset hoffset => ?_⟩
  obtain ⟨leaf,hleaf,hpresent,huser,-⟩ := checkUserPage_ok_iff.mp (hall offset hoffset)
  exact checkUserPage_ok_iff.mpr ⟨leaf,hleaf,hpresent,huser,by simp⟩

/-- A read gives the bytes that the process sees. -/
theorem read_of_bytes {src : ℕ} {data : List UInt8}
    (hvalid : validateUserRange space src data.length false=.ok ())
    (hdata : ∀ offset byte,data[offset]?=some byte → byteAt space ram (src+offset)=some byte) :
    readBytesFromAddressSpaceInto space src data.length ram=.ok data := by
  have hall := (validateUserRange_iff.mp hvalid).2.2.2
  obtain ⟨parts,hparts,hjoin⟩ := readParts_eq (chunks_fuel src data.length) hall hdata
  rw [readBytesFromAddressSpaceInto_eq,hvalid]
  change ((chunks src data.length).mapM (readPart space ram)>>=_)=_
  rw [chunks,hparts,← hjoin]
  rfl

end

/-! ## Spaces that the kernel builds -/

/-- Address spaces that come from any sequence of operations on them, changes
of flags included, next to what the kernel reserved. -/
inductive Live (reserved : Multiset ℕ) : Machine → Prop where
  /-- No space yet. -/
  | start {allocator : BootInfoFrameAllocator} (hbacks : Backs books allocator reserved) :
    Live reserved ⟨[],allocator⟩
  /-- One more operation. -/
  | operation {machine : Machine} (operation : Operation) (hpast : Live reserved machine) :
    Live reserved (perform machine operation)
  /-- `update_flags_in_address_space`. -/
  | protect {machine : Machine} {space later : AddressSpace} {index page : ℕ} {flags : Flags}
    (hpast : Live reserved machine) (hspace : machine.spaces[index]? = some space)
    (hupdate : updateFlagsInAddressSpace space page flags=.ok later) :
    Live reserved {machine with spaces := machine.spaces.set index later}

variable {reserved : Multiset ℕ} {machine : Machine} {space : AddressSpace}

/-- Every operation keeps order among the spaces. -/
theorem Live.orderly (hlive : Live reserved machine) : Orderly reserved machine := by
  induction hlive with
  | start hbacks =>
    refine ⟨?_,by simp,by simp⟩
    rw [total_nil,add_zero]
    exact hbacks
  | operation operation _ ih => exact orderly_perform ih operation
  | @protect machine space later index page flags _ hspace hupdate ih =>
    have hlater := updateFlagsInAddressSpace_ok hupdate
    have hplace := space.tables.frameAt_protect flags [page]
    have hchange : ({machine with spaces := machine.spaces.set index later} : Machine)=
        machine.change index fun old allocator =>
          ((),{old with tables := old.tables.protect flags [page]},allocator) := by
      rw [Machine.change,hspace,hlater]
    rw [hchange]
    refine orderly_change ih index (fun old allocator => Moves.refl _ _ _) ?_
    intro old rest hexclusive hclosed _
    have hsame := old.tables.frameAt_protect flags [page]
    exact ⟨hexclusive.congr rfl rfl hsame,hclosed.congr hsame⟩

/-- A live space has no address twice. -/
theorem Live.unshared (hlive : Live reserved machine) (hspace : space∈machine.spaces) :
    Unshared space := by
  obtain ⟨index,hget⟩ := List.mem_iff_getElem?.mp hspace
  obtain ⟨rest,hbacks⟩ := hlive.orderly.backs_space hget
  exact unshared_of_backs (hlive.orderly.exclusive space hspace) hbacks

/-! ## Exactness -/

/-- An address is mapped, present and open to the user, for writes if
asked. -/
def UserByte (space : AddressSpace) (writable : Bool) (address : ℕ) : Prop :=
  ∃ physical flags,translateInAddressSpace space address=some (physical,flags) ∧
    flags.present=true ∧ flags.userAccessible=true ∧ (writable=true → flags.writable=true)

theorem checkUserPage_iff_userByte {writable : Bool} {address : ℕ} :
    checkUserPage space writable address=.ok () ↔ UserByte space writable address := by
  rw [checkUserPage_ok_iff,UserByte]
  constructor
  · rintro ⟨leaf,hleaf,hchecks⟩
    exact ⟨_,leaf.flags,translate_some_iff.mpr ⟨leaf,hleaf,rfl,rfl⟩,hchecks⟩
  · rintro ⟨physical,flags,htranslate,hchecks⟩
    obtain ⟨leaf,hleaf,-,rfl⟩ := translate_some_iff.mp htranslate
    exact ⟨leaf,hleaf,hchecks⟩

/-- User ranges are checked exactly, and copies store all or nothing. In every
address space a range is accepted exactly if it begins in the user region,
neither overflows nor leaves it, and every byte of it is mapped for the user.
In every space that the kernel can build, a write fails with memory as it was,
or stores the data in its range and nothing elsewhere, and a read of the range
gives the data back. -/
theorem user_copies_exact :
    (∀ (space : AddressSpace) (start len : ℕ) (writable : Bool),
      validateUserRange space start len writable=.ok () ↔
        userSpaceBase ≤ start ∧ start<userSpaceBase+userSpaceSize ∧ start+len<2^64 ∧
          start+len ≤ userSpaceBase+userSpaceSize ∧
          ∀ address,start ≤ address → address<start+len → UserByte space writable address) ∧
    ∀ (reserved : Multiset ℕ) (machine : Machine) (space : AddressSpace),Live reserved machine →
      space∈machine.spaces → ∀ (dest : ℕ) (data : List UInt8) (ram : Ram),
        (∃ reason,writeInPlace space dest data ram=(.error reason,ram)) ∨
        ∃ later,writeInPlace space dest data ram=(.ok (),later) ∧
          Written space dest data ram later ∧
          readBytesFromAddressSpaceInto space dest data.length later=.ok data := by
  refine ⟨fun space start len writable => ?_,
    fun reserved machine space hlive hspace dest data ram => ?_⟩
  · have hregion : userSpaceBase+userSpaceSize<2^64 := by decide
    rw [validateUserRange_iff]
    constructor
    · rintro ⟨hlow,hhigh,hend,hall⟩
      refine ⟨hlow,hhigh,by omega,hend,fun address hfirst hlast => ?_⟩
      have hcheck := hall (address-start) (by omega)
      rw [Nat.add_sub_cancel' hfirst] at hcheck
      exact checkUserPage_iff_userByte.mp hcheck
    · rintro ⟨hlow,hhigh,-,hend,hall⟩
      exact ⟨hlow,hhigh,hend,fun offset hoffset =>
        checkUserPage_iff_userByte.mpr (hall (start+offset) (by omega) (by omega))⟩
  · rcases writeInPlace_cases space dest data ram with ⟨reason,hfail,-⟩|⟨later,hdone,hwrite⟩
    · exact Or.inl ⟨reason,hfail⟩
    · have hvalid := (writeBytesInAddressSpace_isOk ram).mp ⟨later,hwrite⟩
      have hwritten := writeBytesInAddressSpace_ok (hlive.unshared hspace) hwrite
      exact Or.inr ⟨later,hdone,hwritten,
        read_of_bytes (validateUserRange_readable hvalid) hwritten.inside⟩

/-- Two bytes are written across the boundary of two pages and read back. -/
theorem user_copies_exact_two_pages :
    ∃ machine space later,Live 0 machine ∧ space∈machine.spaces ∧
      writeInPlace space (userSpaceBase+0xfff) [1,2] (fun _ => 0)=(.ok (),later) ∧
      readBytesFromAddressSpaceInto space (userSpaceBase+0xfff) 2 later=.ok [1,2] := by
  let allocator : BootInfoFrameAllocator := ⟨[⟨0x100000,0x200000,.usable⟩],0,[],0⟩
  let flags : Flags := ⟨true,true,true,true⟩
  let machine : Machine := perform (perform (perform ⟨[],allocator⟩ .newAddressSpace)
    (.map 0 (userSpaceBase/4096) flags)) (.map 0 (userSpaceBase/4096+1) flags)
  have hlive : Live 0 machine :=
    .operation _ (.operation _ (.operation _ (.start ⟨List.pairwise_singleton _ _,rfl⟩)))
  have hrun : (machine.spaces.head?.any fun space =>
      (writeInPlace space (userSpaceBase+0xfff) [1,2] (fun _ => 0)).1.isOk)=true := by
    decide +kernel
  obtain ⟨space,hspace,hok⟩ := (Option.any_eq_true _ _).mp hrun
  have hmem := List.mem_of_head? hspace
  rcases user_copies_exact.2 0 machine space hlive hmem (userSpaceBase+0xfff) [1,2] fun _ => 0
    with ⟨reason,hfail⟩|⟨later,hdone,-,hread⟩
  · rw [hfail] at hok
    cases hok
  · exact ⟨machine,space,later,hlive,hmem,hdone,hread⟩

end TuwaiqOS.UserCopies
