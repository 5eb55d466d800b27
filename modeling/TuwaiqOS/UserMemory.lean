import TuwaiqOS.StagedSpaces

/-!
# Bytes of user memory

A process sees physical memory through its address space. When no two
addresses lead to the same physical byte, a copy to user memory changes
exactly the bytes of its range, although it is cut at page boundaries and
goes through physical addresses. A copy checks its whole range before the
first byte, so a copy that fails has changed nothing.
-/

namespace TuwaiqOS.UserMemory

open FallibleSteps ResourceLedger FrameAllocator PageTables AddressSpaces ExclusiveSpaces
open BootInfoFrameAllocator (books)

/-! ## Copies of the current process -/

/-- `read_bytes_from_address_space_into`. -/
def readBytesFromAddressSpaceInto (space : AddressSpace) (src len : ℕ) (ram : Ram) :
    Except String (List UInt8) := do
  validateUserRange space src len false
  let parts ← (chunks src len).mapM fun part =>
    match translateInAddressSpace space part.1 with
    | none => .error "source page not mapped"
    | some (physical,flags) =>
      if flags.userAccessible=false then .error "source page not user-accessible"
      else .ok ((List.range part.2).map fun offset => ram (physical+offset))
  return parts.flatten

/-- `copy_from_current_user`, with enough memory for the copy. -/
def copyFromCurrentUser (space : Option AddressSpace) (address len : ℕ) (ram : Ram) :
    Option (List UInt8) := do
  if canonical address=false then none
  else (readBytesFromAddressSpaceInto (← space) address len ram).toOption

/-- `copy_to_current_user`: the new memory if the copy succeeds. -/
def copyToCurrentUser (space : Option AddressSpace) (address : ℕ) (data : List UInt8) (ram : Ram) :
    Option Ram := do
  if canonical address=false then none
  else (writeBytesInAddressSpace (← space) address data ram).toOption

/-- `validate_current_user_range`. -/
def validateCurrentUserRange (space : Option AddressSpace) (address len : ℕ) (writable : Bool) :
    Bool :=
  match space with
  | none => false
  | some space => (validateUserRange space address len writable).isOk

/-! ## What a process sees -/

/-- The byte that a process sees at an address. -/
def byteAt (space : AddressSpace) (ram : Ram) (address : ℕ) : Option UInt8 :=
  (translateInAddressSpace space address).map fun place => ram place.1

/-- No two addresses lead to the same physical byte. -/
def Unshared (space : AddressSpace) : Prop :=
  ∀ first second physical flags others,
    translateInAddressSpace space first=some (physical,flags) →
    translateInAddressSpace space second=some (physical,others) → first=second

variable {address physical fuel len dest : ℕ} {flags : Flags} {part : ℕ×ℕ} {data : List UInt8}
  {ram later : Ram}

section

variable {space : AddressSpace}

theorem translate_some_iff : translateInAddressSpace space address=some (physical,flags) ↔
      ∃ leaf,space.tables.leaf (address/4096)=some leaf ∧ physical=leaf.frame+address%4096 ∧
        flags=leaf.flags := by
  rw [translateInAddressSpace,Option.map_eq_some_iff]
  constructor
  · rintro ⟨leaf,hleaf,hsame⟩
    cases hsame
    exact ⟨leaf,hleaf,rfl,rfl⟩
  · rintro ⟨leaf,hleaf,rfl,rfl⟩
    exact ⟨leaf,hleaf,rfl⟩

/-- Frames that are held are aligned and in one place each. -/
theorem unshared_of_backs {allocator : BootInfoFrameAllocator} {rest : Multiset ℕ}
    (hspace : Exclusive space) (hbacks : Backs books allocator (space.ownedFrames+rest)) :
    Unshared space := by
  intro first second physical flags others hfirst hsecond
  obtain ⟨leaf,hleaf,hphysical,-⟩ := translate_some_iff.mp hfirst
  obtain ⟨other,hother,hsame,-⟩ := translate_some_iff.mp hsecond
  have haligned : ∀ page found,space.tables.leaf page=some found → found.frame%4096=0 := by
    intro page found hfound
    have howned := hspace.owned (.inr page) found.frame (by rw [Tables.frameAt,hfound]; rfl)
    exact BootInfoFrameAllocator.aligned_of_backs hbacks
      (Multiset.mem_add.mpr (Or.inl (Multiset.mem_coe.mpr howned)))
  have hone := haligned _ _ hleaf
  have htwo := haligned _ _ hother
  -- both frames are aligned, so a common byte makes frames and offsets equal
  have hframe : leaf.frame=other.frame := by omega
  have hplace := hspace.once (.inr (first/4096)) (.inr (second/4096)) leaf.frame
    (by rw [Tables.frameAt,hleaf]; rfl) (by rw [Tables.frameAt,hother,hframe]; rfl)
  have hpage : first/4096=second/4096 := Sum.inr.inj hplace
  omega

/-- Within a page, addresses and physical addresses advance together. -/
theorem translate_add {offset : ℕ}
    (htranslate : translateInAddressSpace space address=some (physical,flags))
    (hoffset : address%4096+offset<4096) :
    translateInAddressSpace space (address+offset)=some (physical+offset,flags) := by
  obtain ⟨leaf,hleaf,rfl,rfl⟩ := translate_some_iff.mp htranslate
  refine translate_some_iff.mpr ⟨leaf,?_,by omega,rfl⟩
  rwa [show (address+offset)/4096=address/4096 by omega]

/-! ## Parts of a range -/

/-- The first part of a range ends with its page or with the range. -/
theorem chunksFrom_cons {fuel address len : ℕ} (hlen : 0<len) :
    ∃ part,0<part ∧ part ≤ len ∧ address%4096+part ≤ 4096 ∧
      (part=len ∨ (address+part)%4096=0 ∧ address%4096+part=4096) ∧
      chunksFrom (fuel+1) address len=(address,part)::chunksFrom fuel (address+part) (len-part) := by
  refine ⟨min (4096-address%4096) len,by omega,by omega,by omega,by omega,?_⟩
  rw [chunksFrom,if_neg (by omega)]

/-- Every address of a range lies in the page of one of its parts. -/
theorem chunksFrom_covers (hfuel : len=0 ∨ address%4096+len ≤ fuel*4096) {offset : ℕ}
    (hoffset : offset<len) :
    ∃ part∈chunksFrom fuel address len,part.1/4096=(address+offset)/4096 := by
  induction fuel generalizing address len offset with
  | zero => omega
  | succ fuel ih =>
    obtain ⟨part,hpos,hpart,hpage,hend,hchunks⟩ :=
      @chunksFrom_cons fuel address len (by omega)
    rw [hchunks]
    by_cases hfirst : offset<part
    · exact ⟨_,List.mem_cons_self,by dsimp only; omega⟩
    · obtain ⟨found,hfound,hsame⟩ :=
        @ih (address+part) (len-part) (by omega) (offset-part) (by omega)
      exact ⟨found,List.mem_cons_of_mem _ hfound,by rw [hsame]; congr 1; omega⟩

/-- Every part begins inside the range and lies in one page. -/
theorem chunksFrom_inside (hpart : part∈chunksFrom fuel address len) :
    address ≤ part.1 ∧ part.1<address+len ∧ part.1%4096+part.2 ≤ 4096 := by
  induction fuel generalizing address len with
  | zero => exact absurd hpart List.not_mem_nil
  | succ fuel ih =>
    rcases Nat.eq_zero_or_pos len with rfl|hlen
    · rw [chunksFrom,if_pos rfl] at hpart
      exact absurd hpart List.not_mem_nil
    · obtain ⟨first,hpos,hle,hpage,-,hchunks⟩ := @chunksFrom_cons fuel address len hlen
      rw [hchunks] at hpart
      rcases List.mem_cons.mp hpart with rfl|hlater
      · exact ⟨le_rfl,by omega,hpage⟩
      · have hinside := ih hlater
        omega

theorem chunks_fuel (start len : ℕ) : len=0 ∨ start%4096+len ≤ (len/4096+2)*4096 := by omega

/-- A range that a user can access, byte by byte. -/
theorem validateUserRange_iff {start : ℕ} {requireWritable : Bool} :
    validateUserRange space start len requireWritable=.ok () ↔
      userSpaceBase ≤ start ∧ start<userSpaceBase+userSpaceSize ∧
        start+len ≤ userSpaceBase+userSpaceSize ∧
        ∀ offset<len,checkUserPage space requireWritable (start+offset)=.ok () := by
  rw [validateUserRange_parts]
  refine and_congr_right fun _ => and_congr_right fun _ => and_congr_right fun _ => ?_
  constructor
  · intro hall offset hoffset
    obtain ⟨part,hpart,hpage⟩ := chunksFrom_covers (chunks_fuel start len) hoffset
    have hcheck := checkUserPage_ok_iff.mp (hall part hpart)
    rw [hpage] at hcheck
    exact checkUserPage_ok_iff.mpr hcheck
  · intro hall part hpart
    obtain ⟨hlow,hhigh,-⟩ := chunksFrom_inside hpart
    have hcheck := hall (part.1-start) (by omega)
    rwa [Nat.add_sub_cancel' hlow] at hcheck

/-! ## Writes -/

/-- One turn of `for_each_mapped_chunk`: the physical place of a part. -/
def mappedPart (space : AddressSpace) (part : ℕ×ℕ) : Except String (ℕ×ℕ) :=
  match translateInAddressSpace space part.1 with
  | none => .error "destination page not mapped in this address space"
  | some (physical,flags) =>
    if flags.writable=false then .error "destination page not writable"
    else if flags.userAccessible=false then .error "destination page not user-accessible"
    else .ok (physical,part.2)

theorem forEachMappedChunk_eq (space : AddressSpace) (start len : ℕ) :
    forEachMappedChunk space start len=(validateUserRange space start len true>>=fun _ =>
      (chunks start len).mapM (mappedPart space)) := rfl

theorem mappedPart_ok {result : ℕ×ℕ} (hstep : mappedPart space part=.ok result) :
    result.2=part.2 ∧ ∃ flags,translateInAddressSpace space part.1=some (result.1,flags) := by
  rw [mappedPart] at hstep
  rcases htranslate : translateInAddressSpace space part.1 with _|⟨physical,flags⟩
  · rw [htranslate] at hstep
    cases hstep
  · rw [htranslate] at hstep
    dsimp only at hstep
    split at hstep
    · cases hstep
    split at hstep
    · cases hstep
    cases hstep
    exact ⟨rfl,flags,rfl⟩

/-- What a write of `data` at `dest` does to physical memory. -/
structure Stored (space : AddressSpace) (dest : ℕ) (data : List UInt8) (ram later : Ram) :
    Prop where
  /-- The bytes are where the addresses lead. -/
  inside : ∀ offset byte,data[offset]?=some byte → ∃ physical flags,
    translateInAddressSpace space (dest+offset)=some (physical,flags) ∧ later physical=byte
  /-- Everything else is as before. -/
  outside : ∀ physical,(∀ offset<data.length,∀ flags,
    translateInAddressSpace space (dest+offset)≠some (physical,flags)) →
    later physical=ram physical

theorem Stored.nil (dest : ℕ) (ram : Ram) : Stored space dest [] ram ram :=
  ⟨fun offset byte h => absurd h (by rw [List.getElem?_nil]; exact Option.some_ne_none byte |>.symm),
    fun _ _ => rfl⟩

/-- The first part is stored in its page, the rest follows behind it. -/
theorem Stored.cons (hspace : Unshared space) {part : ℕ} (hpart : part ≤ data.length)
    (hpage : dest%4096+part ≤ 4096)
    (htranslate : translateInAddressSpace space dest=some (physical,flags))
    (hrest : Stored space (dest+part) (data.drop part) (ram.store physical (data.take part)) later) :
    Stored space dest data ram later := by
  have hlength : (data.take part).length=part := by
    rw [List.length_take]
    omega
  have hplace : ∀ offset<part,
      translateInAddressSpace space (dest+offset)=some (physical+offset,flags) :=
    fun offset hoffset => translate_add htranslate (by omega)
  constructor
  · intro offset byte hbyte
    by_cases hfirst : offset<part
    · refine ⟨physical+offset,flags,hplace offset hfirst,?_⟩
      rw [hrest.outside]
      · rw [Ram.store,if_pos (by omega),Nat.add_sub_cancel_left,List.getD_eq_getElem?_getD,
          List.getElem?_take_of_lt hfirst,hbyte]
        rfl
      · intro other hother others hmeets
        have hsame := hspace _ _ _ _ _ (hplace offset hfirst) hmeets
        omega
    · have hlater := hrest.inside (offset-part) byte (by
        rw [List.getElem?_drop,Nat.add_sub_cancel' (not_lt.mp hfirst)]
        exact hbyte)
      rwa [show dest+part+(offset-part)=dest+offset by omega] at hlater
  · intro place houtside
    rw [hrest.outside]
    · rw [Ram.store,if_neg]
      rw [hlength]
      rintro ⟨hlow,hhigh⟩
      refine houtside (place-physical) (by omega) flags ?_
      rw [hplace (place-physical) (by omega),Nat.add_sub_cancel' hlow]
    · intro offset hoffset others
      rw [List.length_drop] at hoffset
      have hfar := houtside (part+offset) (by omega) others
      rwa [← Nat.add_assoc] at hfar

/-- Storing the parts of a range stores the data. -/
theorem stored_parts (hspace : Unshared space) {fuel dest : ℕ} {data : List UInt8} {ram : Ram}
    {parts : List (ℕ×ℕ)} (hfuel : data.length=0 ∨ dest%4096+data.length ≤ fuel*4096)
    (hparts : (chunksFrom fuel dest data.length).mapM (mappedPart space)=.ok parts) :
    Stored space dest data ram (parts.foldl (fun (state : Ram×List UInt8) part =>
      (state.1.store part.1 (state.2.take part.2),state.2.drop part.2)) (ram,data)).1 := by
  induction fuel generalizing dest data ram parts with
  | zero =>
    have hempty : data=[] := List.length_eq_zero_iff.mp (by omega)
    subst hempty
    cases hparts
    exact Stored.nil dest ram
  | succ fuel ih =>
    rcases Nat.eq_zero_or_pos data.length with hzero|hlen
    · have hempty : data=[] := List.length_eq_zero_iff.mp hzero
      subst hempty
      cases hparts
      exact Stored.nil dest ram
    · obtain ⟨part,hpos,hle,hpage,hend,hchunks⟩ := @chunksFrom_cons fuel dest data.length hlen
      rw [hchunks] at hparts
      obtain ⟨first,rest,rfl,hfirst,hrest⟩ := mapM_cons_ok hparts
      obtain ⟨hsize,flags,htranslate⟩ := mappedPart_ok hfirst
      rw [← List.length_drop] at hrest
      have hlater := @ih (dest+part) (data.drop part) (ram.store first.1 (data.take part)) rest
        (by rw [List.length_drop]; omega) hrest
      rw [List.foldl_cons,hsize]
      exact Stored.cons hspace hle hpage htranslate hlater

/-- What a process sees after a write of `data` at `dest`. -/
structure Written (space : AddressSpace) (dest : ℕ) (data : List UInt8) (ram later : Ram) :
    Prop where
  /-- The range holds the data. -/
  inside : ∀ offset byte,data[offset]?=some byte → byteAt space later (dest+offset)=some byte
  /-- Other addresses are as before. -/
  outside : ∀ address,address<dest ∨ dest+data.length ≤ address →
    byteAt space later address=byteAt space ram address
  /-- Physical memory that the range does not reach is as before. -/
  physical : ∀ physical,(∀ offset<data.length,∀ flags,
    translateInAddressSpace space (dest+offset)≠some (physical,flags)) →
    later physical=ram physical

/-- A write changes exactly its range. -/
theorem writeBytesInAddressSpace_ok (hspace : Unshared space)
    (hrun : writeBytesInAddressSpace space dest data ram=.ok later) :
    Written space dest data ram later := by
  obtain ⟨parts,hparts,hlater⟩ := bind_ok_iff.mp hrun
  rw [forEachMappedChunk_eq] at hparts
  obtain ⟨_,-,hparts⟩ := bind_ok_iff.mp hparts
  cases hlater
  have hstored := @stored_parts space hspace _ dest data ram parts
    (chunks_fuel dest data.length) hparts
  refine ⟨?_,?_,hstored.outside⟩
  · intro offset byte hbyte
    obtain ⟨physical,flags,htranslate,hvalue⟩ := hstored.inside offset byte hbyte
    rw [byteAt,htranslate,Option.map_some,hvalue]
  · intro address houtside
    rw [byteAt,byteAt]
    rcases htranslate : translateInAddressSpace space address with _|⟨physical,flags⟩
    · rfl
    · rw [Option.map_some,Option.map_some,hstored.outside physical]
      intro offset hoffset others hmeets
      have hsame := hspace _ _ _ _ _ htranslate hmeets
      omega

/-- The parts of a range are found exactly when the range is valid and
writable. -/
theorem forEachMappedChunk_isOk : (∃ parts,forEachMappedChunk space dest len=.ok parts) ↔
      validateUserRange space dest len true=.ok () := by
  constructor
  · rintro ⟨parts,hparts⟩
    obtain ⟨_,hvalid,-⟩ := bind_ok_iff.mp hparts
    exact hvalid
  · intro hvalid
    have hall := (validateUserRange_iff.mp hvalid).2.2.2
    have hstep : ∀ part∈chunks dest len,∃ result,mappedPart space part=.ok result := by
      intro part hpart
      obtain ⟨hlow,hhigh,-⟩ := chunksFrom_inside hpart
      have hcheck := hall (part.1-dest) (by omega)
      rw [Nat.add_sub_cancel' hlow] at hcheck
      obtain ⟨leaf,hleaf,-,huser,hwritable⟩ := checkUserPage_ok_iff.mp hcheck
      rw [mappedPart,translateInAddressSpace,hleaf]
      simp only [Option.map_some,huser,hwritable rfl]
      exact ⟨_,rfl⟩
    obtain ⟨parts,hparts⟩ := mapM_isOk hstep
    exact ⟨parts,bind_ok_iff.mpr ⟨(),hvalid,hparts⟩⟩

/-- A write succeeds exactly when its range is valid and writable. -/
theorem writeBytesInAddressSpace_isOk (ram : Ram) :
    (∃ later,writeBytesInAddressSpace space dest data ram=.ok later) ↔
      validateUserRange space dest data.length true=.ok () := by
  rw [← forEachMappedChunk_isOk]
  constructor
  · rintro ⟨later,hrun⟩
    obtain ⟨parts,hparts,-⟩ := bind_ok_iff.mp hrun
    exact ⟨parts,hparts⟩
  · rintro ⟨parts,hparts⟩
    exact ⟨_,bind_ok_iff.mpr ⟨parts,hparts,rfl⟩⟩

/-- Zeroing succeeds if its range is valid and writable. -/
theorem zeroBytesInAddressSpace_of_valid (ram : Ram)
    (hvalid : validateUserRange space dest len true=.ok ()) :
    ∃ later,zeroBytesInAddressSpace space dest len ram=.ok later := by
  obtain ⟨parts,hparts⟩ := forEachMappedChunk_isOk.mpr hvalid
  exact ⟨_,bind_ok_iff.mpr ⟨parts,hparts,rfl⟩⟩

/-- A copy to the user is a write to the space of the process. -/
theorem copyToCurrentUser_some_iff : copyToCurrentUser (some space) address data ram=some later ↔
      writeBytesInAddressSpace space address data ram=.ok later := by
  have hsome : copyToCurrentUser (some space) address data ram=
      if canonical address=false then none
      else (writeBytesInAddressSpace space address data ram).toOption := rfl
  rw [hsome]
  constructor
  · intro hcopy
    split at hcopy
    · cases hcopy
    · rcases hwrite : writeBytesInAddressSpace space address data ram with reason|found
      · rw [hwrite] at hcopy
        cases hcopy
      · rw [hwrite] at hcopy
        cases hcopy
        rfl
  · intro hwrite
    have hvalid := (writeBytesInAddressSpace_isOk ram).mp ⟨later,hwrite⟩
    have hregion := validateUserRange_iff.mp hvalid
    have hbase : userSpaceBase+userSpaceSize<2^47 := by decide
    have hcanonical : canonical address=true := by
      rw [canonical,Bool.or_eq_true,decide_eq_true_eq]
      exact Or.inl (by omega)
    rw [hcanonical,if_neg (by decide),hwrite]
    rfl

theorem validateCurrentUserRange_eq_true {writable : Bool} :
    validateCurrentUserRange (some space) address len writable=true ↔
      validateUserRange space address len writable=.ok () := by
  rw [validateCurrentUserRange]
  rcases validateUserRange space address len writable with reason|⟨⟩
  · exact iff_of_false Bool.false_ne_true (by simp)
  · exact iff_of_true rfl rfl

/-- The check of a range tells whether a copy to it succeeds. -/
theorem validateCurrentUserRange_iff (data : List UInt8) (ram : Ram) :
    validateCurrentUserRange (some space) address data.length true=true ↔
      ∃ later,copyToCurrentUser (some space) address data ram=some later := by
  rw [validateCurrentUserRange_eq_true,← writeBytesInAddressSpace_isOk ram]
  exact exists_congr fun later => copyToCurrentUser_some_iff.symm

/-- A range that was checked as a whole takes shorter data. -/
theorem copyToCurrentUser_checked (ram : Ram)
    (hvalid : validateCurrentUserRange (some space) address len true=true)
    (hlen : data.length ≤ len) :
    ∃ later,copyToCurrentUser (some space) address data ram=some later := by
  rw [← validateCurrentUserRange_iff,validateCurrentUserRange_eq_true,validateUserRange_iff]
  rw [validateCurrentUserRange_eq_true,validateUserRange_iff] at hvalid
  obtain ⟨hlow,hhigh,hend,hall⟩ := hvalid
  exact ⟨hlow,hhigh,by omega,fun offset hoffset => hall offset (by omega)⟩

/-- A copy to the user changes exactly its range. -/
theorem copyToCurrentUser_written (hspace : Unshared space)
    (hcopy : copyToCurrentUser (some space) address data ram=some later) :
    Written space address data ram later :=
  writeBytesInAddressSpace_ok hspace (copyToCurrentUser_some_iff.mp hcopy)

theorem Written.nil (dest : ℕ) (ram : Ram) : Written space dest [] ram ram :=
  ⟨nofun,fun _ _ => rfl,fun _ _ => rfl⟩

end

end TuwaiqOS.UserMemory
