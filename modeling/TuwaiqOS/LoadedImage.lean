import TuwaiqOS.ProcessMemory
import TuwaiqOS.UserMemory

/-!
# The memory image of an executable

The second pass of the loader maps, zeroes, fills and protects the pages of
one segment after another. A segment whose operations all succeed had pages
that were free, and leaves exactly its image in them: the bytes of the file,
zeros around them, and the flags that its header asks for. Nothing else
changes, so the images of earlier segments stay, and the segments of an
executable that was loaded have no page in common.
-/

namespace TuwaiqOS.LoadedImage

open ByteFields ResourceLedger FrameAllocator PageTables AddressSpaces ElfImage
open StagedSpaces VmCalls UserMemory ProcessMemory
open BootInfoFrameAllocator (books)

/-! ## Operations one after another -/

section

variable {space : AddressSpace} {paging : Paging} {first : List SpaceOp}

theorem performAll_cons {op : SpaceOp} (hop : (op.perform space paging).1=.ok ())
    (rest : List SpaceOp) : performAll (op::rest) space paging=
      performAll rest (op.perform space paging).2.1 (op.perform space paging).2.2 := by
  rw [performAll]
  rcases hperform : op.perform space paging with ⟨reason|⟨⟩,later⟩
  · rw [hperform] at hop
    cases hop
  · rfl

theorem performAll_cons_error {op : SpaceOp} {reason : String}
    (hop : (op.perform space paging).1=.error reason) (rest : List SpaceOp) :
    performAll (op::rest) space paging=(.error reason,(op.perform space paging).2) := by
  rw [performAll]
  rcases hperform : op.perform space paging with ⟨failure|⟨⟩,later⟩
  · rw [hperform] at hop
    cases hop
    rfl
  · rw [hperform] at hop
    cases hop

theorem performAll_append (hfirst : (performAll first space paging).1=.ok ())
    (second : List SpaceOp) : performAll (first++second) space paging=
      performAll second (performAll first space paging).2.1 (performAll first space paging).2.2 := by
  induction first generalizing space paging with
  | nil => rfl
  | cons op rest ih =>
    cases hop : (op.perform space paging).1 with
    | error reason =>
      rw [performAll_cons_error hop] at hfirst
      cases hfirst
    | ok _ =>
      rw [List.cons_append,performAll_cons hop,performAll_cons hop]
      rw [performAll_cons hop] at hfirst
      exact ih hfirst

theorem performAll_append_error {reason : String}
    (hfirst : (performAll first space paging).1=.error reason) (second : List SpaceOp) :
    performAll (first++second) space paging=performAll first space paging := by
  induction first generalizing space paging with
  | nil => cases hfirst
  | cons op rest ih =>
    cases hop : (op.perform space paging).1 with
    | error failure =>
      rw [List.cons_append,performAll_cons_error hop,performAll_cons_error hop]
    | ok _ =>
      rw [List.cons_append,performAll_cons hop,performAll_cons hop]
      rw [performAll_cons hop] at hfirst
      exact ih hfirst

/-- A sequence succeeds if its parts do. -/
theorem performAll_append_ok {second : List SpaceOp}
    (hrun : (performAll (first++second) space paging).1=.ok ()) :
    (performAll first space paging).1=.ok () := by
  cases hfirst : (performAll first space paging).1 with
  | ok _ => rfl
  | error reason =>
    rw [performAll_append_error hfirst,hfirst] at hrun
    exact hrun

section

variable (flags : Flags) (pages : List ℕ) (space : AddressSpace) (paging : Paging)

/-- Mapping operations map pages. -/
theorem performAll_map :
    (performAll (pages.map (SpaceOp.map · flags)) space paging).2=
        ((mapPages flags pages space paging.allocator).2.1,
          {paging with allocator := (mapPages flags pages space paging.allocator).2.2}) ∧
      ((performAll (pages.map (SpaceOp.map · flags)) space paging).1=.ok () →
        (mapPages flags pages space paging.allocator).1=pages.length) := by
  induction pages generalizing space paging with
  | nil => exact ⟨rfl,fun _ => rfl⟩
  | cons page rest ih =>
    rw [List.map_cons]
    unfold performAll SpaceOp.perform mapPages
    dsimp only
    rcases mapInAddressSpace space page flags paging.allocator with ⟨reason|⟨⟩,later,allocator⟩
    · exact ⟨rfl,by simp⟩
    · obtain ⟨hstate,hcount⟩ := ih later {paging with allocator := allocator}
      exact ⟨hstate,fun hok => by rw [List.length_cons,← hcount hok]⟩

/-- Protecting operations change flags. -/
theorem performAll_protect : (performAll (pages.map (SpaceOp.protect · flags)) space paging).2=
        ((protectPages flags pages space).2,paging) ∧
      ((performAll (pages.map (SpaceOp.protect · flags)) space paging).1=.ok () →
        (protectPages flags pages space).1=true) := by
  induction pages generalizing space with
  | nil => exact ⟨rfl,fun _ => rfl⟩
  | cons page rest ih =>
    rw [List.map_cons]
    unfold performAll SpaceOp.perform protectPages
    dsimp only
    rcases updateFlagsInAddressSpace space page flags with reason|later
    · exact ⟨rfl,by simp⟩
    · exact ih later

end

end

/-! ## Segments -/

/-- What the first pass has checked of a segment. -/
structure Admitted (bytes : List UInt8) (header : ProgramHeader) : Prop where
  /-- The file has no more bytes for it than it has in memory. -/
  sizes : header.pFilesz ≤ header.pMemsz
  /-- Its bytes are in the file. -/
  file : header.pOffset+header.pFilesz ≤ bytes.length
  /-- It begins in the user region. -/
  low : userSpaceBase ≤ header.pVaddr
  /-- It ends in the user region. -/
  high : header.pVaddr+header.pMemsz ≤ userSpaceBase+userSpaceSize

/-- The segment has its image in memory. -/
structure Filled (bytes : List UInt8) (header : ProgramHeader) (space : AddressSpace) (ram : Ram) :
    Prop where
  /-- All its pages are mapped with the flags of its header. -/
  leaf : ∀ page∈segmentPages header,
    ∃ frame,space.tables.leaf page=some ⟨frame,segmentPageFlags header.pFlags⟩
  /-- The bytes of the file. -/
  file : ∀ index<header.pFilesz,
    byteAt space ram (header.pVaddr+index)=bytes[header.pOffset+index]?
  /-- The other bytes of its pages are zero. -/
  zero : ∀ address,address/4096∈segmentPages header →
    address<header.pVaddr ∨ header.pVaddr+header.pFilesz ≤ address →
      byteAt space ram address=some 0

theorem mem_segmentPages {header : ProgramHeader} {page : ℕ} :
    page∈segmentPages header ↔ header.pVaddr/4096 ≤ page ∧
      page<(header.pVaddr+header.pMemsz+4095)/4096 := by
  rw [segmentPages,List.mem_range'_1]
  omega

/-- The pages of a segment lie in the user region. -/
theorem Admitted.region {bytes : List UInt8} {header : ProgramHeader}
    (hadmitted : Admitted bytes header) {page : ℕ} (hpage : page∈segmentPages header) :
    userSpaceBase ≤ page*4096 ∧ page*4096+4096 ≤ userSpaceBase+userSpaceSize := by
  have hlow := hadmitted.low
  have hhigh := hadmitted.high
  have hbase : userSpaceBase=28*2^30*4096 := by decide
  have hsize : userSpaceBase+userSpaceSize=28*2^30*4096+userSpaceSize/4096*4096 := by decide
  rw [mem_segmentPages] at hpage
  omega

section

variable {space : AddressSpace} {ram : Ram}

/-- New flags do not move bytes. -/
theorem byteAt_protect (flags : Flags) (pages : List ℕ) (address : ℕ) :
    byteAt {space with tables := space.tables.protect flags pages} ram address=
      byteAt space ram address := by
  rw [byteAt,byteAt,translateInAddressSpace,translateInAddressSpace]
  dsimp only [Tables.protect]
  split
  · cases space.tables.leaf (address/4096) <;> rfl
  · rfl

/-- Zeroed pages, seen by the process. -/
theorem byteAt_zeroed (hspace : Unshared space) {start count : ℕ} {later : Ram}
    (haligned : start%4096=0)
    (hrun : zeroBytesInAddressSpace space start (count*4096) ram=.ok later) (address : ℕ) :
    (start/4096 ≤ address/4096 → address/4096<start/4096+count →
        space.tables.leaf (address/4096)≠none → byteAt space later address=some 0) ∧
      (address/4096<start/4096 ∨ start/4096+count ≤ address/4096 →
        byteAt space later address=byteAt space ram address) := by
  obtain ⟨hzeroed,hothers⟩ := zeroBytesInAddressSpace_ok haligned hrun
  constructor
  · intro hlow hhigh hmapped
    obtain ⟨leaf,hleaf⟩ := Option.ne_none_iff_exists'.mp hmapped
    have hzero := hzeroed _ leaf hlow hhigh hleaf (address%4096) (Nat.mod_lt _ (by decide))
    rw [byteAt,translateInAddressSpace,hleaf]
    exact congrArg some hzero
  · intro houtside
    rw [byteAt,byteAt]
    rcases htranslate : translateInAddressSpace space address with _|⟨physical,flags⟩
    · rfl
    rcases hothers physical with hsame|⟨-,page,leaf,hlow,hhigh,hleaf,hfirst,hlast⟩
    · exact congrArg some hsame
    -- the byte would be in a zeroed page as well
    have hmeets : translateInAddressSpace space (page*4096+(physical-leaf.frame))=
        some (physical,leaf.flags) := by
      refine translate_some_iff.mpr ⟨leaf,?_,by omega,rfl⟩
      rw [show (page*4096+(physical-leaf.frame))/4096=page by omega]
      exact hleaf
    have hplace := hspace _ _ _ _ _ htranslate hmeets
    omega

variable {bytes : List UInt8} {header : ProgramHeader}

/-- The bytes of a segment after its pages were zeroed and filled. -/
theorem byteAt_filled (hspace : Unshared space) (hadmitted : Admitted bytes header)
    (hmapped : ∀ page∈segmentPages header,space.tables.leaf page≠none) {zeroed filled : Ram}
    (hzero : zeroBytesInAddressSpace space (header.pVaddr/4096*4096)
      ((segmentPages header).length*4096) ram=.ok zeroed)
    (hwrite : writeBytesInAddressSpace space header.pVaddr
      (slice bytes header.pOffset header.pFilesz) zeroed=.ok filled) : (∀ index<header.pFilesz,
        byteAt space filled (header.pVaddr+index)=bytes[header.pOffset+index]?) ∧
      (∀ address,address/4096∈segmentPages header →
        address<header.pVaddr ∨ header.pVaddr+header.pFilesz ≤ address →
          byteAt space filled address=some 0) ∧ ∀ address,address/4096∉segmentPages header →
        byteAt space filled address=byteAt space ram address := by
  have hwritten := writeBytesInAddressSpace_ok hspace hwrite
  have hlength := length_slice hadmitted.file
  have hsizes := hadmitted.sizes
  have hcount : (segmentPages header).length=
      (header.pVaddr+header.pMemsz+4095)/4096-header.pVaddr/4096 := List.length_range'
  have hzeroed := byteAt_zeroed hspace (by omega) hzero
  refine ⟨fun index hindex => ?_,fun address hpage houtside => ?_,fun address hpage => ?_⟩
  · have hbyte : (slice bytes header.pOffset header.pFilesz)[index]?=
        bytes[header.pOffset+index]? := by
      rw [slice,List.getElem?_take_of_lt hindex,List.getElem?_drop]
    have hfile := hadmitted.file
    obtain ⟨byte,hfound⟩ : ∃ byte,bytes[header.pOffset+index]?=some byte :=
      ⟨_,List.getElem?_eq_getElem (by omega)⟩
    rw [hfound]
    exact hwritten.inside index byte (hbyte.trans hfound)
  · rw [hwritten.outside address (by rwa [hlength])]
    have hrange := mem_segmentPages.mp hpage
    exact (hzeroed address).1 (by omega) (by omega) (hmapped _ hpage)
  · have hrange := mt mem_segmentPages.mpr hpage
    have haway : address<header.pVaddr ∨ header.pVaddr+header.pFilesz ≤ address := by omega
    rw [hwritten.outside address (by rwa [hlength])]
    exact (hzeroed address).2 (by omega)

end

section

variable {bytes : List UInt8} {header : ProgramHeader} {space : AddressSpace} {paging : Paging}
  {rest : Multiset ℕ}

/-- What the operations of a segment do if all of them succeed. -/
structure Placed (bytes : List UInt8) (header : ProgramHeader) (space : AddressSpace) (ram : Ram)
    (later : AddressSpace) (written : Ram) : Prop where
  /-- The pages were free. -/
  free : ∀ page∈segmentPages header,space.tables.leaf page=none
  /-- They hold the image. -/
  filled : Filled bytes header later written
  /-- Other pages stay mapped as they were. -/
  others : ∀ page∉segmentPages header,later.tables.leaf page=space.tables.leaf page
  /-- Other bytes stay. -/
  kept : ∀ address,address/4096∉segmentPages header →
    byteAt later written address=byteAt space ram address

/-- Zeroing and filling, when both succeed. -/
theorem performAll_fill {dest len place : ℕ} {data : List UInt8}
    (hrun : (performAll [.zero dest len,.write place data] space paging).1=.ok ()) :
    ∃ zeroed filled,zeroBytesInAddressSpace space dest len paging.ram=.ok zeroed ∧
      writeBytesInAddressSpace space place data zeroed=.ok filled ∧
      (performAll [.zero dest len,.write place data] space paging).2=
        (space,{paging with ram := filled}) := by
  rcases hzero : zeroBytesInAddressSpace space dest len paging.ram with reason|zeroed
  · have hop : ((SpaceOp.zero dest len).perform space paging).1=.error reason := by
      rw [SpaceOp.perform,hzero]
    rw [performAll_cons_error hop] at hrun
    cases hrun
  have hop : (SpaceOp.zero dest len).perform space paging=
      (.ok (),space,{paging with ram := zeroed}) := by
    rw [SpaceOp.perform,hzero]
  rw [performAll_cons (by rw [hop]),hop] at hrun ⊢
  dsimp only at hrun ⊢
  rcases hwrite : writeBytesInAddressSpace space place data zeroed with reason|filled
  · have hnext : ((SpaceOp.write place data).perform space {paging with ram := zeroed}).1=
        .error reason := by
      rw [SpaceOp.perform,hwrite]
    rw [performAll_cons_error hnext] at hrun
    cases hrun
  have hnext : (SpaceOp.write place data).perform space {paging with ram := zeroed}=
      (.ok (),space,{paging with ram := filled}) := by
    rw [SpaceOp.perform,hwrite]
  rw [performAll_cons (by rw [hnext]),hnext]
  exact ⟨zeroed,filled,rfl,hwrite,rfl⟩

/-- The final flags of some pages, whether or not they have to be set. -/
theorem performAll_final {pages : List ℕ} {staging final : Flags}
    (hpages : ∀ page∈pages,∃ frame,space.tables.leaf page=some ⟨frame,staging⟩)
    (hrun : (performAll (if final≠staging then pages.map (SpaceOp.protect · final) else []) space
      paging).1=.ok ()) :
    ∃ later,(performAll (if final≠staging then pages.map (SpaceOp.protect · final) else []) space
        paging).2=(later,paging) ∧
      (∀ page∈pages,∃ frame,later.tables.leaf page=some ⟨frame,final⟩) ∧
      (∀ page∉pages,later.tables.leaf page=space.tables.leaf page) ∧
      ∀ ram address,byteAt later ram address=byteAt space ram address := by
  by_cases hflags : final≠staging
  · rw [if_pos hflags] at hrun ⊢
    obtain ⟨hstate,hdone⟩ := performAll_protect final pages space paging
    obtain ⟨count,hlater,hall⟩ := protectPages_spec final pages space
    rw [hall (hdone hrun)] at hlater
    rw [hlater] at hstate
    refine ⟨_,hstate,fun page hpage => ?_,fun page hpage => if_neg hpage,
      fun ram address => byteAt_protect final pages address⟩
    obtain ⟨frame,hleaf⟩ := hpages page hpage
    refine ⟨frame,?_⟩
    dsimp only [Tables.protect]
    rw [if_pos hpage,hleaf]
    rfl
  · rw [if_neg hflags]
    rw [not_not] at hflags
    refine ⟨space,rfl,?_,fun _ _ => rfl,fun _ _ => rfl⟩
    rw [hflags]
    exact hpages

theorem placed_segmentOps (hspace : Tight space)
    (hbacks : Backs books paging.allocator (space.ownedFrames+rest))
    (hadmitted : Admitted bytes header)
    (hrun : (performAll (segmentOps bytes header) space paging).1=.ok ()) :
    Placed bytes header space paging.ram (performAll (segmentOps bytes header) space paging).2.1
      (performAll (segmentOps bytes header) space paging).2.2.ram := by
  have hmap := performAll_map stagingFlags (segmentPages header) space paging
  have hmaps := mapsPages_mapPages stagingFlags (segmentPages header) hspace.exclusive
    hspace.closed hbacks
  unfold segmentOps at hrun ⊢
  dsimp only at hrun ⊢
  rw [List.append_assoc] at hrun ⊢
  have hfirst := performAll_append_ok hrun
  have hafter := (built_performAll hbacks hfirst).2
  have hall := List.take_of_length_le (hmap.2 hfirst).ge
  rw [performAll_append hfirst] at hrun ⊢
  rw [hmap.1] at hrun hafter ⊢
  have hfree := hmaps.free
  have hmapped := hmaps.mapped
  have hothers := hmaps.others
  rw [hall] at hfree hmapped hothers
  have hunshared := unshared_of_backs hmaps.exclusive hafter
  generalize (mapPages stagingFlags (segmentPages header) space paging.allocator).2=staged at *
  obtain ⟨middle,allocator⟩ := staged
  dsimp only at *
  have hfill := performAll_append_ok hrun
  rw [performAll_append hfill] at hrun ⊢
  obtain ⟨zeroed,filled,hzero,hwrite,hstate⟩ := performAll_fill hfill
  rw [hstate] at hrun ⊢
  obtain ⟨hfile,hnull,hkept⟩ := byteAt_filled hunshared hadmitted (fun page hpage => by
    obtain ⟨frame,hleaf⟩ := hmapped page hpage
    rw [hleaf]
    exact Option.some_ne_none _) hzero hwrite
  obtain ⟨later,hlater,hleaf,hsame,hbytes⟩ := performAll_final hmapped hrun
  rw [hlater]
  refine ⟨hfree,⟨hleaf,fun index hindex => ?_,fun address hpage houtside => ?_⟩,
    fun page hpage => (hsame page hpage).trans (hothers page hpage),fun address hpage => ?_⟩
  · rw [hbytes]
    exact hfile index hindex
  · rw [hbytes]
    exact hnull address hpage houtside
  · rw [hbytes,hkept address hpage,byteAt,byteAt,translateInAddressSpace,
      translateInAddressSpace,hothers _ hpage]

end

/-! ## Executables -/

/-- The segments that were loaded so far, and nothing else. -/
structure Loaded (bytes : List UInt8) (headers : List ProgramHeader) (space : AddressSpace)
    (ram : Ram) : Prop where
  /-- The mapped pages are those of the segments. -/
  pages : ∀ page,space.tables.leaf page≠none ↔ ∃ header∈headers,page∈segmentPages header
  /-- No page belongs to two segments. -/
  apart : headers.Pairwise fun first second =>
    ∀ page∈segmentPages first,page∉segmentPages second
  /-- Every segment has its image. -/
  filled : ∀ header∈headers,Filled bytes header space ram

theorem loaded_nil {bytes : List UInt8} {space : AddressSpace} {ram : Ram}
    (hspace : ∀ page,space.tables.leaf page=none) : Loaded bytes [] space ram := by
  refine ⟨fun page => ?_,List.Pairwise.nil,by simp⟩
  simp [hspace page]

/-- One more segment. -/
theorem Loaded.concat {bytes : List UInt8} {headers : List ProgramHeader} {header : ProgramHeader}
    {space later : AddressSpace} {ram written : Ram} (hloaded : Loaded bytes headers space ram)
    (hadmitted : ∀ header∈headers,Admitted bytes header)
    (hplaced : Placed bytes header space ram later written) :
    Loaded bytes (headers++[header]) later written := by
  -- the pages of earlier segments were mapped, those of this one were not
  have hapart : ∀ other∈headers,∀ page∈segmentPages other,page∉segmentPages header := by
    intro other hother page hpage hboth
    exact (hloaded.pages page).mpr ⟨other,hother,hpage⟩ (hplaced.free page hboth)
  refine ⟨fun page => ?_,?_,fun other hother => ?_⟩
  · by_cases hpage : page∈segmentPages header
    · obtain ⟨frame,hleaf⟩ := hplaced.filled.leaf page hpage
      rw [hleaf]
      exact iff_of_true (Option.some_ne_none _) ⟨header,by simp,hpage⟩
    · rw [hplaced.others page hpage,hloaded.pages page]
      simp [or_and_right,exists_or,hpage]
  · rw [List.pairwise_append]
    refine ⟨hloaded.apart,List.pairwise_singleton _ _,fun other hother found hfound => ?_⟩
    rw [List.mem_singleton.mp hfound]
    exact hapart other hother
  · rcases List.mem_append.mp hother with hold|hnew
    · have hfilled := hloaded.filled other hold
      refine ⟨fun page hpage => ?_,fun index hindex => ?_,fun address hpage houtside => ?_⟩
      · rw [hplaced.others page (hapart other hold page hpage)]
        exact hfilled.leaf page hpage
      · have hsizes := (hadmitted other hold).sizes
        have hpage : (other.pVaddr+index)/4096∈segmentPages other := by
          rw [mem_segmentPages]
          omega
        rw [hplaced.kept _ (hapart other hold _ hpage)]
        exact hfilled.file index hindex
      · rw [hplaced.kept _ (hapart other hold _ hpage)]
        exact hfilled.zero address hpage houtside
    · rw [List.mem_singleton.mp hnew]
      exact hplaced.filled

/-- The second pass loads all segments if it succeeds. -/
theorem loaded_performAll {bytes : List UInt8} {headers before : List ProgramHeader}
    {space : AddressSpace} {paging : Paging} {rest : Multiset ℕ} (hspace : Tight space)
    (hbacks : Backs books paging.allocator (space.ownedFrames+rest))
    (hadmitted : ∀ header∈before++headers,Admitted bytes header)
    (hloaded : Loaded bytes before space paging.ram)
    (hrun : (performAll (headers.flatMap (segmentOps bytes)) space paging).1=.ok ()) :
    Loaded bytes (before++headers)
      (performAll (headers.flatMap (segmentOps bytes)) space paging).2.1
      (performAll (headers.flatMap (segmentOps bytes)) space paging).2.2.ram := by
  induction headers generalizing before space paging with
  | nil =>
    rw [List.append_nil]
    exact hloaded
  | cons header others ih =>
    rw [List.flatMap_cons] at hrun ⊢
    have hfirst := performAll_append_ok hrun
    obtain ⟨hbuilt,hafter⟩ := built_performAll hbacks hfirst
    have hplaced := placed_segmentOps hspace hbacks (hadmitted header (by simp)) hfirst
    have hnext := hloaded.concat (fun other hother => hadmitted other (by simp [hother])) hplaced
    rw [performAll_append hfirst] at hrun ⊢
    rw [List.append_cons]
    exact ih (tight_built hbuilt hspace).1 hafter (by rwa [← List.append_cons]) hnext hrun

end TuwaiqOS.LoadedImage
