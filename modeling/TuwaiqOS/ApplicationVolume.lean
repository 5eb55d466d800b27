import TuwaiqOS.FailedMutation
import TuwaiqOS.ReservedSectors

/-!
# The volume that the image builder writes

The build script writes a first checkpoint with its own copies of the record
writer, the checksum, the sector loop and the layout constants. Each of them
agrees with the kernel's, so whenever the builder succeeds the kernel mounts
exactly the packaged tree, and the first sync goes to the other slot.
-/

namespace TuwaiqOS.ApplicationVolume

open Utf8Text ByteFields BlockProgram FallibleSteps FsTree TreeInvariant TreeCodec TwoSlotStore
open SlotContents SyncWrites CrashConsistency FailedMutation ReservedSectors
open Checkpoint hiding crc32

/-! ## The builder -/

/-- `TUWAIQFS_SUPERBLOCK_LBA`. -/
def tuwaiqfsSuperblockLba : ℕ := 8192

/-- `TUWAIQFS_SLOT_A_LBA`. -/
def tuwaiqfsSlotALba : ℕ := 23490

/-- `TUWAIQFS_SLOT_SECTORS`. -/
def tuwaiqfsSlotSectors : ℕ := 512

/-- `TUWAIQFS_SLOT_B_LBA`. -/
def tuwaiqfsSlotBLba : ℕ := tuwaiqfsSlotALba+tuwaiqfsSlotSectors

/-- `TUWAIQFS_MAX_METADATA`. -/
def tuwaiqfsMaxMetadata : ℕ := (tuwaiqfsSlotSectors-1)*512

/-- `TUWAIQFS_SLOT_COMMITTED`. -/
def tuwaiqfsSlotCommitted : ℕ := 0x434F4D54

/-- `crc32` of the build script. -/
def crc32 (bytes : List UInt8) : UInt32 :=
  ~~~(bytes.foldl (fun crc byte => (List.range 8).foldl (fun crc _ =>
    let mask := 0-(crc &&& 1)
    (crc>>>1)^^^(0xEDB88320 &&& mask)) (crc^^^byte.toUInt32)) 0xFFFFFFFF)

/-- Append one record (`write_tuwaiqfs_record`). -/
def writeTuwaiqfsRecord (out : List UInt8) (kind : UInt8) (path : Text)
    (content : Option (List UInt8)) : Except String (List UInt8) :=
  if path.isEmpty || len path>120 || len path>255 then
    .error ("invalid packaged TuwaiqFS path: "++String.ofList path)
  else
    let head := out++[kind,UInt8.ofNat (len path)]++asBytes path
    if kind=1 then
      match content with
      | none => .error ("missing content for "++String.ofList path)
      | some bytes =>
        if bytes.length<2^16 then .ok (head++leBytes 2 bytes.length++bytes)
        else .error ("packaged application exceeds 65,535 bytes: "++String.ofList path)
    else .ok head

/-- The packaged binaries and the names they are installed under. -/
def applications : List (Text×Text) :=
  [(['d','e','s','k','t','o','p'],['d','e','s','k','t','o','p']),
    (['f','i','l','e','_','m','a','n','a','g','e','r'],
      ['f','i','l','e','-','m','a','n','a','g','e','r']),
    (['t','e','r','m','i','n','a','l'],['t','e','r','m','i','n','a','l']),
    (['t','u','w','a','i','q','_','a','i'],['t','u','w','a','i','q','-','a','i'])]

/-- The directories below `data`. -/
def dataDirectories : List Text :=
  [['d','e','s','k','t','o','p'],['f','i','l','e','-','m','a','n','a','g','e','r'],
    ['t','e','r','m','i','n','a','l'],['t','u','w','a','i','q','-','a','i']]

/-- Contents of `apps/catalog.txt`. -/
def catalog : List UInt8 :=
  asBytes ['d','e','s','k','t','o','p','\n','f','i','l','e','-','m','a','n','a','g','e','r','\n',
    't','e','r','m','i','n','a','l','\n','t','u','w','a','i','q','-','a','i','\n']

/-- One turn of the loop over the applications; `read` is `fs::read` on the
release directory of the target. -/
def packApplication (targetDir : String) (read : Text → Except String (List UInt8))
    (blob : List UInt8) (application : Text×Text) : Except String (List UInt8) :=
  match read application.1 with
  | .error reason => .error ("packaged application '"++targetDir++"/x86_64-unknown-none/release/"++
      String.ofList application.1++"' is missing; run scripts\\build.ps1: "++reason)
  | .ok bytes => writeTuwaiqfsRecord blob 1 (['a','p','p','s','/']++application.2) (some bytes)

/-- One turn of the loop over the data directories. -/
def packDirectory (blob : List UInt8) (directory : Text) : Except String (List UInt8) :=
  writeTuwaiqfsRecord blob 2 (['d','a','t','a','/']++directory) none

/-- The metadata part of `create_tuwaiqfs_application_volume`. -/
def packagedMetadata (targetDir : String) (read : Text → Except String (List UInt8)) :
    Except String (List UInt8) := do
  let blob ← writeTuwaiqfsRecord [0x54,0x52,0x45,0x45] 2 ['a','p','p','s'] none
  let blob ← applications.foldlM (packApplication targetDir read) blob
  let blob ← writeTuwaiqfsRecord blob 1
    ['a','p','p','s','/','c','a','t','a','l','o','g','.','t','x','t'] (some catalog)
  let blob ← writeTuwaiqfsRecord blob 2 ['d','a','t','a'] none
  let blob ← dataDirectories.foldlM packDirectory blob
  if blob.length>tuwaiqfsMaxMetadata then
    .error ("packaged TuwaiqFS metadata is "++toString blob.length++" bytes, limit is "++
      toString tuwaiqfsMaxMetadata)
  else .ok blob

/-- The superblock of the image; its fields stand one behind the other. -/
def imageSuperblock : Sector :=
  Sector.ofBlob ([0x54,0x51,0x46,0x53,0x76,0x32,0,0]++leBytes 4 3++leBytes 4 tuwaiqfsSlotALba++
    leBytes 4 tuwaiqfsSlotSectors) 0

/-- The bytes of the checkpoint header that come before the commit marker. -/
def imageHeader (blob : List UInt8) : List UInt8 :=
  [0x54,0x51,0x43,0x4B,0x50,0x54,0,0]++leBytes 8 1++leBytes 4 blob.length++
    leBytes 4 (crc32 blob).toNat

/-- The payload loop: `steps` more sectors, from `index` and `offset` on. -/
def payloadSectors (blob : List UInt8) : ℕ → ℕ → ℕ → List (ℕ×Sector)
  | 0,_,_ => []
  | steps+1,index,offset =>
    let count := min (blob.length-offset) 512
    (tuwaiqfsSlotALba+1+index,Sector.ofBlob (slice blob offset count) 0)::
      payloadSectors blob steps (index+1) (offset+count)

/-- The sector writes of `create_tuwaiqfs_application_volume` in program
order, with the host file intact throughout. -/
def createTuwaiqfsApplicationVolume (targetDir : String)
    (read : Text → Except String (List UInt8)) : Except String (List (ℕ×Sector)) := do
  let blob ← packagedMetadata targetDir read
  pure ([(tuwaiqfsSuperblockLba,imageSuperblock),
      (tuwaiqfsSlotALba,Sector.ofBlob (imageHeader blob) 0),
      (tuwaiqfsSlotBLba,Sector.zero)]++
    payloadSectors blob ((blob.length+511)/512) 0 0++
    [(tuwaiqfsSlotALba,Sector.ofBlob (imageHeader blob++leBytes 4 tuwaiqfsSlotCommitted) 0)])

/-! ## Records -/

variable {out result : List UInt8} {path : Text} {targetDir : String}
  {read : Text → Except String (List UInt8)}

theorem ok_append_iff {record : List UInt8} :
    (.ok (out++record) : Except String (List UInt8))=.ok result ↔
      ∃ bytes,(.ok record : Except String (List UInt8))=.ok bytes ∧ result=out++bytes := by
  constructor
  · intro h
    exact ⟨record,rfl,(Except.ok.inj h).symm⟩
  · rintro ⟨bytes,hbytes,rfl⟩
    rw [Except.ok.inj hbytes]

/-- The two record writers accept the same records and write the same bytes. -/
theorem writeTuwaiqfsRecord_ok_iff {kind : UInt8} {content : Option (List UInt8)} :
    writeTuwaiqfsRecord out kind path content=.ok result ↔
      ∃ bytes,writeRecord kind path content=.ok bytes ∧ result=out++bytes := by
  have hempty : (asBytes path).isEmpty=path.isEmpty := by
    rw [Bool.eq_iff_iff,List.isEmpty_iff,List.isEmpty_iff,← len_eq_zero,len,List.length_eq_zero_iff]
  have hpath : (path.isEmpty || len path>120 || len path>255)=
      ((asBytes path).isEmpty || (asBytes path).length>120) := by
    have hlong : (decide (len path>120) || decide (len path>255))=decide (len path>120) := by
      by_cases hmore : len path>255
      · simp only [hmore,show len path>120 by omega,decide_true,Bool.or_true]
      · simp only [hmore,decide_false,Bool.or_false]
    rw [hempty,Bool.or_assoc,hlong,len]
  rw [writeTuwaiqfsRecord,writeRecord,hpath]
  simp only [len,List.append_assoc,List.cons_append,List.nil_append]
  by_cases hbad : ((asBytes path).isEmpty || (asBytes path).length>120)=true
  · simp only [if_pos hbad,reduceCtorEq,false_and,exists_false]
  · rw [if_neg hbad,if_neg hbad]
    by_cases hkind : kind=1
    · rw [if_pos hkind,if_pos hkind]
      cases content with
      | none => simp only [reduceCtorEq,false_and,exists_false]
      | some bytes =>
        dsimp only
        by_cases hsize : bytes.length<2^16
        · rw [if_pos hsize,if_neg (by rw [maxFileSize]; omega)]
          exact ok_append_iff
        · rw [if_neg hsize,if_pos (by rw [maxFileSize]; omega)]
          simp only [reduceCtorEq,false_and,exists_false]
    · rw [if_neg hkind,if_neg hkind]
      exact ok_append_iff

/-- A recorded file fits its length field. -/
theorem length_of_writeRecord {content bytes : List UInt8}
    (hrecord : writeRecord 1 path (some content)=.ok bytes) : content.length ≤ maxFileSize := by
  rw [writeRecord] at hrecord
  dsimp only at hrecord
  split at hrecord
  · cases hrecord
  · rw [if_pos rfl] at hrecord
    split at hrecord
    · cases hrecord
    · rename_i hsize
      exact not_lt.mp hsize

theorem flattenTree_dir {path : Text} {children : Children} {own below : List UInt8}
    (hpath : path.isEmpty=false) (hown : writeRecord 2 path none=.ok own)
    (hbelow : flattenChildren path children=.ok below) :
    flattenTree path (.dir children)=.ok (own++below) := by
  rw [flattenTree,hpath]
  exact bind_ok_iff.mpr ⟨own,hown,bind_ok_iff.mpr ⟨below,hbelow,rfl⟩⟩

theorem flattenChildren_cons {path name : Text} {child : FsNode} {rest : Children}
    {first later : List UInt8} (hfirst : flattenTree (joinPath path name) child=.ok first)
    (hrest : flattenChildren path rest=.ok later) :
    flattenChildren path ((name,child)::rest)=.ok (first++later) := by
  rw [flattenChildren]
  exact bind_ok_iff.mpr ⟨first,hfirst,bind_ok_iff.mpr ⟨later,hrest,rfl⟩⟩

/-- One more child goes behind the others. -/
theorem flattenChildren_concat {name : Text} {child : FsNode} {children : Children}
    {front last : List UInt8} (hfront : flattenChildren path children=.ok front)
    (hlast : flattenTree (joinPath path name) child=.ok last) :
    flattenChildren path (children++[(name,child)])=.ok (front++last) := by
  induction children generalizing front with
  | nil =>
    cases hfront
    have hone := flattenChildren_cons hlast (show flattenChildren path []=.ok [] from rfl)
    rwa [List.append_nil] at hone
  | cons entry rest ih =>
    obtain ⟨entryName,entryNode⟩ := entry
    rw [flattenChildren] at hfront
    obtain ⟨own,hown,hlater⟩ := bind_ok_iff.mp hfront
    obtain ⟨later,hrest,hsame⟩ := bind_ok_iff.mp hlater
    cases hsame
    rw [List.cons_append,List.append_assoc]
    exact flattenChildren_cons hown (ih hrest)

/-- An installed application: its name, its contents and that they fit. -/
def Installed (read : Text → Except String (List UInt8)) (application : Text×Text)
    (entry : Text×FsNode) : Prop :=
  ∃ bytes,read application.1=.ok bytes ∧ bytes.length ≤ maxFileSize ∧
    entry=(application.2,.file bytes)

/-- The loop over applications appends what the kernel writes for their
files below `apps`. -/
theorem foldlM_packApplication {list : List (Text×Text)}
    (hrun : list.foldlM (packApplication targetDir read) out=.ok result) :
    ∃ files body,List.Forall₂ (Installed read) list files ∧
      flattenChildren ['a','p','p','s'] files=.ok body ∧ result=out++body := by
  induction list generalizing out with
  | nil =>
    cases hrun
    exact ⟨[],[],List.Forall₂.nil,rfl,(List.append_nil _).symm⟩
  | cons application rest ih =>
    rw [List.foldlM_cons] at hrun
    obtain ⟨middle,hfirst,hrest⟩ := bind_ok_iff.mp hrun
    obtain ⟨files,body,hfiles,hbody,rfl⟩ := ih hrest
    rw [packApplication] at hfirst
    split at hfirst
    · cases hfirst
    · rename_i bytes hread
      obtain ⟨record,hrecord,rfl⟩ := writeTuwaiqfsRecord_ok_iff.mp hfirst
      refine ⟨(application.2,.file bytes)::files,record++body,
        List.Forall₂.cons ⟨bytes,hread,length_of_writeRecord hrecord,rfl⟩ hfiles,?_,
        List.append_assoc _ _ _⟩
      exact flattenChildren_cons hrecord hbody

/-- The loop over directories appends what the kernel writes for empty
directories below `data`. -/
theorem foldlM_packDirectory {list : List Text} (hrun : list.foldlM packDirectory out=.ok result) :
    ∃ body,flattenChildren ['d','a','t','a'] (list.map fun name => (name,.dir []))=.ok body ∧
      result=out++body := by
  induction list generalizing out with
  | nil =>
    cases hrun
    exact ⟨[],rfl,(List.append_nil _).symm⟩
  | cons directory rest ih =>
    rw [List.foldlM_cons] at hrun
    obtain ⟨middle,hfirst,hrest⟩ := bind_ok_iff.mp hrun
    obtain ⟨body,hbody,rfl⟩ := ih hrest
    obtain ⟨record,hrecord,rfl⟩ := writeTuwaiqfsRecord_ok_iff.mp hfirst
    have hown := @flattenTree_dir (joinPath ['d','a','t','a'] directory) [] record [] rfl hrecord rfl
    rw [List.append_nil] at hown
    exact ⟨record++body,flattenChildren_cons hown hbody,List.append_assoc _ _ _⟩

/-! ## The packaged tree -/

/-- Name of the catalog below `apps`. -/
def catalogName : Text := ['c','a','t','a','l','o','g','.','t','x','t']

/-- The tree of an image with the given files below `apps`. -/
def treeWith (files : Children) : FsNode :=
  .dir [(['a','p','p','s'],.dir (files++[(catalogName,.file catalog)])),
    (['d','a','t','a'],.dir (dataDirectories.map fun name => (name,.dir [])))]

/-- The tree of an image with the given application binaries. -/
def packagedTree (desktop fileManager terminal tuwaiqAi : List UInt8) : FsNode :=
  treeWith [(['d','e','s','k','t','o','p'],.file desktop),
    (['f','i','l','e','-','m','a','n','a','g','e','r'],.file fileManager),
    (['t','e','r','m','i','n','a','l'],.file terminal),
    (['t','u','w','a','i','q','-','a','i'],.file tuwaiqAi)]

/-- The metadata of the builder is what the kernel writes for its tree. -/
theorem packagedMetadata_serializes {blob : List UInt8}
    (hblob : packagedMetadata targetDir read=.ok blob) :
    blob.length ≤ maxMetadataBytes ∧ ∃ files,List.Forall₂ (Installed read) applications files ∧
      serializeTree (treeWith files)=.ok blob := by
  obtain ⟨blob₁,hstart,hblob⟩ := bind_ok_iff.mp hblob
  obtain ⟨blob₂,happlications,hblob⟩ := bind_ok_iff.mp hblob
  obtain ⟨blob₃,hcatalog,hblob⟩ := bind_ok_iff.mp hblob
  obtain ⟨blob₄,hdata,hblob⟩ := bind_ok_iff.mp hblob
  obtain ⟨blob₅,hdirectories,hblob⟩ := bind_ok_iff.mp hblob
  obtain ⟨hfit,rfl⟩ : blob₅.length ≤ maxMetadataBytes ∧ blob₅=blob := by
    split at hblob
    · cases hblob
    · rename_i hfit
      exact ⟨not_lt.mp hfit,Except.ok.inj hblob⟩
  obtain ⟨apps,happs,rfl⟩ := writeTuwaiqfsRecord_ok_iff.mp hstart
  obtain ⟨files,body,hfiles,hbody,rfl⟩ := foldlM_packApplication happlications
  obtain ⟨list,hlist,rfl⟩ := writeTuwaiqfsRecord_ok_iff.mp hcatalog
  obtain ⟨data,hown,rfl⟩ := writeTuwaiqfsRecord_ok_iff.mp hdata
  obtain ⟨below,hbelow,rfl⟩ := foldlM_packDirectory hdirectories
  have hcatalogOwn : flattenTree (joinPath ['a','p','p','s'] catalogName) (.file catalog)=
      .ok list := hlist
  have happsTree := @flattenTree_dir ['a','p','p','s'] _ _ _ rfl happs
    (flattenChildren_concat hbody hcatalogOwn)
  have hdataTree := @flattenTree_dir ['d','a','t','a'] _ _ _ rfl hown hbelow
  have hroot := @flattenChildren_cons [] _ _ _ _ _ happsTree
    (@flattenChildren_cons [] _ _ [] _ _ hdataTree rfl)
  refine ⟨hfit,files,hfiles,?_⟩
  refine bind_ok_iff.mpr ⟨_,bind_ok_iff.mpr ⟨[],rfl,bind_ok_iff.mpr ⟨_,hroot,rfl⟩⟩,?_⟩
  simp only [List.append_assoc,List.nil_append,List.append_nil]
  rfl

/-! ## Sectors -/

/-- Fields written one behind the other into a zeroed buffer. -/
theorem splice_padded {front patch : List UInt8} {offset room : ℕ} (hoffset : front.length=offset) :
    splice (front++List.replicate room 0) offset patch=
      (front++patch)++List.replicate (room-patch.length) 0 := by
  subst hoffset
  rw [splice,List.take_left',List.drop_append,List.drop_eq_nil_of_le (Nat.le_add_right _ _),
    List.nil_append,Nat.add_sub_cancel_left,List.drop_replicate]
  rfl

theorem sector_ext {first second : Sector} (hbytes : first.bytes=second.bytes) : first=second := by
  cases first
  cases second
  exact (Sector.mk.injEq _ _ _ _).mpr hbytes

theorem ofBlob_zero {bytes : List UInt8} (hfit : bytes.length ≤ 512) :
    (Sector.ofBlob bytes 0).bytes=bytes++List.replicate (512-bytes.length) 0 := by
  change chunk 512 bytes 0=_
  rw [chunk_zero,List.take_of_length_le hfit]

theorem imageSuperblock_eq : imageSuperblock=buildSuperblock := by decide +kernel

/-- The header of the builder is the kernel's of generation one. -/
theorem imageHeader_eq (blob : List UInt8) :
    Sector.ofBlob (imageHeader blob) 0=headerSector 1 blob false ∧
      Sector.ofBlob (imageHeader blob++leBytes 4 tuwaiqfsSlotCommitted) 0=
        headerSector 1 blob true := by
  have hlength : (imageHeader blob).length=24 := by
    simp only [imageHeader,List.length_append,length_leBytes]
    rfl
  have hmagic : splice Sector.zero.bytes 0 slotMagic=slotMagic++List.replicate 504 0 :=
    @splice_padded [] slotMagic 0 512 rfl
  have hgeneration := @splice_padded slotMagic (leBytes 8 1) 8 504 rfl
  have hblobLength := @splice_padded (slotMagic++leBytes 8 1) (leBytes 4 blob.length) 16 496 rfl
  have hchecksum := @splice_padded (slotMagic++leBytes 8 1++leBytes 4 blob.length)
    (leBytes 4 (crc32 blob).toNat) 20 492 rfl
  have hfirst : (headerSector 1 blob false).bytes=imageHeader blob++List.replicate 488 0 := by
    change splice (splice (splice (splice Sector.zero.bytes 0 slotMagic) 8 _) 16 _) 20 _=_
    rw [hmagic,hgeneration]
    exact (congrArg (splice · 20 _) hblobLength).trans hchecksum
  have hlast : (headerSector 1 blob true).bytes=
      splice (headerSector 1 blob false).bytes 24 (leBytes 4 slotCommitted) := rfl
  constructor
  · apply sector_ext
    rw [ofBlob_zero (by omega),hfirst,hlength]
  · apply sector_ext
    have hmarked : (imageHeader blob++leBytes 4 tuwaiqfsSlotCommitted).length=28 := by
      rw [List.length_append,hlength,length_leBytes]
    rw [ofBlob_zero (by omega),hlast,hfirst,splice_padded hlength,hmarked,length_leBytes]
    rfl

/-- The sector cut at its own offset is the sector of the blob. -/
theorem ofBlob_slice (blob : List UInt8) (index : ℕ) :
    Sector.ofBlob (slice blob (index*512) (min (blob.length-index*512) 512)) 0=
      Sector.ofBlob blob index := by
  have hlength : (slice blob (index*512) (min (blob.length-index*512) 512)).length ≤ 512 := by
    rw [slice,List.length_take]
    omega
  apply sector_ext
  rw [ofBlob_zero hlength]
  change _=splice (List.replicate 512 0) 0 _
  rw [splice,List.take_zero,List.nil_append,Nat.zero_add,List.drop_replicate]

/-- The payload loop writes the sectors of the blob in order. -/
theorem payloadSectors_eq {blob : List UInt8} {steps index offset : ℕ}
    (hcount : index+steps ≤ (blob.length+511)/512) (hoffset : 0<steps → offset=index*512) :
    payloadSectors blob steps index offset=(List.range steps).map fun step =>
      (slotALba+1+(index+step),Sector.ofBlob blob (index+step)) := by
  induction steps generalizing index offset with
  | zero => rfl
  | succ steps ih =>
    have hstart := hoffset (Nat.succ_pos steps)
    subst hstart
    have hnext : 0<steps → index*512+min (blob.length-index*512) 512=(index+1)*512 := by
      intro hmore
      omega
    rw [payloadSectors,ofBlob_slice,ih (by omega) hnext,List.range_succ_eq_map,List.map_cons,
      List.map_map]
    congr 1
    apply List.map_congr_left
    intro step _
    simp only [Function.comp_apply,Nat.succ_eq_add_one,Nat.add_assoc,Nat.add_comm 1 step]

/-- The image holds a first checkpoint of the metadata and no second one. -/
theorem image_eq_firstCheckpoint {writes : List (ℕ×Sector)}
    (hcreate : createTuwaiqfsApplicationVolume targetDir read=.ok writes) (disk : Disk) :
    ∃ blob,packagedMetadata targetDir read=.ok blob ∧ applyWrites writes disk=
      firstCheckpoint (Function.update disk slotBLba Sector.zero) blob := by
  obtain ⟨blob,hblob,hwrites⟩ := bind_ok_iff.mp hcreate
  cases hwrites
  obtain ⟨hfirst,hlast⟩ := imageHeader_eq blob
  have hpayload := @payloadSectors_eq blob ((blob.length+511)/512) 0 0 (by omega) (fun _ => by omega)
  simp only [Nat.zero_add] at hpayload
  refine ⟨blob,hblob,?_⟩
  have hswap : Function.update (Function.update (Function.update disk superblockLba buildSuperblock)
      slotALba (headerSector 1 blob false)) slotBLba Sector.zero=
      Function.update (Function.update (Function.update disk slotBLba Sector.zero) superblockLba
        buildSuperblock) slotALba (headerSector 1 blob false) := by
    rw [Function.update_comm (by decide : slotALba≠slotBLba),
      Function.update_comm (by decide : superblockLba≠slotBLba)]
  rw [hfirst,hlast,hpayload,imageSuperblock_eq,List.append_assoc,applyWrites_append]
  change applyWrites _ (Function.update (Function.update (Function.update disk superblockLba
    buildSuperblock) slotALba (headerSector 1 blob false)) slotBLba Sector.zero)=_
  rw [hswap]
  rfl

/-! ## What the kernel mounts -/

/-- The names in a packaged tree. -/
def packagedNames : List Text := [['a','p','p','s'],['d','a','t','a'],catalogName]++dataDirectories

/-- They are legal components and short. -/
theorem nameOk_packaged : ∀ name∈packagedNames,NameOk name ∧ len name ≤ 12 := by
  decide +kernel

/-- So they may stand in the root, in `apps` and in `data`. -/
theorem entryOk_packaged {base : ℕ} {name : Text} {node : FsNode} (hbase : base ≤ 4)
    (hname : name∈packagedNames) (hnode : WellFormed (childLength base name) node) :
    EntryOk base (name,node) := by
  obtain ⟨hok,hshort⟩ := nameOk_packaged name hname
  refine ⟨hok,?_,hnode⟩
  change childLength base name ≤ 120
  rw [childLength]
  split <;> omega

/-- A packaged tree is well formed when its files fit. -/
theorem treeOk_packaged {desktop fileManager terminal tuwaiqAi : List UInt8}
    (hsizes : ∀ bytes∈[desktop,fileManager,terminal,tuwaiqAi],bytes.length ≤ maxFileSize) :
    TreeOk (packagedTree desktop fileManager terminal tuwaiqAi) := by
  have hfile : ∀ name∈packagedNames,∀ bytes,bytes.length ≤ maxFileSize →
      EntryOk 4 (name,.file bytes) := by
    intro name hname bytes hsize
    exact entryOk_packaged le_rfl hname (by rwa [WellFormed])
  have happsLength : childLength 0 ['a','p','p','s']=4 := by decide +kernel
  simp only [List.forall_mem_cons] at hsizes
  obtain ⟨hdesktop,hmanager,hterminal,hai,-⟩ := hsizes
  refine ⟨⟨_,rfl⟩,(wellFormed_dir _ _).mpr ⟨by
    simp only [List.map_cons,List.map_nil]; decide +kernel,?_⟩⟩
  simp only [List.forall_mem_cons]
  refine ⟨entryOk_packaged (by decide) (by decide +kernel) ?_,
    entryOk_packaged (by decide) (by decide +kernel) ?_,fun _ h => absurd h List.not_mem_nil⟩
  · rw [happsLength,wellFormed_dir]
    refine ⟨by simp only [List.map_append,List.map_cons,List.map_nil]; decide +kernel,?_⟩
    simp only [List.cons_append,List.nil_append,List.forall_mem_cons]
    exact ⟨hfile _ (by decide +kernel) _ hdesktop,hfile _ (by decide +kernel) _ hmanager,
      hfile _ (by decide +kernel) _ hterminal,hfile _ (by decide +kernel) _ hai,
      hfile _ (by decide +kernel) _ (by decide +kernel),fun _ h => absurd h List.not_mem_nil⟩
  · decide +kernel

/-- What the builder read for the four applications. -/
structure Reads (read : Text → Except String (List UInt8))
    (desktop fileManager terminal tuwaiqAi : List UInt8) : Prop where
  /-- The binary `desktop`. -/
  desktop : read ['d','e','s','k','t','o','p']=.ok desktop
  /-- The binary `file_manager`. -/
  fileManager : read ['f','i','l','e','_','m','a','n','a','g','e','r']=.ok fileManager
  /-- The binary `terminal`. -/
  terminal : read ['t','e','r','m','i','n','a','l']=.ok terminal
  /-- The binary `tuwaiq_ai`. -/
  tuwaiqAi : read ['t','u','w','a','i','q','_','a','i']=.ok tuwaiqAi

/-- The files of the image are the four binaries. -/
theorem installed_applications {files : Children}
    (hfiles : List.Forall₂ (Installed read) applications files) :
    ∃ desktop fileManager terminal tuwaiqAi,Reads read desktop fileManager terminal tuwaiqAi ∧
      (∀ bytes∈[desktop,fileManager,terminal,tuwaiqAi],bytes.length ≤ maxFileSize) ∧
      treeWith files=packagedTree desktop fileManager terminal tuwaiqAi := by
  rw [applications] at hfiles
  obtain ⟨_,_,⟨desktop,hdesktop,hsize₁,rfl⟩,hrest₁,rfl⟩ := List.forall₂_cons_left_iff.mp hfiles
  obtain ⟨_,_,⟨fileManager,hmanager,hsize₂,rfl⟩,hrest₂,rfl⟩ :=
    List.forall₂_cons_left_iff.mp hrest₁
  obtain ⟨_,_,⟨terminal,hterminal,hsize₃,rfl⟩,hrest₃,rfl⟩ := List.forall₂_cons_left_iff.mp hrest₂
  obtain ⟨_,_,⟨tuwaiqAi,hai,hsize₄,rfl⟩,hrest₄,rfl⟩ := List.forall₂_cons_left_iff.mp hrest₃
  cases List.forall₂_nil_left_iff.mp hrest₄
  refine ⟨desktop,fileManager,terminal,tuwaiqAi,⟨hdesktop,hmanager,hterminal,hai⟩,?_,rfl⟩
  simp only [List.forall_mem_cons]
  exact ⟨hsize₁,hsize₂,hsize₃,hsize₄,fun _ h => absurd h List.not_mem_nil⟩

/-- A sync of `root` under the given fates wrote the second slot only, with
generation two. -/
structure SyncsSlotB (root : FsNode) (fates : List WriteFate)
    (run : Except String Unit×FsMachine) : Prop where
  /-- All its writes are inside the second slot. -/
  inside : ∀ write∈run.2.written,InSlot 1 write.1
  /-- They are the first writes of a checkpoint of generation two. -/
  checkpoint : ∀ blob,serializeTree root=.ok blob → run.2.written <+: checkpointWrites 1 2 blob
  /-- A sync that succeeds wrote all of it and made it current. -/
  complete : run.1=.ok () → run.2.memory.activeSlot=1 ∧ run.2.memory.generation=2 ∧
    ∃ blob,serializeTree root=.ok blob ∧ run.2.written=checkpointWrites 1 2 blob
  /-- Without disk errors it succeeds when the tree fits the slot. -/
  succeeds : fates=[] → ∀ blob,serializeTree root=.ok blob → blob.length ≤ maxMetadataBytes →
    run.1=.ok ()

/-- A volume that is mounted from generation one of the first slot syncs to
the second slot. -/
theorem syncsSlotB {machine : FsMachine} (hversion : machine.memory.formatVersion=version)
    (hactive : machine.memory.activeSlot=0) (hgeneration : machine.memory.generation=1)
    (hwritten : machine.written=[]) {fates : List WriteFate} (hfates : machine.fates=fates)
    (root : FsNode) : SyncsSlotB root fates (Routine.perform (syncTree root) machine) := by
  have hwrites : ∀ blob,syncWrites machine.memory blob=checkpointWrites 1 2 blob := by
    intro blob
    rw [syncWrites,if_pos hversion,List.append_nil,hactive,hgeneration]
    rfl
  rcases hplan : planned root machine.memory with reason|⟨blob,generation,target⟩
  · rw [perform_syncTree_error hplan]
    refine ⟨?_,?_,?_,?_⟩
    · rw [hwritten]
      exact fun _ h => absurd h List.not_mem_nil
    · rw [hwritten]
      exact fun blob _ => List.nil_prefix
    · intro h
      cases h
    · intro _ blob hblob hfit
      have hready := planned_ok.mpr ⟨hblob,hfit,by rw [hgeneration]; norm_num,rfl,rfl⟩
      rw [hplan] at hready
      cases hready
  · obtain ⟨hblob,hfit,-,-,-⟩ := planned_ok.mp hplan
    rcases hlanding : Routine.landing machine.fates (syncWrites machine.memory blob).length with
      ⟨answer,landed⟩
    obtain ⟨left,hrun⟩ := perform_syncTree_faults hversion hplan hlanding
    have hcut : ∃ count,(Routine.perform (syncTree root) machine).2.written=
        (checkpointWrites 1 2 blob).take count := by
      rw [hrun]
      cases answer with
      | error reason =>
        refine ⟨landed,?_⟩
        change machine.written++(syncWrites machine.memory blob).take landed=_
        rw [hwritten,hwrites,List.nil_append]
      | ok _ =>
        refine ⟨(checkpointWrites 1 2 blob).length,?_⟩
        change machine.written++syncWrites machine.memory blob=_
        rw [hwritten,hwrites,List.nil_append,List.take_length]
    obtain ⟨count,hcount⟩ := hcut
    refine ⟨?_,?_,?_,?_⟩
    · intro write hwrite
      rw [hcount] at hwrite
      exact checkpointWrites_address hfit (List.mem_of_mem_take hwrite)
    · intro other hother
      rw [hblob] at hother
      cases hother
      rw [hcount]
      exact List.take_prefix _ _
    · intro hok
      rw [hrun] at hok ⊢
      change answer=.ok () at hok
      subst hok
      refine ⟨?_,?_,blob,hblob,?_⟩
      · change other machine.memory.activeSlot=1
        rw [hactive]
        rfl
      · change machine.memory.generation+1=2
        rw [hgeneration]
      · change machine.written++syncWrites machine.memory blob=_
        rw [hwritten,hwrites,List.nil_append]
    · intro hnone _ _ _
      rw [perform_syncTree_ok (hfates.trans hnone) hplan]

/-- Whenever the builder succeeds, the kernel mounts exactly the packaged
tree from generation one of the first slot, and the next sync writes
generation two to the second slot. -/
theorem packaged_volume_mounts {targetDir : String} {read : Text → Except String (List UInt8)}
    {writes : List (ℕ×Sector)}
    (hcreate : createTuwaiqfsApplicationVolume targetDir read=.ok writes) (disk : Disk) :
    ∃ desktop fileManager terminal tuwaiqAi mounted,
      Reads read desktop fileManager terminal tuwaiqAi ∧
      Routine.perform mount (boot (applyWrites writes disk))=
        (.ok (packagedTree desktop fileManager terminal tuwaiqAi),mounted) ∧
      mounted.disk=applyWrites writes disk ∧ mounted.memory.activeSlot=0 ∧
      mounted.memory.generation=1 ∧
      ∀ fs writerActive fates root,SyncsSlotB root fates (Routine.perform (syncTree root)
        {mounted with memory := {mounted.memory with fs := fs,writerActive := writerActive},
                      fates := fates}) := by
  obtain ⟨blob,hblob,hdisk⟩ := image_eq_firstCheckpoint hcreate disk
  obtain ⟨hfit,files,hfiles,hserialize⟩ := packagedMetadata_serializes hblob
  obtain ⟨desktop,fileManager,terminal,tuwaiqAi,hreads,hsizes,htreeWith⟩ :=
    installed_applications hfiles
  rw [htreeWith] at hserialize
  have htree := treeOk_packaged hsizes
  obtain ⟨hlong,hpayload⟩ := decodePayload_serializeTree hserialize
  have hdecode : decodePayload blob=some (packagedTree desktop fileManager terminal tuwaiqAi) := by
    have hfew : descendants (packagedTree desktop fileManager terminal tuwaiqAi)=11 := rfl
    obtain ⟨other,hother,hback⟩ := (roundTrips_iff htree).mpr (by rw [hfew]; decide)
    have hsame : blob=other := Except.ok.inj (hserialize.symm.trans hother)
    rw [hpayload,hsame,hback]
    rfl
  obtain ⟨hsuper,hpick⟩ := firstCheckpoint_current (Function.update_self slotBLba Sector.zero disk)
    (by omega) hfit hdecode
  rw [← hdisk] at hsuper hpick
  have hmount := @perform_mount_v3 (boot (applyWrites writes disk)) hsuper
  rw [show pick (slotValue (boot (applyWrites writes disk)).disk)=_ from hpick] at hmount
  refine ⟨desktop,fileManager,terminal,tuwaiqAi,_,hreads,hmount,rfl,rfl,rfl,?_⟩
  intro fs writerActive fates root
  apply syncsSlotB <;> rfl

/-- Four small binaries. -/
def sampleBinaries (name : Text) : Except String (List UInt8) :=
  .ok [0x7F,0x45,0x4C,0x46,UInt8.ofNat name.length]

/-- Their image exists and mounts on a zeroed disk. -/
theorem packaged_volume_mounts_sample :
    ∃ writes,createTuwaiqfsApplicationVolume "target" sampleBinaries=.ok writes ∧
      ∃ desktop fileManager terminal tuwaiqAi mounted,
        Reads sampleBinaries desktop fileManager terminal tuwaiqAi ∧
        Routine.perform mount (boot (applyWrites writes zeroDisk))=
          (.ok (packagedTree desktop fileManager terminal tuwaiqAi),mounted) := by
  have hsome : (createTuwaiqfsApplicationVolume "target" sampleBinaries).isOk=true := by
    decide +kernel
  rcases hcreate : createTuwaiqfsApplicationVolume "target" sampleBinaries with reason|writes
  · rw [hcreate] at hsome
    cases hsome
  · obtain ⟨desktop,fileManager,terminal,tuwaiqAi,mounted,hreads,hmount,-⟩ :=
      packaged_volume_mounts hcreate zeroDisk
    exact ⟨writes,rfl,desktop,fileManager,terminal,tuwaiqAi,mounted,hreads,hmount⟩

end TuwaiqOS.ApplicationVolume
