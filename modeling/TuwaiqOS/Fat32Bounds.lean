import TuwaiqOS.Fat32

/-!
# FAT32 reads stay inside the volume

`mount` checks relations between fields that the disk determines freely. They
are what the unchecked arithmetic of the later operations relies on: every
lookup stays in the file allocation table, every access to a cluster in the
data region, and the error branches that guard against the contrary are never
taken, whatever the disk answers and however its cluster chains are linked.
-/

namespace TuwaiqOS.Fat32Bounds

open Utf8Text ByteFields FallibleSteps DeviceProgram Checkpoint Fat32

/-! ## Single steps -/

variable {a b start cluster : ℕ} {bytes raw : List UInt8} {entries : List DirectoryEntry}

section

variable {failure : Fault → Prop} {allowed : ReadSector → Prop}

theorem outcome_add (hfit : a+b<2^32) : Outcome failure (·=a+b) (add a b) := by
  rw [add,if_pos hfit]
  rfl

theorem outcome_sub (hle : b ≤ a) : Outcome failure (·=a-b) (sub a b) := by
  rw [sub,if_pos hle]
  rfl

theorem outcome_checkedAdd {reason : String} (hreason : 2^32 ≤ a+b → failure (.error reason)) :
    Outcome failure (fun value => value=a+b ∧ a+b<2^32) (checkedAdd reason a b) := by
  rw [checkedAdd]
  split_ifs with hfit
  · exact ⟨rfl,hfit⟩
  · exact hreason (Nat.not_lt.mp hfit)

theorem outcome_checkedMul {reason : String} (hreason : 2^32 ≤ a*b → failure (.error reason)) :
    Outcome failure (fun value => value=a*b ∧ a*b<2^32) (checkedMul reason a b) := by
  rw [checkedMul]
  split_ifs with hfit
  · exact ⟨rfl,hfit⟩
  · exact hreason (Nat.not_lt.mp hfit)

theorem outcome_byteAt {index : ℕ} (hindex : index<bytes.length) :
    Outcome failure (fun _ => True) (byteAt bytes index) := by
  rw [byteAt,List.getElem?_eq_getElem hindex]
  trivial

theorem outcome_sliceOf {stop : ℕ} (hstart : start ≤ stop) (hstop : stop≤bytes.length) :
    Outcome failure (fun part => part.length=stop-start) (sliceOf bytes start stop) := by
  rw [sliceOf,if_pos ⟨hstart,hstop⟩]
  exact length_slice (by omega)

theorem outcome_leAt {width : ℕ} (hfit : start+width≤bytes.length) :
    Outcome failure (·<256^width) (leAt bytes start width) := by
  refine outcome_bind (outcome_sliceOf (by omega) hfit) fun field hfield => ?_
  have hlt := leValue_lt field
  rw [hfield,Nat.add_sub_cancel_left] at hlt
  exact hlt

theorem guarded_readSector {purpose : Purpose} {lba : ℕ} (hallowed : allowed ⟨purpose,lba⟩)
    (hdevice : ∀ reason,failure (.device reason)) :
    Guarded allowed failure (fun _ => True) (readSector purpose lba) := by
  refine ⟨hallowed,fun answer => ?_⟩
  cases answer with
  | error reason => exact hdevice reason
  | ok sector => trivial

theorem guarded_tryReadSector {purpose : Purpose} {lba : ℕ} (hallowed : allowed ⟨purpose,lba⟩) :
    Guarded allowed failure (fun _ => True) (tryReadSector purpose lba) :=
  ⟨hallowed,fun _ => trivial⟩

end

/-! ## What a mounted volume satisfies -/

/-- The relations between the fields that `mount` has checked. -/
structure Geometry (volume : Fat32Volume) : Prop where
  /-- Numbers of clusters are 32-bit numbers. -/
  clusters : volume.clusterCount+2<2^32
  /-- The table has an entry for each cluster. -/
  entries : volume.clusterCount+2≤volume.fatSectors*128
  /-- The table ends before the clusters. -/
  table : volume.fatStart+volume.fatSectors≤volume.dataStart
  /-- All clusters are inside the volume. -/
  data : volume.dataStart+volume.clusterCount*volume.sectorsPerCluster ≤
    volume.partitionStart+volume.partitionSectors
  /-- The volume ends at a 32-bit sector number. -/
  fits : volume.partitionStart+volume.partitionSectors<2^32
  /-- A cluster has sectors. -/
  perCluster : 0<volume.sectorsPerCluster
  /-- The root directory starts at a 28-bit cluster number. -/
  root : volume.rootCluster<2^28

/-- A fault that the source returns as an error. -/
def Returned (fault : Fault) : Prop := fault≠.overflow ∧ fault≠.outOfRange

theorem returned_error (reason : String) : Returned (.error reason) :=
  ⟨Fault.noConfusion,Fault.noConfusion⟩

theorem land_clusterMask_lt (value : ℕ) : value&&&clusterMask<2^28 := by
  have hle : value&&&clusterMask ≤ clusterMask := Nat.and_le_right
  have hmask : clusterMask<2^28 := by decide
  omega

/-- The arithmetic of the checks of `mount`. -/
theorem geometry_of_checks {reserved fatCount fatSectors total perCluster root : ℕ}
    (hcount : fatCount≠0) (hper : perCluster≠0) (hdata : reserved+fatCount*fatSectors<total)
    (htotal : total<2^32)
    (htable : (total-(reserved+fatCount*fatSectors))/perCluster+2 ≤ fatSectors*128)
    (hfits : start+total<2^32) (hroot : root<2^28) :
    Geometry ⟨start,total,perCluster,start+reserved,fatSectors,
      start+(reserved+fatCount*fatSectors),root,
      (total-(reserved+fatCount*fatSectors))/perCluster⟩ := by
  have harea : fatSectors ≤ fatCount*fatSectors :=
    Nat.le_mul_of_pos_left fatSectors (Nat.pos_of_ne_zero hcount)
  have hclusters := Nat.div_mul_le_self (total-(reserved+fatCount*fatSectors)) perCluster
  have hquotient := Nat.div_le_self (total-(reserved+fatCount*fatSectors)) perCluster
  refine ⟨?_,htable,?_,?_,hfits,Nat.pos_of_ne_zero hper,hroot⟩ <;> dsimp only <;> omega

/-- What the checks on the boot sector establish. -/
theorem outcome_volumeOf {sectors : ℕ} {bpb : List UInt8} (hlength : bpb.length=512) :
    Outcome Returned (fun volume => Geometry volume ∧ fat32MinClusters≤volume.clusterCount)
      (volumeOf start sectors bpb) := by
  rw [volumeOf]
  refine outcome_bind (outcome_byteAt (by omega)) fun first _ => ?_
  refine outcome_bind (outcome_byteAt (by omega)) fun second _ => ?_
  refine outcome_bind (outcome_leAt (by omega)) fun sectorBytes _ => ?_
  split_ifs with hsignature
  · exact returned_error _
  refine outcome_bind (outcome_byteAt (by omega)) fun clusterByte _ => ?_
  refine outcome_bind (outcome_leAt (by omega)) fun reserved _ => ?_
  refine outcome_bind (outcome_byteAt (by omega)) fun fatByte _ => ?_
  refine outcome_bind (outcome_leAt (by omega)) fun rootEntries _ => ?_
  refine outcome_bind (outcome_leAt (by omega)) fun total htotal => ?_
  refine outcome_bind (outcome_leAt (by omega)) fun fatSectors _ => ?_
  refine outcome_bind (outcome_leAt (by omega)) fun rootField _ => ?_
  dsimp only
  split_ifs with hgeometry
  · exact returned_error _
  push Not at hgeometry
  obtain ⟨hper,-,-,hcount,-,-,-,-,-⟩ := hgeometry
  refine outcome_bind (outcome_checkedMul fun _ => returned_error _) fun fatArea harea => ?_
  refine outcome_bind (outcome_checkedAdd fun _ => returned_error _) fun relative hrelative => ?_
  obtain ⟨rfl,-⟩ := harea
  obtain ⟨rfl,-⟩ := hrelative
  split_ifs with hdata
  · exact returned_error _
  refine outcome_bind (outcome_sub (by omega)) fun dataSectors hsectors => ?_
  subst hsectors
  split_ifs with hmin htable
  · exact returned_error _
  · exact returned_error _
  have hsmall := Nat.div_le_self (total-(reserved+fatByte.toNat*fatSectors)) clusterByte.toNat
  have hsome : fatSectors ≤ fatByte.toNat*fatSectors :=
    Nat.le_mul_of_pos_left fatSectors (Nat.pos_of_ne_zero hcount)
  refine outcome_bind (outcome_add (by omega)) fun clusterEnd _ => ?_
  split_ifs with hroot
  · exact returned_error _
  refine outcome_bind (outcome_checkedAdd fun _ => returned_error _) fun fatStart hstart => ?_
  refine outcome_bind (outcome_checkedAdd fun _ => returned_error _) fun dataStart hdatas => ?_
  refine outcome_bind (outcome_checkedAdd fun _ => returned_error _) fun _ hend => ?_
  obtain ⟨rfl,-⟩ := hstart
  obtain ⟨rfl,-⟩ := hdatas
  exact ⟨geometry_of_checks hcount hper (by omega) (by omega) (by omega) hend.2
    (land_clusterMask_lt _),Nat.not_lt.mp hmin⟩

theorem guarded_partitionAt {mbr : List UInt8} (hlength : mbr.length=512) {index : ℕ}
    (hindex : index<4) :
    Guarded (fun _ => True) Returned (fun _ => True) (partitionAt mbr index) := by
  have hoffset : mbrPartitionOffset+index*16+16 ≤ 512 := by
    rw [mbrPartitionOffset]
    omega
  rw [partitionAt]
  refine guarded_bind (guarded_settled (outcome_byteAt (by omega))) fun partitionType _ => ?_
  split_ifs with htype
  · refine guarded_bind (guarded_settled (outcome_leAt (by omega))) fun start _ => ?_
    refine guarded_bind (guarded_settled (outcome_leAt (by omega))) fun sectors _ => ?_
    split_ifs with hused
    · refine guarded_bind (guarded_tryReadSector trivial) fun answer _ => ?_
      cases answer with
      | none => exact guarded_pure trivial
      | some candidate =>
        have hsector := candidate.length
        have hlooks : Outcome Returned (fun _ => True) (looksLikeFat32 candidate.bytes) :=
          outcome_bind (outcome_leAt (by omega)) fun _ _ =>
            outcome_bind (outcome_leAt (by omega)) fun _ _ =>
              outcome_bind (outcome_leAt (by omega)) fun _ _ => trivial
        exact guarded_bind (guarded_settled hlooks) fun found _ => guarded_pure trivial
    · exact guarded_pure trivial
  · exact guarded_pure trivial

theorem guarded_findPartition {mbr : List UInt8} (hlength : mbr.length=512) {indices : List ℕ}
    (hindices : ∀ index∈indices,index<4) :
    Guarded (fun _ => True) Returned (fun _ => True) (findPartition mbr indices) := by
  induction indices with
  | nil => exact guarded_pure trivial
  | cons index rest ih =>
    obtain ⟨hindex,hrest⟩ := List.forall_mem_cons.mp hindices
    refine guarded_bind (guarded_partitionAt hlength hindex) fun partition _ => ?_
    cases partition with
    | none => exact ih hrest
    | some found => exact guarded_pure trivial

/-- `mount` neither overflows nor leaves a buffer, and a volume that it
returns has the geometry it checked, whatever the disk holds. -/
theorem guarded_mount : Guarded (fun _ => True) Returned
    (fun volume => Geometry volume ∧ fat32MinClusters≤volume.clusterCount) mount := by
  have hdevice : ∀ reason,Returned (.device reason) := fun reason =>
    ⟨Fault.noConfusion,Fault.noConfusion⟩
  refine guarded_bind (guarded_readSector trivial hdevice) fun mbr _ => ?_
  have hlength := mbr.length
  refine guarded_bind (guarded_settled (outcome_byteAt (by omega))) fun first _ => ?_
  refine guarded_bind (guarded_settled (outcome_byteAt (by omega))) fun second _ => ?_
  split_ifs with hsignature
  · exact guarded_throw (returned_error _)
  refine guarded_bind (guarded_findPartition hlength fun index hindex =>
    List.mem_range.mp hindex) fun partition _ => ?_
  cases partition with
  | none => exact guarded_throw (returned_error _)
  | some found =>
    refine guarded_bind (guarded_readSector trivial hdevice) fun bpb _ => ?_
    exact guarded_settled (outcome_volumeOf bpb.length)

/-- Whatever the disk answers to each read, `mount` neither overflows nor
leaves a sector, and a volume that it returns has the geometry it checked. -/
theorem mount_checked (device : List ReadSector → ReadSector → Except String Sector) :
    Outcome Returned (fun volume => Geometry volume ∧ fat32MinClusters≤volume.clusterCount)
      (mount.run.play device []).1 :=
  (guarded_mount.play device (by simp)).1

/-! ## Operations on a mounted volume -/

/-- Errors of branches that a mounted volume does not reach. -/
def unreachable : List String :=
  ["FAT32: FAT lookup outside table","FAT32: cluster LBA overflow",
    "FAT32: data LBA outside partition","FAT32: FAT offset overflow","FAT32: data LBA overflow",
    "FAT32: partition end overflow","FAT32: cluster count overflow"]

/-- A failure of the device or an error of a branch that can be reached. -/
def Reported : Fault → Prop
  | .error reason => reason∉unreachable
  | .device _ => True
  | .overflow => False
  | .outOfRange => False

theorem reported {reason : String} (hreason : reason∉unreachable) : Reported (.error reason) :=
  hreason

/-- The sector lies in the part of the volume it is read for. -/
def InRegion (volume : Fat32Volume) (access : ReadSector) : Prop :=
  match access.purpose with
  | .boot => False
  | .table => volume.fatStart≤access.lba ∧ access.lba<volume.fatStart+volume.fatSectors
  | .data => volume.dataStart≤access.lba ∧
    access.lba<volume.partitionStart+volume.partitionSectors

/-- A cluster of the volume with a 28-bit number. -/
structure Cluster (volume : Fat32Volume) (cluster : ℕ) : Prop where
  /-- Clusters are numbered from 2. -/
  first : 2 ≤ cluster
  /-- There is such a cluster. -/
  last : cluster<volume.clusterCount+2
  /-- The number has 28 bits. -/
  small : cluster<2^28

section

variable {volume : Fat32Volume} (hvolume : Geometry volume)

include hvolume

theorem outcome_validateCluster (hsmall : cluster<2^28) :
    Outcome Reported (fun _ => Cluster volume cluster) (validateCluster volume cluster) := by
  rw [validateCluster]
  split_ifs with hfirst
  · exact reported (by decide)
  · refine outcome_bind (outcome_add hvolume.clusters) fun clusterEnd hend => ?_
    subst hend
    split_ifs with hlast
    · exact reported (by decide)
    · exact ⟨by omega,by omega,hsmall⟩

/-- All sectors of a cluster are inside the data region. -/
theorem outcome_clusterLba (hcluster : Cluster volume cluster) :
    Outcome Reported (fun lba => volume.dataStart≤lba ∧
      lba+volume.sectorsPerCluster≤volume.partitionStart+volume.partitionSectors)
      (clusterLba volume cluster) := by
  have hroom : (cluster-2)*volume.sectorsPerCluster+volume.sectorsPerCluster ≤
      volume.clusterCount*volume.sectorsPerCluster := by
    rw [← Nat.succ_mul]
    exact Nat.mul_le_mul_right _ (by have := hcluster.first; have := hcluster.last; omega)
  have hdata := hvolume.data
  have hfits := hvolume.fits
  have hper := hvolume.perCluster
  refine outcome_bind (outcome_validateCluster hvolume hcluster.small) fun _ _ => ?_
  refine outcome_bind (outcome_sub hcluster.first) fun index hindex => ?_
  subst hindex
  refine outcome_bind (outcome_checkedMul fun hlarge => by omega) fun relative hrelative => ?_
  obtain ⟨rfl,-⟩ := hrelative
  refine outcome_bind (outcome_checkedAdd fun hlarge => by omega) fun lba hlba => ?_
  obtain ⟨rfl,-⟩ := hlba
  refine outcome_bind (outcome_checkedAdd fun hlarge => by omega) fun partitionEnd hend => ?_
  obtain ⟨rfl,-⟩ := hend
  split_ifs with hinside
  · omega
  · exact ⟨by omega,by omega⟩

/-- The lookup of a cluster stays in the table, and the chain goes on with a
cluster of the volume. -/
theorem guarded_nextCluster (hcluster : Cluster volume cluster) :
    Guarded (InRegion volume) Reported (fun next => ∀ following,next=some following →
      Cluster volume following) (nextCluster volume cluster) := by
  have hentries := hvolume.entries
  have hlast := hcluster.last
  have hsmall := hcluster.small
  have htable : cluster*4/512<volume.fatSectors := by omega
  rw [nextCluster]
  refine guarded_bind (guarded_settled (outcome_validateCluster hvolume hsmall)) fun _ _ => ?_
  refine guarded_bind (guarded_settled (outcome_checkedMul fun hlarge => by omega))
    fun byteOffset hoffset => ?_
  obtain ⟨rfl,-⟩ := hoffset
  dsimp only
  split_ifs with houtside
  · omega
  have hstart := hvolume.table
  have hdata := hvolume.data
  have hfits := hvolume.fits
  refine guarded_bind (guarded_settled (outcome_add (by omega))) fun lba hlba => ?_
  subst hlba
  have hregion : InRegion volume ⟨.table,volume.fatStart+cluster*4/512⟩ :=
    ⟨Nat.le_add_right _ _,Nat.add_lt_add_left htable _⟩
  refine guarded_bind (guarded_readSector hregion fun _ => trivial) fun sector _ => ?_
  refine guarded_bind (guarded_settled (outcome_leAt (by rw [sector.length]; omega)))
    fun found _ => ?_
  split_ifs with hend hbad
  · exact guarded_pure (by simp)
  · exact guarded_throw (reported (by decide))
  · refine guarded_bind (guarded_settled (outcome_validateCluster hvolume
      (land_clusterMask_lt found))) fun _ hnext => ?_
    refine guarded_pure fun following hsome => ?_
    cases hsome
    exact hnext

end

/-! ### Directories -/

/-- The entries of a directory start at 28-bit cluster numbers. -/
def Small (entries : List DirectoryEntry) : Prop := ∀ entry∈entries,entry.firstCluster<2^28

theorem trimmedLength_le (bytes : List UInt8) : trimmedLength bytes≤bytes.length := by
  have hle := (List.dropWhile_sublist (l := bytes.reverse) (·=0x20)).length_le
  rw [List.length_reverse] at hle
  exact hle

/-- Only printable characters are accepted. -/
theorem outcome_shortCharacter (byte : UInt8) :
    Outcome Reported (fun char => hasControlByte [char]=false) (shortCharacter byte) := by
  have hprintable : ∀ value : Fin 256,0x21 ≤ value.val → value.val≤0x7E →
      hasControlByte [Char.ofNat value.val]=false := by decide +kernel
  refine outcome_ite (fun _ => reported (by decide)) fun hallowed => ?_
  have hrange : 0x21 ≤ byte ∧ byte≤0x7E := by
    by_contra hrange
    exact hallowed (Or.inl hrange)
  rw [UInt8.le_iff_toNat_le,UInt8.le_iff_toNat_le] at hrange
  exact hprintable ⟨byte.toNat,byte.toNat_lt⟩ hrange.1 hrange.2

theorem outcome_shortComponent (bytes : List UInt8) :
    Outcome Reported (fun text => hasControlByte text=false) (shortComponent bytes) := by
  refine outcome_bind (outcome_sliceOf (Nat.zero_le _) (trimmedLength_le bytes))
    fun used hused => ?_
  clear hused
  induction used with
  | nil => exact rfl
  | cons byte used ih =>
    rw [List.mapM_cons]
    refine outcome_bind (outcome_shortCharacter byte) fun char hchar => ?_
    refine outcome_bind ih fun text htext => ?_
    show hasControlByte ([char]++text)=false
    rw [hasControlByte_append,hchar,htext]
    rfl

theorem outcome_shortExtension (hlength : raw.length=32) :
    Outcome Reported (fun text => hasControlByte text=false) (shortExtension raw) := by
  refine outcome_bind (outcome_sliceOf (by decide) (by omega)) fun extensionBytes hextension => ?_
  have htrimmed := trimmedLength_le extensionBytes
  refine outcome_ite (fun _ => ?_) fun _ => rfl
  refine outcome_bind (outcome_sliceOf (by omega) (by omega)) fun used _ => ?_
  refine outcome_bind (outcome_shortComponent used) fun characters hcharacters => ?_
  show hasControlByte (['.']++characters)=false
  rw [hasControlByte_append,hcharacters]
  decide

theorem outcome_decodeEntry (hlength : raw.length=32) :
    Outcome Reported (fun entry => entry.firstCluster<2^28 ∧ hasControlByte entry.name=false)
      (decodeEntry raw) := by
  refine outcome_bind (outcome_sliceOf (Nat.zero_le _) (by omega)) fun baseBytes _ => ?_
  refine outcome_bind (outcome_shortComponent baseBytes) fun base hbase => ?_
  refine outcome_bind (outcome_shortExtension hlength) fun extension hextension => ?_
  have hname : hasControlByte (base++extension)=false := by
    rw [hasControlByte_append,hbase,hextension]
    rfl
  refine outcome_ite (fun _ => reported (by decide)) fun _ => ?_
  refine outcome_bind (outcome_leAt (by omega)) fun high _ => ?_
  refine outcome_bind (outcome_leAt (by omega)) fun low _ => ?_
  refine outcome_bind (outcome_byteAt (by omega)) fun attributes _ => ?_
  refine outcome_ite (fun _ => reported (by decide)) fun _ => ?_
  exact outcome_bind (outcome_leAt (by omega)) fun _ _ => ⟨land_clusterMask_lt _,hname⟩

theorem length_of_mem_records {sector : Sector} (hraw : raw∈records sector) : raw.length=32 := by
  obtain ⟨index,hindex,rfl⟩ := List.mem_map.mp hraw
  have hlt := List.mem_range.mp hindex
  exact length_slice (by rw [sector.length]; omega)

/-- A scan keeps what holds of every record that can be decoded. -/
theorem outcome_scanRecords {failure : Fault → Prop} {keep : DirectoryEntry → Prop}
    (hlimit : failure (.error "FAT32: directory entry limit exceeded"))
    (hdecode : ∀ {raw},raw.length=32 → Outcome failure keep (decodeEntry raw))
    {raws : List (List UInt8)} (hraws : ∀ raw∈raws,raw.length=32)
    (hentries : ∀ entry∈entries,keep entry) :
    Outcome failure (fun scan => ∀ entry∈scan.entries,keep entry) (scanRecords raws entries) := by
  induction raws generalizing entries with
  | nil => exact hentries
  | cons raw rest ih =>
    obtain ⟨hraw,hrest⟩ := List.forall_mem_cons.mp hraws
    rw [scanRecords]
    refine outcome_bind (outcome_byteAt (by omega)) fun first _ => ?_
    refine outcome_ite (fun _ => hentries) fun _ => ?_
    refine outcome_bind (outcome_byteAt (by omega)) fun attributes _ => ?_
    refine outcome_ite (fun _ => ih hrest hentries) fun _ => ?_
    refine outcome_bind (outcome_sliceOf (by decide) (by omega)) fun nameField _ => ?_
    refine outcome_ite (fun _ => ih hrest hentries) fun _ => ?_
    refine outcome_ite (fun _ => hlimit) fun _ => ?_
    refine outcome_bind (hdecode hraw) fun entry hentry => ih hrest ?_
    intro other hother
    rcases List.mem_append.mp hother with hold|hnew
    · exact hentries other hold
    · rw [List.mem_singleton.mp hnew]
      exact hentry

/-- The sectors of a cluster that are still to be read are in the data
region. -/
structure Sectors (volume : Fat32Volume) (firstLba index count : ℕ) : Prop where
  /-- The cluster starts in the region. -/
  start : volume.dataStart≤firstLba
  /-- It ends in the region. -/
  stop : firstLba+index+count≤volume.partitionStart+volume.partitionSectors

section

variable {volume : Fat32Volume} {firstLba index count : ℕ}

theorem Sectors.inRegion (hsectors : Sectors volume firstLba index (count+1)) :
    InRegion volume ⟨.data,firstLba+index⟩ := by
  have hstart := hsectors.start
  have hstop := hsectors.stop
  exact ⟨by dsimp only; omega,by dsimp only; omega⟩

theorem Sectors.next (hsectors : Sectors volume firstLba index (count+1)) :
    Sectors volume firstLba (index+1) count :=
  ⟨hsectors.start,by have hstop := hsectors.stop; omega⟩

variable (hvolume : Geometry volume)

include hvolume

theorem Sectors.lt (hsectors : Sectors volume firstLba index (count+1)) : firstLba+index<2^32 := by
  have hstop := hsectors.stop
  have hfits := hvolume.fits
  omega

theorem guarded_scanSectors (hsectors : Sectors volume firstLba index count)
    (hentries : Small entries) : Guarded (InRegion volume) Reported (fun scan => Small scan.entries)
      (scanSectors firstLba count index entries) := by
  induction count generalizing index entries with
  | zero => exact guarded_pure hentries
  | succ count ih =>
    rw [scanSectors]
    refine guarded_bind (guarded_settled (outcome_add (hsectors.lt hvolume))) fun lba hlba => ?_
    subst hlba
    refine guarded_bind (guarded_readSector hsectors.inRegion fun _ => trivial) fun sector _ => ?_
    refine guarded_bind (guarded_settled (outcome_scanRecords (reported (by decide))
      (fun hlength => (outcome_decodeEntry hlength).imp (fun _ => id) fun _ => And.left)
      (fun _ => length_of_mem_records) hentries)) fun scan hscan => ?_
    cases scan with
    | finished found => exact guarded_pure hscan
    | more found => exact ih hsectors.next hscan

/-- The chain of a directory is followed for at most as many steps as there
are clusters; every step stays inside the volume. -/
theorem guarded_readDirectoryFrom {visited : ℕ} (hvisited : visited≤volume.clusterCount)
    (hcluster : Cluster volume cluster) (hentries : Small entries) :
    Guarded (InRegion volume) Reported Small (readDirectoryFrom volume visited cluster entries) := by
  induction hleft : volume.clusterCount-visited using Nat.strong_induction_on
    generalizing visited cluster entries with
  | _ left ih =>
    have hclusters := hvolume.clusters
    rw [readDirectoryFrom]
    split_ifs with hcount hloop
    · omega
    · exact guarded_throw (reported (by decide))
    refine guarded_bind (guarded_settled (outcome_clusterLba hvolume hcluster))
      fun firstLba hlba => ?_
    refine guarded_bind (guarded_scanSectors hvolume ⟨hlba.1,hlba.2⟩ hentries)
      fun scan hscan => ?_
    cases scan with
    | finished found => exact guarded_pure hscan
    | more found =>
      refine guarded_bind (guarded_nextCluster hvolume hcluster) fun next hnext => ?_
      cases next with
      | none => exact guarded_pure hscan
      | some following => exact ih _ (by omega) (by omega) (hnext following rfl) hscan rfl

theorem guarded_readDirectory (hsmall : cluster<2^28) :
    Guarded (InRegion volume) Reported Small (readDirectory volume cluster) := by
  refine guarded_bind (guarded_settled (outcome_validateCluster hvolume hsmall))
    fun _ hcluster => ?_
  exact guarded_readDirectoryFrom hvolume (Nat.zero_le _) hcluster
    fun _ hmem => absurd hmem List.not_mem_nil

/-- A place that `locate` finds starts at a 28-bit cluster number. -/
theorem guarded_locateFrom (hsmall : cluster<2^28) (components : List Text) :
    Guarded (InRegion volume) Reported (fun located => ∀ entry,located=.entry entry →
      entry.firstCluster<2^28) (locateFrom volume cluster components) := by
  induction components generalizing cluster with
  | nil =>
    exact guarded_throw (reported (by decide))
  | cons component rest ih =>
    rw [locateFrom]
    refine guarded_bind (guarded_readDirectory hvolume hsmall) fun entries hentries => ?_
    cases hfind : entries.find? fun entry => eqIgnoreAsciiCase entry.name component with
    | none =>
      exact guarded_throw (reported (by decide))
    | some entry =>
      have hentry := hentries entry (List.mem_of_find?_eq_some hfind)
      refine guarded_ite (fun _ => guarded_pure fun found hfound => ?_) fun _ => ?_
      · cases hfound
        exact hentry
      exact guarded_ite (fun _ => guarded_throw (reported (by decide))) fun _ => ih hentry

theorem guarded_locate (path : Text) :
    Guarded (InRegion volume) Reported (fun located => ∀ entry,located=.entry entry →
      entry.firstCluster<2^28) (locate volume path) := by
  refine guarded_ite (fun _ => guarded_throw (reported (by decide))) fun _ => ?_
  exact guarded_ite (fun _ => guarded_pure (by simp)) fun _ =>
    guarded_locateFrom hvolume hvolume.root _

/-! ### Files -/

/-- The bytes read so far never exceed the size of the file. -/
theorem guarded_fillSectors {size : ℕ} (hsectors : Sectors volume firstLba index count)
    (hbytes : bytes.length ≤ size) :
    Guarded (InRegion volume) Reported (fun found => found.length ≤ size)
      (fillSectors size firstLba count index bytes) := by
  induction count generalizing index bytes with
  | zero => exact guarded_pure hbytes
  | succ count ih =>
    rw [fillSectors]
    refine guarded_bind (guarded_settled (outcome_add (hsectors.lt hvolume))) fun lba hlba => ?_
    subst hlba
    refine guarded_bind (guarded_readSector hsectors.inRegion fun _ => trivial) fun sector _ => ?_
    refine guarded_bind (guarded_settled (outcome_sub hbytes)) fun remaining hremaining => ?_
    have hslice : min remaining 512 ≤ sector.bytes.length := by
      rw [sector.length]
      omega
    refine guarded_bind (guarded_settled (outcome_sliceOf (Nat.zero_le _) hslice))
      fun part hpart => ?_
    have hlength : (bytes++part).length ≤ size := by
      rw [List.length_append]
      omega
    exact guarded_ite (fun _ => guarded_pure hlength) fun _ => ih hsectors.next hlength

/-- The chain of a file is followed for at most as many steps as there are
clusters; every step stays inside the volume. -/
theorem guarded_readFrom {size visited : ℕ} (hvisited : visited≤volume.clusterCount)
    (hcluster : Cluster volume cluster) (hbytes : bytes.length ≤ size) :
    Guarded (InRegion volume) Reported (fun found => found.length ≤ size)
      (readFrom volume size visited cluster bytes) := by
  induction hleft : volume.clusterCount-visited using Nat.strong_induction_on
    generalizing visited cluster bytes with
  | _ left ih =>
    have hclusters := hvolume.clusters
    rw [readFrom]
    split_ifs with hdone hcount hloop
    · exact guarded_pure hbytes
    · omega
    · exact guarded_throw (reported (by decide))
    refine guarded_bind (guarded_settled (outcome_clusterLba hvolume hcluster))
      fun firstLba hlba => ?_
    refine guarded_bind (guarded_fillSectors hvolume ⟨hlba.1,hlba.2⟩ hbytes)
      fun found hfound => ?_
    refine guarded_ite (fun _ => ?_) fun _ => ih _ (by omega) (by omega) hcluster hfound rfl
    refine guarded_bind (guarded_nextCluster hvolume hcluster) fun next hnext => ?_
    cases next with
    | none =>
      exact guarded_throw (reported (by decide))
    | some following => exact ih _ (by omega) (by omega) (hnext following rfl) hfound rfl

/-! ### The operations -/

theorem guarded_kind (path : Text) :
    Guarded (InRegion volume) Reported (fun _ => True) (kind volume path) := by
  refine guarded_bind (guarded_locate hvolume path) fun located _ => ?_
  cases located with
  | root => exact guarded_pure trivial
  | entry entry => exact guarded_pure trivial

theorem guarded_metadata (path : Text) :
    Guarded (InRegion volume) Reported (fun _ => True) (metadata volume path) := by
  refine guarded_bind (guarded_locate hvolume path) fun located hlocated => ?_
  cases located with
  | root =>
    exact guarded_bind (guarded_readDirectory hvolume hvolume.root) fun _ _ => guarded_pure trivial
  | entry entry =>
    refine guarded_ite (fun _ => guarded_pure trivial) fun _ => ?_
    exact guarded_bind (guarded_readDirectory hvolume (hlocated entry rfl)) fun _ _ =>
      guarded_pure trivial

theorem guarded_list (path : Text) :
    Guarded (InRegion volume) Reported (fun _ => True) (list volume path) := by
  have hnames : ∀ {cluster : ℕ},cluster<2^28 → Guarded (InRegion volume) Reported (fun _ => True)
      (do let entries ← readDirectory volume cluster
          pure (entries.map DirectoryEntry.display)) := fun hsmall =>
    guarded_bind (guarded_readDirectory hvolume hsmall) fun _ _ => guarded_pure trivial
  refine guarded_bind (guarded_locate hvolume path) fun located hlocated => ?_
  cases located with
  | root => exact hnames hvolume.root
  | entry entry =>
    exact guarded_ite (fun _ => hnames (hlocated entry rfl)) fun _ =>
      guarded_throw (reported (by decide))

theorem guarded_read (path : Text) :
    Guarded (InRegion volume) Reported (fun bytes => bytes.length ≤ maxReadFileSize)
      (read volume path) := by
  refine guarded_bind (guarded_locate hvolume path) fun located hlocated => ?_
  cases located with
  | root => exact guarded_throw (reported (by decide))
  | entry entry =>
    refine guarded_ite (fun _ => ?_) fun _ => guarded_throw (reported (by decide))
    refine guarded_ite (fun _ => guarded_throw (reported (by decide))) fun hsize => ?_
    refine guarded_ite (fun _ => guarded_pure (Nat.zero_le _)) fun _ => ?_
    refine guarded_bind (guarded_settled (outcome_validateCluster hvolume (hlocated entry rfl)))
      fun _ hcluster => ?_
    refine (guarded_readFrom hvolume (Nat.zero_le _) hcluster (Nat.zero_le _)).imp
      fun bytes hbytes => ?_
    exact hbytes.trans (Nat.not_lt.mp hsize)

end

/-- With every disk, whose answers may change over time: every sector that is
read lies in the part of the volume it is read for, and the routine returns a
value or one of the errors that can be reached. -/
def StaysInside {α : Type} (volume : Fat32Volume) (routine : FatRoutine α) : Prop :=
  ∀ device,(∀ access∈(routine.run.play device []).2,InRegion volume access) ∧
    ∀ fault,(routine.run.play device []).1=.error fault → Reported fault

theorem staysInside_of_guarded {α : Type} {volume : Fat32Volume} {routine : FatRoutine α}
    {success : α → Prop} (hroutine : Guarded (InRegion volume) Reported success routine) :
    StaysInside volume routine := by
  intro device
  obtain ⟨houtcome,hreads⟩ := hroutine.play device fun op hop => absurd hop List.not_mem_nil
  refine ⟨hreads,fun fault hfault => ?_⟩
  rw [hfault] at houtcome
  exact houtcome

theorem checked_of_mount {device : List ReadSector → ReadSector → Except String Sector}
    {volume : Fat32Volume} (hmount : (mount.run.play device []).1=.ok volume) :
    Geometry volume ∧ fat32MinClusters≤volume.clusterCount := by
  obtain ⟨houtcome,-⟩ := guarded_mount.play device fun op hop => absurd hop List.not_mem_nil
  rw [hmount] at houtcome
  exact houtcome

theorem geometry_of_mount {device : List ReadSector → ReadSector → Except String Sector}
    {volume : Fat32Volume} (hmount : (mount.run.play device []).1=.ok volume) :
    Geometry volume := (checked_of_mount hmount).1

/-- If `mount` returned a volume, whatever the disk answered, then `kind`,
`metadata`, `list` and `read` stay inside it for every path and whatever the
disk answers from then on. -/
theorem reads_stay_inside {device : List ReadSector → ReadSector → Except String Sector}
    {volume : Fat32Volume} (hmount : (mount.run.play device []).1=.ok volume) (path : Text) :
    StaysInside volume (kind volume path) ∧ StaysInside volume (metadata volume path) ∧
      StaysInside volume (list volume path) ∧ StaysInside volume (read volume path) := by
  have hvolume := geometry_of_mount hmount
  exact ⟨staysInside_of_guarded (guarded_kind hvolume path),
    staysInside_of_guarded (guarded_metadata hvolume path),
    staysInside_of_guarded (guarded_list hvolume path),
    staysInside_of_guarded (guarded_read hvolume path)⟩

/-- A partition table with one FAT32 partition of 70000 sectors. -/
def sampleMbr : List UInt8 :=
  List.replicate 450 0++[0x0C,0,0,0]++leBytes 4 2048++leBytes 4 70000++List.replicate 48 0++
    [0x55,0xAA]

/-- A boot sector with 32 reserved sectors, one table of 600 sectors and
clusters of one sector. -/
def sampleBpb : List UInt8 :=
  List.replicate 11 0++[0,2,1,32,0,1]++List.replicate 15 0++leBytes 4 66400++leBytes 4 600++
    List.replicate 4 0++leBytes 4 2++List.replicate 462 0++[0x55,0xAA]

/-- A disk with these two sectors, on which all others cannot be read. -/
def sampleDisk (_ : List ReadSector) (access : ReadSector) : Except String Sector :=
  if access.lba=0 then .ok (Sector.ofBlob sampleMbr 0)
  else if access.lba=2048 then .ok (Sector.ofBlob sampleBpb 0)
  else .error "ata error"

theorem reads_stay_inside_sample :
    StaysInside ⟨2048,66400,1,2080,600,2680,2,65768⟩
      (read ⟨2048,66400,1,2080,600,2680,2,65768⟩ ['/','a']) := by
  have hmount : (mount.run.play sampleDisk []).1=.ok ⟨2048,66400,1,2080,600,2680,2,65768⟩ := by
    decide +kernel
  exact (reads_stay_inside hmount ['/','a']).2.2.2

end TuwaiqOS.Fat32Bounds
