import TuwaiqOS.Fat32Bounds
import TuwaiqOS.FollowedLinks

/-!
# Files and directories of a fixed disk

The contents of the disk do not change while a file or directory is read. The
clusters are then linked by what `next_cluster` finds in the table, and the
loops of `read` and `read_directory` are compared with the list of clusters
that following these links gives: which bytes they return, when they fail and
which clusters they have read.
-/

namespace TuwaiqOS.FatChains

open Utf8Text ByteFields FallibleSteps DeviceProgram FollowedLinks VfsPath Checkpoint
open Fat32 Fat32Bounds

/-! ## The chain of a file -/

/-- What each sector holds, or why it cannot be read. -/
abbrev Disk := ℕ → Except String Sector

/-- The answers of a disk whose contents do not change. -/
def contents (disk : Disk) (access : ReadSector) : Except String Sector := disk access.lba

/-- The bytes of a sector, none if it cannot be read. -/
def sectorBytes (disk : Disk) (lba : ℕ) : List UInt8 :=
  match disk lba with
  | .ok sector => sector.bytes
  | .error _ => []

section

variable (volume : Fat32Volume)

/-- Bytes of a cluster. -/
def clusterSize : ℕ := 512*volume.sectorsPerCluster

/-- First sector of a cluster. -/
def firstSector (cluster : ℕ) : ℕ := volume.dataStart+(cluster-2)*volume.sectorsPerCluster

/-- The sectors of a cluster. -/
def sectorsOf (cluster : ℕ) : List ℕ :=
  List.range' (firstSector volume cluster) volume.sectorsPerCluster

/-- The bytes of a cluster. -/
def clusterBytes (disk : Disk) (cluster : ℕ) : List UInt8 :=
  (sectorsOf volume cluster).flatMap (sectorBytes disk)

/-- All sectors of a cluster can be read. -/
def Readable (disk : Disk) (cluster : ℕ) : Prop :=
  ∀ lba∈sectorsOf volume cluster,∃ sector,disk lba=.ok sector

/-- How many clusters a file of this size needs. -/
def clustersFor (size : ℕ) : ℕ := (size+clusterSize volume-1)/clusterSize volume

/-- The cluster that `next_cluster` returns; none at an end mark, at a bad,
free or impossible value, and where the table cannot be read. -/
def link (disk : Disk) (cluster : ℕ) : Option ℕ :=
  ((nextCluster volume cluster).run.eval (contents disk)).1.toOption.join

/-- The clusters of a file, if its chain has enough of them. -/
def fileChain (disk : Disk) (firstCluster size : ℕ) : Option (List ℕ) :=
  if size=0 then some []
  else if (validateCluster volume firstCluster).isOk then
    follow (link volume disk) (clustersFor volume size) firstCluster
  else none

/-- The clusters whose data was read, by their first sectors. -/
def clustersRead (asked : List ReadSector) : List ℕ :=
  asked.filterMap fun access =>
    if access.purpose=.data ∧ (access.lba-volume.dataStart)%volume.sectorsPerCluster=0 then
      some ((access.lba-volume.dataStart)/volume.sectorsPerCluster+2)
    else none

/-- A cluster of the volume. -/
def Valid (cluster : ℕ) : Prop := 2 ≤ cluster ∧ cluster<volume.clusterCount+2

end

/-- The first sectors of a cluster, read as data. -/
def dataReads (firstLba count : ℕ) : List ReadSector :=
  (List.range' firstLba count).map fun lba => ⟨.data,lba⟩

variable {asked : List ReadSector} {cluster size : ℕ} {bytes : List UInt8}
  {entry : DirectoryEntry}

theorem yields_readSector_iff {disk : Disk} {purpose : Purpose} {lba : ℕ} {sector : Sector} :
    Yields (contents disk) (readSector purpose lba) sector asked ↔
      disk lba=.ok sector ∧ asked=[⟨purpose,lba⟩] := by
  have hrun : (readSector purpose lba).run.eval (contents disk)=
      ((disk lba).mapError Fault.device,[⟨purpose,lba⟩]) := rfl
  rw [Yields,hrun,Prod.mk_inj]
  refine and_congr ?_ eq_comm
  cases disk lba <;> simp [Except.mapError]

theorem add_ok {a b value : ℕ} (hadd : add a b=.ok value) : value=a+b := by
  rw [add] at hadd
  split at hadd
  · cases hadd
    rfl
  · cases hadd

section

variable {volume : Fat32Volume} {disk : Disk}

theorem clustersRead_append (first second : List ReadSector) :
    clustersRead volume (first++second)=clustersRead volume first++clustersRead volume second :=
  List.filterMap_append

/-- Reading sectors of a cluster from its first one on is reading that
cluster. -/
theorem clustersRead_dataReads {count : ℕ} (hcluster : 2 ≤ cluster) (hcount : 0<count)
    (hfit : count≤volume.sectorsPerCluster) :
    clustersRead volume (dataReads (firstSector volume cluster) count)=[cluster] := by
  obtain ⟨count,rfl⟩ : ∃ rest,count=rest+1 := ⟨count-1,by omega⟩
  have hrest : clustersRead volume (dataReads (firstSector volume cluster+1) count)=[] := by
    rw [clustersRead,List.filterMap_eq_nil_iff]
    intro access haccess
    obtain ⟨lba,hlba,rfl⟩ := List.mem_map.mp haccess
    obtain ⟨index,hindex,rfl⟩ := List.mem_range'.mp hlba
    refine if_neg ?_
    rintro ⟨-,haligned⟩
    have hoffset : firstSector volume cluster+1+1*index-volume.dataStart=
        1+index+volume.sectorsPerCluster*(cluster-2) := by
      rw [firstSector,Nat.mul_comm (cluster-2)]
      omega
    rw [hoffset,Nat.add_mul_mod_self_left,Nat.mod_eq_of_lt (by omega)] at haligned
    omega
  have hfirst : firstSector volume cluster-volume.dataStart=
      (cluster-2)*volume.sectorsPerCluster := by
    rw [firstSector,Nat.add_sub_cancel_left]
  rw [dataReads,List.range'_succ,List.map_cons,clustersRead,List.filterMap_cons,hfirst,
    Nat.mul_mod_left,Nat.mul_div_cancel _ (by omega),if_pos ⟨rfl,rfl⟩]
  have hsame : cluster-2+2=cluster := by omega
  rw [hsame]
  exact congrArg _ hrest

/-! ## One cluster -/

variable {found : List UInt8} {next : Option ℕ} {clusters : List ℕ}

/-- The sectors of a cluster go to the end of the bytes until there are
enough. -/
theorem yields_fillSectors {firstLba count index : ℕ} (hbytes : bytes.length<size)
    (hfill : Yields (contents disk) (fillSectors size firstLba count index bytes) found asked) :
    found=bytes++((List.range' (firstLba+index) count).flatMap (sectorBytes disk)).take
        (size-bytes.length) ∧ found.length=min size (bytes.length+512*count) ∧
      ∃ reads ≤ count,(0<count → 0 < reads) ∧ asked=dataReads (firstLba+index) reads := by
  induction count generalizing index bytes asked with
  | zero =>
    obtain ⟨rfl,rfl⟩ := yields_pure_iff.mp hfill
    exact ⟨by simp,by omega,0,le_rfl,id,rfl⟩
  | succ count ih =>
    rw [fillSectors] at hfill
    obtain ⟨lba,hlba,hfill⟩ := yields_settled_bind_iff.mp hfill
    obtain rfl := add_ok hlba
    obtain ⟨sector,before,after,hread,hrest,rfl⟩ := yields_bind_iff.mp hfill
    obtain ⟨hsector,rfl⟩ := yields_readSector_iff.mp hread
    obtain ⟨remaining,hremaining,hrest⟩ := yields_settled_bind_iff.mp hrest
    rw [sub,if_pos hbytes.le] at hremaining
    cases hremaining
    obtain ⟨part,hpart,hrest⟩ := yields_settled_bind_iff.mp hrest
    have hlength := sector.length
    rw [sliceOf,if_pos ⟨by omega,by omega⟩,slice,List.drop_zero,Nat.sub_zero] at hpart
    cases hpart
    have hsame : sectorBytes disk (firstLba+index)=sector.bytes := by
      rw [sectorBytes,hsector]
    have hsplit : dataReads (firstLba+index) 1=[⟨.data,firstLba+index⟩] := rfl
    rw [List.range'_succ,List.flatMap_cons,hsame,List.take_append,hlength]
    split at hrest
    · rename_i hfull
      obtain ⟨rfl,rfl⟩ := yields_pure_iff.mp hrest
      rw [List.length_append,List.length_take,hlength] at hfull
      have htake : min (size-bytes.length) 512=size-bytes.length := by omega
      refine ⟨?_,?_,1,by omega,fun _ => by omega,rfl⟩
      · rw [htake,show size-bytes.length-512=0 by omega,List.take_zero,List.append_nil]
      · rw [List.length_append,List.length_take,hlength]
        omega
    · rename_i hmore
      rw [List.length_append,List.length_take,hlength] at hmore
      have htake : min (size-bytes.length) 512=512 := by omega
      rw [htake,← hlength,List.take_length] at hrest
      have hnext : (bytes++sector.bytes).length=bytes.length+512 := by
        rw [List.length_append,hlength]
      obtain ⟨hfound,hsize,reads,hreads,-,rfl⟩ := ih (by omega) hrest
      refine ⟨?_,by omega,reads+1,by omega,fun _ => by omega,?_⟩
      · rw [hfound,List.append_assoc,hnext,List.take_of_length_le (by omega : sector.bytes.length ≤ _),
          ← Nat.add_assoc,Nat.sub_add_eq]
      · rw [dataReads,dataReads,List.range'_succ,List.map_cons,← Nat.add_assoc]
        rfl

/-- Sectors that can be read are read. -/
theorem fillSectors_succeeds {size firstLba count index : ℕ} {bytes : List UInt8}
    (hbytes : bytes.length<size) (hfit : firstLba+index+count ≤ 2^32)
    (hread : ∀ lba∈List.range' (firstLba+index) count,∃ sector,disk lba=.ok sector) :
    ∃ found asked,Yields (contents disk) (fillSectors size firstLba count index bytes)
      found asked := by
  induction count generalizing index bytes with
  | zero => exact ⟨bytes,[],yields_pure_iff.mpr ⟨rfl,rfl⟩⟩
  | succ count ih =>
    rw [List.range'_succ] at hread
    obtain ⟨⟨sector,hsector⟩,hrest⟩ := List.forall_mem_cons.mp hread
    have hlength := sector.length
    have hadd : add firstLba index=.ok (firstLba+index) := if_pos (by omega)
    have hsub : sub size bytes.length=.ok (size-bytes.length) := if_pos hbytes.le
    have hpart : sliceOf sector.bytes 0 (min (size-bytes.length) 512)=
        .ok (slice sector.bytes 0 (min (size-bytes.length) 512-0)) := if_pos ⟨by omega,by omega⟩
    have hstep : ∀ {found : List UInt8} {asked : List ReadSector},
        Yields (contents disk) (if (bytes++slice sector.bytes 0
            (min (size-bytes.length) 512-0)).length=size then
          pure (bytes++slice sector.bytes 0 (min (size-bytes.length) 512-0))
        else fillSectors size firstLba count (index+1)
          (bytes++slice sector.bytes 0 (min (size-bytes.length) 512-0))) found asked →
        Yields (contents disk) (fillSectors size firstLba (count+1) index bytes) found
          ([⟨.data,firstLba+index⟩]++asked) := by
      intro found asked hfound
      rw [fillSectors]
      refine yields_settled_bind_iff.mpr ⟨_,hadd,yields_bind_iff.mpr ⟨sector,_,asked,
        yields_readSector_iff.mpr ⟨hsector,rfl⟩,?_,rfl⟩⟩
      exact yields_settled_bind_iff.mpr ⟨_,hsub,yields_settled_bind_iff.mpr ⟨_,hpart,hfound⟩⟩
    by_cases hfull : (bytes++slice sector.bytes 0 (min (size-bytes.length) 512-0)).length=size
    · exact ⟨_,_,hstep (by rw [if_pos hfull]; exact yields_pure_iff.mpr ⟨rfl,rfl⟩)⟩
    · have hless : (bytes++slice sector.bytes 0 (min (size-bytes.length) 512-0)).length<size := by
        rw [List.length_append,length_slice (by omega)] at hfull ⊢
        omega
      obtain ⟨found,asked,hfound⟩ := @ih (index+1) _ hless (by omega) (by rwa [← Nat.add_assoc])
      exact ⟨_,_,hstep (by rw [if_neg hfull]; exact hfound)⟩

/-! ## Clusters and links -/

theorem link_of_yields (hnext : Yields (contents disk) (nextCluster volume cluster) next asked) :
    link volume disk cluster=next := by
  rw [link,hnext]
  rfl

theorem yields_of_link {next : ℕ} (hlink : link volume disk cluster=some next) :
    ∃ asked,Yields (contents disk) (nextCluster volume cluster) (some next) asked := by
  rw [link] at hlink
  cases hrun : (nextCluster volume cluster).run.eval (contents disk) with
  | mk outcome asked =>
    rw [hrun] at hlink
    cases outcome with
    | error reason => cases hlink
    | ok found =>
      cases found with
      | none => cases hlink
      | some following =>
        cases hlink
        exact ⟨asked,hrun⟩

section

variable (hvolume : Geometry volume)
include hvolume

theorem validateCluster_ok_iff : validateCluster volume cluster=.ok () ↔ Valid volume cluster := by
  have hclusters := hvolume.clusters
  have hend : add volume.clusterCount 2=.ok (volume.clusterCount+2) := if_pos hclusters
  rw [validateCluster,Valid]
  by_cases hfirst : cluster<2
  · rw [if_pos hfirst]
    exact iff_of_false (by simp) (by omega)
  · rw [if_neg hfirst]
    by_cases hlast : cluster ≥ volume.clusterCount+2
    · rw [bind_of_ok hend,if_pos hlast]
      exact iff_of_false (fun hthrow => by cases hthrow) (by omega)
    · rw [bind_of_ok hend,if_neg hlast]
      exact iff_of_true rfl (by omega)

/-- A lookup that succeeds reads one sector of the table, and a cluster that
it returns is one of the volume. -/
theorem yields_nextCluster
    (hnext : Yields (contents disk) (nextCluster volume cluster) next asked) :
    clustersRead volume asked=[] ∧ ∀ following,next=some following → Valid volume following := by
  rw [nextCluster] at hnext
  obtain ⟨-,-,hnext⟩ := yields_settled_bind_iff.mp hnext
  obtain ⟨byteOffset,-,hnext⟩ := yields_settled_bind_iff.mp hnext
  dsimp only at hnext
  split at hnext
  · exact absurd hnext not_yields_throw
  obtain ⟨lba,-,hnext⟩ := yields_settled_bind_iff.mp hnext
  obtain ⟨sector,before,after,hread,hrest,rfl⟩ := yields_bind_iff.mp hnext
  obtain ⟨-,rfl⟩ := yields_readSector_iff.mp hread
  obtain ⟨found,-,hrest⟩ := yields_settled_bind_iff.mp hrest
  have htable : clustersRead volume [⟨.table,lba⟩]=[] := rfl
  rw [clustersRead_append,htable,List.nil_append]
  split at hrest
  · obtain ⟨rfl,rfl⟩ := yields_pure_iff.mp hrest
    exact ⟨rfl,by simp⟩
  split at hrest
  · exact absurd hrest not_yields_throw
  obtain ⟨_,hvalid,hrest⟩ := yields_settled_bind_iff.mp hrest
  obtain ⟨rfl,rfl⟩ := yields_pure_iff.mp hrest
  refine ⟨rfl,fun following hsome => ?_⟩
  cases hsome
  exact (validateCluster_ok_iff hvolume).mp hvalid

theorem Valid.inside {cluster : ℕ} (hcluster : Valid volume cluster) :
    firstSector volume cluster+volume.sectorsPerCluster ≤
      volume.partitionStart+volume.partitionSectors := by
  have hroom : (cluster-2)*volume.sectorsPerCluster+volume.sectorsPerCluster ≤
      volume.clusterCount*volume.sectorsPerCluster := by
    rw [← Nat.succ_mul]
    exact Nat.mul_le_mul_right _ (by have := hcluster.1; have := hcluster.2; omega)
  have hdata := hvolume.data
  rw [firstSector]
  omega

theorem clusterLba_ok (hcluster : Valid volume cluster) :
    clusterLba volume cluster=.ok (firstSector volume cluster) := by
  have hinside := hcluster.inside hvolume
  have hfits := hvolume.fits
  have hper := hvolume.perCluster
  have hvalid := (validateCluster_ok_iff hvolume).mpr hcluster
  have hindex : sub cluster 2=.ok (cluster-2) := if_pos hcluster.1
  rw [firstSector] at hinside ⊢
  have hmul : checkedMul "FAT32: cluster LBA overflow" (cluster-2) volume.sectorsPerCluster=
      .ok ((cluster-2)*volume.sectorsPerCluster) := if_pos (by omega)
  have hadd : checkedAdd "FAT32: data LBA overflow" volume.dataStart
      ((cluster-2)*volume.sectorsPerCluster)=
      .ok (volume.dataStart+(cluster-2)*volume.sectorsPerCluster) := if_pos (by omega)
  have hend : checkedAdd "FAT32: partition end overflow" volume.partitionStart
      volume.partitionSectors=.ok (volume.partitionStart+volume.partitionSectors) :=
    if_pos (by omega)
  rw [clusterLba,bind_of_ok hvalid,bind_of_ok hindex,bind_of_ok hmul,bind_of_ok hadd,
    bind_of_ok hend,if_neg (by omega)]
  rfl

/-! ## Files -/

theorem clusterSize_pos : 0<clusterSize volume := by
  have hper := hvolume.perCluster
  rw [clusterSize]
  omega

theorem clustersFor_one (hsize : 0<size)
    (hfit : size≤ clusterSize volume) : clustersFor volume size=1 := by
  have hpos := clusterSize_pos hvolume
  rw [clustersFor]
  exact Nat.div_eq_of_lt_le (by omega) (by omega)

theorem clustersFor_more {size : ℕ} (hsize : clusterSize volume<size) :
    clustersFor volume size=clustersFor volume (size-clusterSize volume)+1 := by
  have hpos := clusterSize_pos hvolume
  have hsame : size+clusterSize volume-1=
      size-clusterSize volume+clusterSize volume-1+clusterSize volume := by omega
  rw [clustersFor,clustersFor,hsame,Nat.add_div_right _ hpos]

theorem clustersFor_pos {size : ℕ} (hsize : 0<size) : 0<clustersFor volume size := by
  by_cases hfit : size≤ clusterSize volume
  · rw [clustersFor_one hvolume hsize hfit]
    exact Nat.one_pos
  · rw [clustersFor_more hvolume (Nat.not_le.mp hfit)]
    exact Nat.succ_pos _

/-- What is left of a file after one of its clusters. -/
theorem follow_clustersFor (hsize : clusterSize volume<size) :
    follow (link volume disk) (clustersFor volume size) cluster=some clusters ↔
      ∃ next rest,link volume disk cluster=some next ∧
        follow (link volume disk) (clustersFor volume (size-clusterSize volume)) next=some rest ∧
        clusters=cluster::rest := by
  obtain ⟨count,hcount⟩ : ∃ count,clustersFor volume (size-clusterSize volume)=count+1 :=
    ⟨_,(Nat.succ_pred_eq_of_pos (clustersFor_pos hvolume (by omega))).symm⟩
  rw [clustersFor_more hvolume hsize,hcount,follow_succ_succ]

/-- The loop returns the bytes of the clusters that are found by following the
links, cut to the size of the file, and has read just these clusters. -/
theorem yields_readFrom {visited : ℕ} (hbytes : bytes.length<size) (hcluster : Valid volume cluster)
    (hread : Yields (contents disk) (readFrom volume size visited cluster bytes) found asked) :
    ∃ clusters,follow (link volume disk) (clustersFor volume (size-bytes.length)) cluster=
        some clusters ∧
      found=bytes++(clusters.flatMap (clusterBytes volume disk)).take (size-bytes.length) ∧
      found.length=size ∧ clustersRead volume asked=clusters := by
  induction hleft : size-bytes.length using Nat.strong_induction_on
    generalizing visited cluster bytes asked with
  | _ left ih =>
    subst hleft
    have hpos := clusterSize_pos hvolume
    rw [readFrom,if_neg (by omega)] at hread
    split at hread
    · exact absurd hread not_yields_throw
    split at hread
    · exact absurd hread not_yields_throw
    obtain ⟨firstLba,hlba,hsteps⟩ := yields_settled_bind_iff.mp hread
    rw [clusterLba_ok hvolume hcluster] at hlba
    cases hlba
    obtain ⟨filled,early,late,hfill,hrest,rfl⟩ := yields_bind_iff.mp hsteps
    obtain ⟨hfilled,hlength,reads,hreads,hsome,rfl⟩ := yields_fillSectors hbytes hfill
    have hone : clustersRead volume (dataReads (firstSector volume cluster+0) reads)=[cluster] :=
      clustersRead_dataReads hcluster.1 (hsome hvolume.perCluster) hreads
    have hdata : (List.range' (firstSector volume cluster+0) volume.sectorsPerCluster).flatMap
        (sectorBytes disk)=clusterBytes volume disk cluster := rfl
    rw [hdata] at hfilled
    rw [← clusterSize] at hlength
    rw [clustersRead_append,hone]
    by_cases hlast : size-bytes.length≤ clusterSize volume
    · -- the last cluster of the file
      rw [if_neg (by omega),readFrom,if_pos (by omega)] at hrest
      obtain ⟨rfl,rfl⟩ := yields_pure_iff.mp hrest
      refine ⟨[cluster],?_,?_,by omega,rfl⟩
      · rw [clustersFor_one hvolume (by omega) hlast]
        rfl
      · rw [hfilled,List.flatMap_singleton]
    · rw [if_pos (by omega)] at hrest
      obtain ⟨next,middle,after,hnext,hmore,rfl⟩ := yields_bind_iff.mp hrest
      obtain ⟨htable,hvalid⟩ := yields_nextCluster hvolume hnext
      cases next with
      | none => exact absurd hmore not_yields_throw
      | some following =>
        obtain ⟨rest,hfollow,hfound,hsize,hclusters⟩ :=
          ih (size-filled.length) (by omega) (by omega) (hvalid following rfl) hmore rfl
        have hcount : (clusterBytes volume disk cluster).length=clusterSize volume := by
          have hsame := congrArg List.length hfilled
          rw [List.length_append,List.length_take] at hsame
          omega
        have hleft : size-filled.length=size-bytes.length-clusterSize volume := by omega
        rw [hleft] at hfollow hfound
        refine ⟨cluster::rest,(follow_clustersFor hvolume (by omega)).mpr
          ⟨following,rest,link_of_yields hnext,hfollow,rfl⟩,?_,hsize,?_⟩
        · rw [hfound,hfilled,List.flatMap_cons,List.take_append,hcount,List.append_assoc]
        · rw [clustersRead_append,htable,hclusters]
          rfl

/-- The loop succeeds if there are enough clusters and they can be read. -/
theorem readFrom_succeeds {size visited cluster : ℕ}
    {bytes : List UInt8} (hbytes : bytes.length<size) (hcluster : Valid volume cluster)
    {clusters : List ℕ}
    (hfollow : follow (link volume disk) (clustersFor volume (size-bytes.length)) cluster=
      some clusters) (hreadable : ∀ cluster∈clusters,Readable volume disk cluster)
    (hvisited : visited+clustersFor volume (size-bytes.length)≤volume.clusterCount) :
    ∃ found asked,Yields (contents disk) (readFrom volume size visited cluster bytes)
      found asked := by
  induction hleft : size-bytes.length using Nat.strong_induction_on
    generalizing visited cluster bytes clusters with
  | _ left ih =>
    subst hleft
    have hpos := clusterSize_pos hvolume
    have hclusters := hvolume.clusters
    have hcount := @clustersFor_pos volume hvolume (size-bytes.length) (by omega)
    have hinside := hcluster.inside hvolume
    have hfits := hvolume.fits
    have hmem : cluster∈clusters := by
      by_cases hlast : size-bytes.length≤ clusterSize volume
      · rw [clustersFor_one hvolume (by omega) hlast] at hfollow
        cases hfollow
        exact List.mem_singleton_self _
      · obtain ⟨next,rest,-,-,rfl⟩ := (follow_clustersFor hvolume (by omega)).mp hfollow
        exact List.mem_cons_self
    obtain ⟨filled,early,hfill⟩ := @fillSectors_succeeds disk size (firstSector volume cluster) _ 0
      bytes hbytes (by omega) (hreadable cluster hmem)
    obtain ⟨-,hlength,-⟩ := yields_fillSectors hbytes hfill
    rw [← clusterSize] at hlength
    rw [readFrom,if_neg (by omega),if_neg (by omega),dif_neg (by omega)]
    by_cases hlast : size-bytes.length≤ clusterSize volume
    · refine ⟨filled,early++[],yields_settled_bind_iff.mpr ⟨_,clusterLba_ok hvolume hcluster,
        yields_bind_iff.mpr ⟨filled,early,[],hfill,?_,rfl⟩⟩⟩
      rw [if_neg (by omega),readFrom,if_pos (by omega)]
      exact yields_pure_iff.mpr ⟨rfl,rfl⟩
    · obtain ⟨next,rest,hlink,hrest,rfl⟩ := (follow_clustersFor hvolume (by omega)).mp hfollow
      obtain ⟨asked,hnext⟩ := yields_of_link hlink
      have hvalid := (yields_nextCluster hvolume hnext).2 next rfl
      have hleft : size-filled.length=size-bytes.length-clusterSize volume := by omega
      have hfewer := @clustersFor_more volume hvolume (size-bytes.length) (by omega)
      rw [← hleft] at hrest hfewer
      obtain ⟨found,late,hlate⟩ := @ih (size-filled.length) (by omega) (visited+1) next filled
        (by omega) hvalid rest hrest
        (fun other hother => hreadable other (List.mem_cons_of_mem _ hother)) (by omega) rfl
      refine ⟨found,early++(asked++late),yields_settled_bind_iff.mpr ⟨_,
        clusterLba_ok hvolume hcluster,yields_bind_iff.mpr ⟨filled,early,_,hfill,?_,rfl⟩⟩⟩
      rw [if_pos (by omega)]
      exact yields_bind_iff.mpr ⟨some next,asked,late,hnext,hlate,rfl⟩

end

/-- What `read` does with the entry that `locate` returned. -/
def readEntry (volume : Fat32Volume) (entry : DirectoryEntry) : FatRoutine (List UInt8) :=
  if entry.kind=.file then
    if entry.size>maxReadFileSize then throw (.error "FAT32: file exceeds read limit")
    else if entry.size=0 then pure []
    else do
      settled (validateCluster volume entry.firstCluster)
      readFrom volume entry.size 0 entry.firstCluster []
  else throw (.error "FAT32: is a directory")

/-- `read` is `locate`, and then what it does with the entry. -/
theorem yields_read_iff {path : Text} :
    Yields (contents disk) (read volume path) bytes asked ↔ ∃ entry before after,
      Yields (contents disk) (locate volume path) (.entry entry) before ∧
        Yields (contents disk) (readEntry volume entry) bytes after ∧ asked=before++after := by
  rw [Fat32.read,yields_bind_iff]
  constructor
  · rintro ⟨located,before,after,hlocate,hread,rfl⟩
    cases located with
    | root => exact absurd hread not_yields_throw
    | entry entry => exact ⟨entry,before,after,hlocate,hread,rfl⟩
  · rintro ⟨entry,before,after,hlocate,hread,rfl⟩
    exact ⟨.entry entry,before,after,hlocate,hread,rfl⟩

section

variable (hvolume : Geometry volume)
include hvolume

/-- A file that is read has its chain, and what is returned is in its
clusters. -/
theorem yields_readEntry (hread : Yields (contents disk) (readEntry volume entry) bytes asked) :
    ∃ clusters,fileChain volume disk entry.firstCluster entry.size=some clusters ∧
      bytes=(clusters.flatMap (clusterBytes volume disk)).take entry.size ∧
      bytes.length=entry.size ∧ clustersRead volume asked=clusters := by
  rw [readEntry] at hread
  split at hread
  · split at hread
    · exact absurd hread not_yields_throw
    rw [fileChain]
    by_cases hempty : entry.size=0
    · rw [if_pos hempty] at hread
      obtain ⟨rfl,rfl⟩ := yields_pure_iff.mp hread
      exact ⟨[],if_pos hempty,by simp,hempty.symm,rfl⟩
    · rw [if_neg hempty] at hread ⊢
      obtain ⟨_,hvalid,hfrom⟩ := yields_settled_bind_iff.mp hread
      rw [hvalid]
      exact yields_readFrom hvolume (Nat.pos_of_ne_zero hempty)
        ((validateCluster_ok_iff hvolume).mp hvalid) hfrom
  · exact absurd hread not_yields_throw

/-- The clusters of a file within the limit are fewer than those of the
volume. -/
theorem clustersFor_le (hsize : size≤ maxReadFileSize)
    (hmany : fat32MinClusters≤volume.clusterCount) :
    clustersFor volume size≤volume.clusterCount := by
  have hper := hvolume.perCluster
  have hlimit : maxReadFileSize=262144 := rfl
  have hmin : fat32MinClusters=65525 := rfl
  have hcluster : 512≤ clusterSize volume := by
    rw [clusterSize]
    omega
  have hless : clustersFor volume size ≤ 512 := by
    rw [clustersFor]
    refine Nat.lt_succ_iff.mp ((Nat.div_lt_iff_lt_mul (by omega)).mpr ?_)
    omega
  omega

/-- A file within the limit whose chain has enough clusters, all of them
readable, is read. -/
theorem readEntry_succeeds (hmany : fat32MinClusters≤volume.clusterCount) (hkind : entry.kind=.file)
    (hsize : entry.size≤ maxReadFileSize)
    (hchain : fileChain volume disk entry.firstCluster entry.size=some clusters)
    (hreadable : ∀ cluster∈clusters,Readable volume disk cluster) :
    ∃ bytes asked,Yields (contents disk) (readEntry volume entry) bytes asked := by
  rw [readEntry,if_pos hkind,if_neg (by omega)]
  rw [fileChain] at hchain
  by_cases hempty : entry.size=0
  · rw [if_pos hempty]
    exact ⟨[],[],yields_pure_iff.mpr ⟨rfl,rfl⟩⟩
  rw [if_neg hempty] at hchain ⊢
  cases hvalid : validateCluster volume entry.firstCluster with
  | error fault =>
    rw [hvalid] at hchain
    cases hchain
  | ok _ =>
    rw [hvalid] at hchain
    have hcount := clustersFor_le hvolume hsize hmany
    obtain ⟨bytes,asked,hread⟩ := @readFrom_succeeds volume disk hvolume entry.size 0
      entry.firstCluster [] (Nat.pos_of_ne_zero hempty)
      ((validateCluster_ok_iff hvolume).mp hvalid) clusters hchain hreadable
      (by rw [List.length_nil,Nat.sub_zero]; omega)
    exact ⟨bytes,asked,yields_settled_bind_iff.mpr ⟨(),rfl,hread⟩⟩

end

end

/-- For every mounted volume, every contents of the disk and every path of a
file of at most 256 KiB: if its chain has enough clusters and they can be
read, `read` returns the bytes of these clusters cut to the size of the file.
If the chain ends before or meets a value that is no cluster, `read` returns
an error. What it returns always has the size of the file. -/
theorem read_follows_chain {device : List ReadSector → ReadSector → Except String Sector}
    {volume : Fat32Volume} (hmount : (mount.run.play device []).1=.ok volume) {disk : Disk}
    {path : Text} {entry : DirectoryEntry}
    (hlocate : ((locate volume path).run.eval (contents disk)).1=.ok (.entry entry))
    (hkind : entry.kind=.file) (hsize : entry.size≤ maxReadFileSize) :
    (∀ clusters,fileChain volume disk entry.firstCluster entry.size=some clusters →
        (∀ cluster∈clusters,Readable volume disk cluster) →
        ((read volume path).run.eval (contents disk)).1=
          .ok ((clusters.flatMap (clusterBytes volume disk)).take entry.size)) ∧
      (fileChain volume disk entry.firstCluster entry.size=none →
        ∃ fault,((read volume path).run.eval (contents disk)).1=.error fault ∧ Returned fault) ∧
      ∀ bytes,((read volume path).run.eval (contents disk)).1=.ok bytes →
        bytes.length=entry.size ∧ ∃ clusters,
          fileChain volume disk entry.firstCluster entry.size=some clusters ∧
          bytes=(clusters.flatMap (clusterBytes volume disk)).take entry.size := by
  obtain ⟨hvolume,hmany⟩ := checked_of_mount hmount
  have hlocated : Yields (contents disk) (locate volume path) (.entry entry)
      ((locate volume path).run.eval (contents disk)).2 := Prod.ext hlocate rfl
  -- what `read` returns comes from this entry
  have hexact : ∀ bytes,((read volume path).run.eval (contents disk)).1=.ok bytes →
      ∃ clusters,fileChain volume disk entry.firstCluster entry.size=some clusters ∧
        bytes=(clusters.flatMap (clusterBytes volume disk)).take entry.size ∧
        bytes.length=entry.size := by
    intro bytes hbytes
    have hread : Yields (contents disk) (read volume path) bytes
        ((read volume path).run.eval (contents disk)).2 := Prod.ext hbytes rfl
    obtain ⟨other,before,after,hother,hentry,-⟩ := yields_read_iff.mp hread
    rw [Yields,hlocated] at hother
    cases hother
    obtain ⟨clusters,hchain,hfound,hlength,-⟩ := yields_readEntry hvolume hentry
    exact ⟨clusters,hchain,hfound,hlength⟩
  refine ⟨fun clusters hchain hreadable => ?_,fun hnone => ?_,fun bytes hbytes => ?_⟩
  · obtain ⟨bytes,asked,hentry⟩ :=
      readEntry_succeeds hvolume hmany hkind hsize hchain hreadable
    have hread : Yields (contents disk) (read volume path) bytes _ :=
      yields_read_iff.mpr ⟨entry,_,asked,hlocated,hentry,rfl⟩
    obtain ⟨others,hothers,hfound,-⟩ := hexact bytes (congrArg Prod.fst hread)
    rw [hchain] at hothers
    cases hothers
    rw [← hfound]
    exact congrArg Prod.fst hread
  · cases hrun : ((read volume path).run.eval (contents disk)).1 with
    | ok bytes =>
      obtain ⟨clusters,hchain,-⟩ := hexact bytes hrun
      rw [hnone] at hchain
      cases hchain
    | error fault =>
      have hplay := Dialogue.play_eval (contents disk) (read volume path).run []
      have hreported := (staysInside_of_guarded (guarded_read hvolume path)
        (fun _ => contents disk)).2 fault (by rw [hplay]; exact hrun)
      refine ⟨fault,rfl,?_⟩
      constructor <;> rintro rfl <;> exact hreported
  · obtain ⟨clusters,hchain,hfound,hlength⟩ := hexact bytes hbytes
    exact ⟨hlength,clusters,hchain,hfound⟩

/-! ## A small volume -/

/-- The volume of the small disk. -/
def sampleVolume : Fat32Volume := ⟨2048,66400,1,2080,600,2680,2,65768⟩

/-- A file allocation table. Cluster 3 is linked to itself, cluster 4 to
cluster 5, which is the last of its chain. -/
def sampleTable : List UInt8 :=
  leBytes 4 0x0FFFFFF8++leBytes 4 0x0FFFFFFF++leBytes 4 0x0FFFFFFF++leBytes 4 3++leBytes 4 5++
    leBytes 4 0x0FFFFFFF

/-- A record of a file with a name of one letter. -/
def fileRecord (letter : UInt8) (cluster size : ℕ) : List UInt8 :=
  letter::List.replicate 11 0x20++List.replicate 14 0++leBytes 2 cluster++leBytes 4 size

/-- The disk of the small volume, with the files `A` at cluster 3 and `B` at
cluster 4 in its root directory. -/
def fileDisk : Disk := fun lba =>
  if lba=0 then .ok (Sector.ofBlob sampleMbr 0)
  else if lba=2048 then .ok (Sector.ofBlob sampleBpb 0)
  else if lba=2080 then .ok (Sector.ofBlob sampleTable 0)
  else if lba=2680 then .ok (Sector.ofBlob (fileRecord 0x41 3 1024++fileRecord 0x42 4 600) 0)
  else .ok (Sector.ofBlob [UInt8.ofNat lba] 0)

theorem mount_fileDisk : (mount.run.play (fun _ => contents fileDisk) []).1=.ok sampleVolume := by
  decide +kernel

theorem readDirectory_fileDisk : ((readDirectory sampleVolume 2).run.eval (contents fileDisk)).1=
      .ok [⟨['A'],.file,3,1024⟩,⟨['B'],.file,4,600⟩] := by
  rw [readDirectory,readDirectoryFrom]
  decide +kernel

/-- A component in the root directory. -/
theorem locate_root_entry {volume : Fat32Volume} {disk : Disk} {path component : Text}
    {entries : List DirectoryEntry} (hhead : path.head?=some '/') (hparts : parts path=[component])
    (hroot : ((readDirectory volume volume.rootCluster).run.eval (contents disk)).1=.ok entries)
    (hfind : entries.find? (fun entry => eqIgnoreAsciiCase entry.name component)=some entry) :
    ((locate volume path).run.eval (contents disk)).1=.ok (.entry entry) := by
  have hyields : Yields (contents disk) (readDirectory volume volume.rootCluster) entries
      ((readDirectory volume volume.rootCluster).run.eval (contents disk)).2 := Prod.ext hroot rfl
  rw [locate,if_neg (not_not.mpr hhead),hparts,if_neg (by simp),locateFrom]
  refine congrArg Prod.fst (yields_bind_iff.mpr ⟨entries,_,[],hyields,?_,rfl⟩)
  rw [hfind]
  exact yields_pure_iff.mpr ⟨rfl,rfl⟩

theorem locate_fileDisk_B : ((locate sampleVolume ['/','B']).run.eval (contents fileDisk)).1=
      .ok (.entry ⟨['B'],.file,4,600⟩) :=
  locate_root_entry rfl (show parts ['/','B']=[['B']] by decide) readDirectory_fileDisk (by decide)

/-- The file `B` has two clusters, and its last 88 bytes are in the second. -/
theorem read_follows_chain_B :
    fileChain sampleVolume fileDisk 4 600=some [4,5] ∧
      ((read sampleVolume ['/','B']).run.eval (contents fileDisk)).1=
        .ok (([4,5].flatMap (clusterBytes sampleVolume fileDisk)).take 600) := by
  have hchain : fileChain sampleVolume fileDisk 4 600=some [4,5] := by decide +kernel
  have hreadable : ∀ cluster∈[4,5],Readable sampleVolume fileDisk cluster := by
    intro cluster hcluster lba hlba
    rw [fileDisk]
    split_ifs <;> exact ⟨_,rfl⟩
  exact ⟨hchain,(read_follows_chain mount_fileDisk locate_fileDisk_B rfl (by decide)).1 _
    hchain hreadable⟩

end TuwaiqOS.FatChains
