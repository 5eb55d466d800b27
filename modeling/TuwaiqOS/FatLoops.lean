import TuwaiqOS.FatChains

/-!
# Chains that come back to a cluster

`read_directory` counts the clusters it has visited, so a chain that comes back
to a cluster makes it fail. `read` counts them too, but a file within its size
limit has fewer clusters than any volume, and the count never stops it. It
copies a cluster twice if the chain of a file comes back before the size is
reached.
-/

namespace TuwaiqOS.FatLoops

open FallibleSteps DeviceProgram FollowedLinks Fat32 Fat32Bounds FatChains
open Checkpoint (Sector)

/-- The end marker of a directory is in this sector. -/
def marked (disk : Disk) (lba : ℕ) : Bool :=
  match disk lba with
  | .ok sector => (records sector).any fun raw => raw[0]?=some 0
  | .error _ => false

/-- The cluster at which a directory goes on after a cluster, none after one
with the end marker. -/
def directoryLink (volume : Fat32Volume) (disk : Disk) (cluster : ℕ) : Option ℕ :=
  if (sectorsOf volume cluster).any (marked disk) then none else link volume disk cluster

/-- The end marker was found. -/
def ended : Scan → Bool
  | .finished _ => true
  | .more _ => false

variable {volume : Fat32Volume} {disk : Disk} {cluster : ℕ} {entries found : List DirectoryEntry}
  {scan : Scan} {asked : List ReadSector}

/-- Whether the scan of a sector ends depends on its records only. -/
theorem ended_scanRecords {raws : List (List UInt8)} (hscan : scanRecords raws entries=.ok scan) :
    ended scan=raws.any fun raw => raw[0]?=some 0 := by
  induction raws generalizing entries with
  | nil =>
    cases hscan
    rfl
  | cons raw rest ih =>
    rw [scanRecords] at hscan
    obtain ⟨first,hbyte,hscan⟩ := bind_ok_iff.mp hscan
    have hfirst : raw[0]?=some first := by
      rw [byteAt] at hbyte
      split at hbyte <;> cases hbyte
      assumption
    rw [List.any_cons,hfirst]
    split at hscan
    · cases hscan
      simp_all [ended]
    · rename_i hmore
      have hnot : decide (some first=some (0 : UInt8))=false := by simpa using hmore
      rw [hnot,Bool.false_or]
      obtain ⟨attributes,-,hscan⟩ := bind_ok_iff.mp hscan
      split at hscan
      · exact ih hscan
      obtain ⟨nameField,-,hscan⟩ := bind_ok_iff.mp hscan
      split at hscan
      · exact ih hscan
      split at hscan
      · cases hscan
      obtain ⟨entry,-,hscan⟩ := bind_ok_iff.mp hscan
      exact ih hscan

/-- The scan of a cluster reads its sectors up to the end marker. -/
theorem yields_scanSectors {firstLba count index : ℕ}
    (hscan : Yields (contents disk) (scanSectors firstLba count index entries) scan asked) :
    ended scan=(List.range' (firstLba+index) count).any (marked disk) ∧
      ∃ reads ≤ count,(0<count → 0 < reads) ∧ asked=dataReads (firstLba+index) reads := by
  induction count generalizing index entries asked with
  | zero =>
    obtain ⟨rfl,rfl⟩ := yields_pure_iff.mp hscan
    exact ⟨rfl,0,le_rfl,id,rfl⟩
  | succ count ih =>
    rw [scanSectors] at hscan
    obtain ⟨lba,hlba,hscan⟩ := yields_settled_bind_iff.mp hscan
    obtain rfl := add_ok hlba
    obtain ⟨sector,before,after,hread,hrest,rfl⟩ := yields_bind_iff.mp hscan
    obtain ⟨hsector,rfl⟩ := yields_readSector_iff.mp hread
    obtain ⟨part,hpart,hrest⟩ := yields_settled_bind_iff.mp hrest
    have hmarked : marked disk (firstLba+index)=ended part := by
      rw [marked,hsector]
      exact (ended_scanRecords hpart).symm
    rw [List.range'_succ,List.any_cons,hmarked]
    cases part with
    | finished listed =>
      obtain ⟨rfl,rfl⟩ := yields_pure_iff.mp hrest
      exact ⟨rfl,1,by omega,fun _ => by omega,rfl⟩
    | more listed =>
      obtain ⟨hended,reads,hreads,-,rfl⟩ := ih hrest
      refine ⟨hended,reads+1,by omega,fun _ => by omega,?_⟩
      rw [dataReads,dataReads,List.range'_succ,List.map_cons,← Nat.add_assoc]
      rfl

section

variable (hvolume : Geometry volume)
include hvolume

/-- A directory that is read is a chain that comes to its end, and its
clusters are the ones that were scanned. -/
theorem yields_readDirectoryFrom {visited : ℕ} (hcluster : Valid volume cluster)
    (hread : Yields (contents disk) (readDirectoryFrom volume visited cluster entries)
      found asked) : ∃ rest,clustersRead volume asked=cluster::rest ∧
      Complete (directoryLink volume disk) (cluster::rest) := by
  induction hleft : volume.clusterCount-visited using Nat.strong_induction_on
    generalizing visited cluster entries asked with
  | _ left ih =>
    subst hleft
    rw [readDirectoryFrom] at hread
    split at hread
    · exact absurd hread not_yields_throw
    split at hread
    · exact absurd hread not_yields_throw
    obtain ⟨firstLba,hlba,hsteps⟩ := yields_settled_bind_iff.mp hread
    rw [clusterLba_ok hvolume hcluster] at hlba
    cases hlba
    obtain ⟨scan,early,late,hscan,hrest,rfl⟩ := yields_bind_iff.mp hsteps
    obtain ⟨hended,reads,hreads,hsome,rfl⟩ := yields_scanSectors hscan
    have hone : clustersRead volume (dataReads (firstSector volume cluster+0) reads)=[cluster] :=
      clustersRead_dataReads hcluster.1 (hsome hvolume.perCluster) hreads
    have hlink : directoryLink volume disk cluster=
        if ended scan then none else link volume disk cluster := by
      rw [hended]
      rfl
    rw [clustersRead_append,hone]
    cases scan with
    | finished listed =>
      obtain ⟨rfl,rfl⟩ := yields_pure_iff.mp hrest
      exact ⟨[],rfl,.last hlink⟩
    | more listed =>
      obtain ⟨next,middle,after,hnext,hmore,rfl⟩ := yields_bind_iff.mp hrest
      obtain ⟨htable,hvalid⟩ := yields_nextCluster hvolume hnext
      have hstep : directoryLink volume disk cluster=next := hlink.trans (link_of_yields hnext)
      rw [clustersRead_append,htable]
      cases next with
      | none =>
        obtain ⟨rfl,rfl⟩ := yields_pure_iff.mp hmore
        exact ⟨[],rfl,.last hstep⟩
      | some following =>
        obtain ⟨rest,hclusters,hcomplete⟩ :=
          ih _ (by omega) (hvalid following rfl) hmore rfl
        rw [hclusters]
        exact ⟨following::rest,rfl,.step hstep hcomplete⟩

theorem yields_readDirectory
    (hread : Yields (contents disk) (readDirectory volume cluster) found asked) :
    ∃ rest,clustersRead volume asked=cluster::rest ∧
      Complete (directoryLink volume disk) (cluster::rest) := by
  rw [readDirectory] at hread
  obtain ⟨_,hvalid,hfrom⟩ := yields_settled_bind_iff.mp hread
  exact yields_readDirectoryFrom hvolume ((validateCluster_ok_iff hvolume).mp hvalid) hfrom

/-- A file that is found and whose chain is long enough and readable is copied
from just the clusters of its chain. -/
theorem yields_read_of_chain
    (hmany : fat32MinClusters≤volume.clusterCount) {path : Utf8Text.Text} {entry : DirectoryEntry}
    (hlocate : ((locate volume path).run.eval (contents disk)).1=.ok (.entry entry))
    (hkind : entry.kind=.file) (hsize : entry.size≤ maxReadFileSize) {clusters : List ℕ}
    (hchain : fileChain volume disk entry.firstCluster entry.size=some clusters)
    (hreadable : ∀ cluster∈clusters,Readable volume disk cluster) :
    ∃ bytes before copied,Yields (contents disk) (locate volume path) (.entry entry) before ∧
      Yields (contents disk) (read volume path) bytes (before++copied) ∧
      bytes.length=entry.size ∧ clustersRead volume copied=clusters := by
  have hlocated : Yields (contents disk) (locate volume path) (.entry entry) _ :=
    Prod.ext hlocate rfl
  obtain ⟨bytes,copied,hentry⟩ := readEntry_succeeds hvolume hmany hkind hsize hchain hreadable
  obtain ⟨others,hothers,-,hlength,hcopied⟩ := yields_readEntry hvolume hentry
  rw [hchain] at hothers
  cases hothers
  exact ⟨bytes,_,copied,hlocated,yields_read_iff.mpr ⟨_,_,_,hlocated,hentry,rfl⟩,hlength,hcopied⟩

end

/-- The small disk, with deleted records only in cluster 3, which is linked to
itself. -/
def loopDisk : Disk := fun lba =>
  if lba=2681 then .ok (Sector.ofBlob (List.replicate 512 0xE5) 0) else fileDisk lba

theorem readDirectory_loopDisk : ((readDirectory sampleVolume 2).run.eval (contents loopDisk)).1=
      .ok [⟨['A'],.file,3,1024⟩,⟨['B'],.file,4,600⟩] := by
  rw [readDirectory,readDirectoryFrom]
  decide +kernel

end TuwaiqOS.FatLoops
