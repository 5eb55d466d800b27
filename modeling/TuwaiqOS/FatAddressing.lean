import TuwaiqOS.AtaChannel
import TuwaiqOS.Fat32Bounds

/-!
# Sector numbers of the FAT32 volume in the registers of the drive

`mount` checks the geometry of a volume in 32-bit arithmetic, while the
registers of the drive take 28 bits of a sector number and the driver drops
the others without a word. A volume that ends at or below `2^28` sectors is
read as it is asked for. Nothing in `mount` refuses a larger one, and its
upper clusters are then read from somewhere else.
-/

namespace TuwaiqOS.FatAddressing

open Utf8Text ByteFields DeviceProgram Checkpoint Fat32 Fat32Bounds AtaChannel

/-- The drive is addressed at the sector that is asked for, and a read that
succeeds returns that sector. -/
structure Reached (lba : ℕ) : Prop where
  /-- The number has 28 bits. -/
  small : lba<2^28
  /-- The registers name the sector. -/
  registers : ∀ {channel last : Channel},channel.phase=.idle →
    Driver.Returns Responds (setAddress lba) channel (.ok ()) last → last.registers.lba=lba
  /-- The buffer gets its bytes. -/
  buffer : ∀ {channel last : Channel} {buffer : List UInt8},channel.phase=.idle →
    Driver.Returns Responds (AtaChannel.readSector lba) channel (.ok buffer) last →
      buffer=(channel.disk lba).bytes

theorem reached_of_lt {lba : ℕ} (hsmall : lba<2^28) : Reached lba := by
  refine ⟨hsmall,fun hidle haddress => ?_,fun hidle hread => ?_⟩
  · rcases setAddress_cases hidle haddress with ⟨-,rfl⟩|⟨⟨reason,herror⟩,-⟩
    · exact lba_addressed hsmall _
    · cases herror
  · exact (readSector_alone hsmall hidle hread).2 _ rfl

/-- Every sector of a routine is reached, whatever the disk answers. -/
def Addressable {α : Type} (routine : FatRoutine α) : Prop :=
  ∀ device,∀ access∈(routine.run.play device []).2,Reached access.lba

/-- A sector of the volume lies below its end. -/
theorem InRegion.lt {volume : Fat32Volume} (hvolume : Geometry volume) {access : ReadSector}
    (hregion : InRegion volume access) :
    access.lba<volume.partitionStart+volume.partitionSectors := by
  have htable := hvolume.table
  have hdata := hvolume.data
  rw [InRegion] at hregion
  split at hregion
  · exact hregion.elim
  · omega
  · exact hregion.2

theorem addressable_of_guarded {α : Type} {volume : Fat32Volume} (hvolume : Geometry volume)
    (hend : volume.partitionStart+volume.partitionSectors ≤ 2^28) {routine : FatRoutine α}
    {success : α → Prop} (hroutine : Guarded (InRegion volume) Reported success routine) :
    Addressable routine := by
  intro device access haccess
  have hregion := (staysInside_of_guarded hroutine device).1 access haccess
  have hlt := InRegion.lt hvolume hregion
  exact reached_of_lt (by omega)

/-- A partition table with one FAT32 partition of `2^29` sectors. -/
def largeMbr : List UInt8 :=
  List.replicate 450 0++[0x0C,0,0,0]++leBytes 4 2048++leBytes 4 (2^29)++List.replicate 48 0++
    [0x55,0xAA]

/-- A boot sector with 32 reserved sectors, one table of 40000 sectors,
clusters of 128 sectors and the root directory in the second half. -/
def largeBpb : List UInt8 :=
  List.replicate 11 0++[0,2,128,32,0,1]++List.replicate 15 0++leBytes 4 (2^29)++leBytes 4 40000++
    List.replicate 4 0++leBytes 4 (2^21+2)++List.replicate 462 0++[0x55,0xAA]

/-- A disk with these two sectors and zeros elsewhere, read through the
registers of the drive. -/
def largeDisk (_ : List ReadSector) (access : ReadSector) : Except String Sector :=
  if access.lba%2^28=0 then .ok (Sector.ofBlob largeMbr 0)
  else if access.lba%2^28=2048 then .ok (Sector.ofBlob largeBpb 0)
  else .ok Sector.zero

/-- What `mount` makes of it. -/
def largeVolume : Fat32Volume := ⟨2048,2^29,128,2080,40000,42080,2^21+2,4193991⟩

end TuwaiqOS.FatAddressing
