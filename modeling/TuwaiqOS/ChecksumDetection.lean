import TuwaiqOS.SlotContents

/-!
# Damage that the checksum detects

A round of `crc32` is linear and its highest bit is the lowest bit before, so
a difference of two registers never disappears and comes only from four bytes
that are the same. Two blobs that differ inside a window of four bytes have
different checksums, and a committed slot with such a payload is not loaded.
-/

namespace TuwaiqOS.ChecksumDetection

open Checkpoint SlotContents TreeCodec

/-- The bits of the register after a round. -/
theorem testBit_crcRound (crc : UInt32) (index : ℕ) : (crcRound crc).toNat.testBit index=
      (crc.toNat.testBit (index+1)^^((0xEDB88320).testBit index && crc.toNat.testBit 0)) := by
  have hlow : (crc &&& 1).toNat=crc.toNat%2 := by
    rw [UInt32.toNat_and]
    exact Nat.and_one_is_mod _
  have hshift : (crc>>>1).toNat=crc.toNat>>>1 := UInt32.toNat_shiftRight crc 1
  rw [crcRound,UInt32.toNat_xor,Nat.testBit_xor,hshift,Nat.testBit_shiftRight,Nat.add_comm 1,
    Nat.testBit_zero]
  rcases Nat.mod_two_eq_zero_or_one crc.toNat with heven|hodd
  · have hmask : crc &&& 1=0 := UInt32.toNat_inj.mp (hlow.trans heven)
    have hnone : (0xEDB88320 &&& (0-0) : UInt32)=0 := rfl
    rw [hmask,hnone,heven]
    simp
  · have hmask : crc &&& 1=1 := UInt32.toNat_inj.mp (hlow.trans hodd)
    have hall : (0xEDB88320 &&& (0-1) : UInt32)=0xEDB88320 := rfl
    have hpoly : (0xEDB88320 : UInt32).toNat=0xEDB88320 := rfl
    rw [hmask,hall,hodd,hpoly]
    simp

/-- A round is linear. -/
theorem crcRound_xor (first second : UInt32) :
    crcRound (first^^^second)=crcRound first^^^crcRound second := by
  refine UInt32.toNat_inj.mp (Nat.eq_of_testBit_eq fun index => ?_)
  simp only [UInt32.toNat_xor,Nat.testBit_xor,testBit_crcRound]
  grind

/-- A small register was shifted only. -/
theorem crcRound_small {crc : UInt32} (hsmall : (crcRound crc).toNat<2^31) :
    crc.toNat=2*(crcRound crc).toNat := by
  have htop := Nat.testBit_lt_two_pow hsmall
  have hlast : crc.toNat.testBit 32=false := Nat.testBit_lt_two_pow crc.toNat_lt
  have hpoly : Nat.testBit 0xEDB88320 31=true := rfl
  rw [testBit_crcRound,hlast,hpoly,Bool.false_xor,Bool.true_and] at htop
  refine Nat.eq_of_testBit_eq fun index => ?_
  cases index with
  | zero => simp [htop]
  | succ index =>
    rw [Nat.testBit_succ (2*_),Nat.mul_div_cancel_left _ (by omega),testBit_crcRound,htop]
    simp

/-- Rounds that leave few low bits were shifts only. -/
theorem crcRounds_small {crc : UInt32} {rounds bits : ℕ} (hfit : rounds+bits≤32)
    (hsmall : (crcRound^[rounds] crc).toNat<2^bits) :
    crc.toNat=2^rounds*(crcRound^[rounds] crc).toNat := by
  induction rounds generalizing crc with
  | zero => simp
  | succ rounds ih =>
    rw [Function.iterate_succ_apply] at hsmall ⊢
    have hnext := ih (by omega) hsmall
    have hround : (crcRound crc).toNat<2^31 := by
      calc (crcRound crc).toNat=2^rounds*(crcRound^[rounds] (crcRound crc)).toNat := hnext
        _ < 2^rounds*2^bits := Nat.mul_lt_mul_of_pos_left hsmall (Nat.two_pow_pos _)
        _ = 2^(rounds+bits) := (Nat.pow_add _ _ _).symm
        _ ≤ 2^31 := Nat.pow_le_pow_right (by omega) (by omega)
    rw [crcRound_small hround,hnext,Nat.pow_succ,Nat.mul_comm (2^rounds) 2,Nat.mul_assoc]

/-- The register after one more byte. -/
def crcByte (crc : UInt32) (byte : UInt8) : UInt32 := crcRound^[8] (crc^^^byte.toUInt32)

/-- The difference of two registers after one byte each. -/
theorem crcByte_xor (first second : UInt32) (good bad : UInt8) :
    crcByte first good^^^crcByte second bad=
      crcRound^[8] ((first^^^second)^^^(good^^^bad).toUInt32) := by
  have hlinear := Function.Semiconj₂.iterate crcRound_xor 8
  rw [crcByte,crcByte,← hlinear.eq,UInt8.toUInt32_xor]
  congr 1
  ac_rfl

/-- Registers that agree after the same bytes agreed before them. -/
theorem crc_injective (after : List UInt8) {first second : UInt32}
    (hsame : after.foldl crcByte first=after.foldl crcByte second) : first=second := by
  induction after generalizing first second with
  | nil => exact hsame
  | cons byte after ih =>
    have hxor : crcByte first byte^^^crcByte second byte=0 := by
      rw [ih hsame,UInt32.xor_self]
    rw [crcByte_xor,UInt8.xor_self] at hxor
    have hzero := @crcRounds_small (first^^^second^^^UInt8.toUInt32 0) 8 0 (by omega)
      (by rw [hxor]; decide)
    rw [hxor] at hzero
    have hnone : first^^^second^^^0=0 := UInt32.toNat_inj.mp hzero
    exact UInt32.xor_eq_zero_iff.mp (by rwa [UInt32.xor_zero] at hnone)

/-- If at most four bytes each lead to the same register, the registers before
differ in the bits of these bytes only, and equal registers before mean equal
bytes. -/
theorem crc_window {good bad : List UInt8} {first second : UInt32}
    (hlength : good.length=bad.length) (hwindow : good.length≤4)
    (hsame : good.foldl crcByte first=bad.foldl crcByte second) :
    (first^^^second).toNat<2^(8*good.length) ∧ (first=second → good=bad) := by
  induction good generalizing bad first second with
  | nil =>
    cases List.length_eq_zero_iff.mp hlength.symm
    cases hsame
    simp
  | cons byte good ih =>
    obtain ⟨other,bad,rfl⟩ := List.exists_cons_of_length_eq_add_one hlength.symm
    rw [List.length_cons] at hwindow ⊢
    obtain ⟨hsmall,hrest⟩ := ih (Nat.succ.inj hlength) (by omega) hsame
    rw [crcByte_xor] at hsmall
    have hshifted := crcRounds_small (by omega) hsmall
    have hbyte : (byte^^^other).toUInt32.toNat<2^8 := (byte^^^other).toNat_lt
    rw [UInt32.toNat_xor] at hshifted
    refine ⟨?_,?_⟩
    · have hboth : (first^^^second).toNat=
          2^8*(crcRound^[8] ((first^^^second)^^^(byte^^^other).toUInt32)).toNat^^^
            (byte^^^other).toUInt32.toNat := by
        rw [← hshifted,Nat.xor_assoc,Nat.xor_self,Nat.xor_zero]
      rw [hboth]
      refine Nat.xor_lt_two_pow ?_ (hbyte.trans_le (Nat.pow_le_pow_right (by omega) (by omega)))
      calc _ < 2^8*2^(8*good.length) := Nat.mul_lt_mul_of_pos_left hsmall (by omega)
        _ = 2^(8*(good.length+1)) := by rw [← Nat.pow_add]; congr 1; omega
    · rintro rfl
      rw [UInt32.xor_self,UInt32.toNat_zero,Nat.zero_xor] at hshifted
      have hnone : byte^^^other=0 := UInt8.toNat_inj.mp (show (byte^^^other).toUInt32.toNat=0 by omega)
      cases UInt8.xor_eq_zero_iff.mp hnone
      rw [hrest rfl]

/-- The two blobs have the same length and differ inside a window of four bytes
only. -/
def WindowDamage (blob damaged : List UInt8) : Prop :=
  damaged.length=blob.length ∧ damaged≠blob ∧
    ∃ start,∀ index,index<start ∨ start+4 ≤ index → damaged[index]?=blob[index]?

theorem crc32_ne {blob damaged : List UInt8} (hdamage : WindowDamage blob damaged) :
    crc32 damaged≠crc32 blob := by
  obtain ⟨hlength,hne,start,hsame⟩ := hdamage
  have hbefore : damaged.take start=blob.take start := by
    refine List.ext_getElem? fun index => ?_
    rw [List.getElem?_take,List.getElem?_take]
    split_ifs with hindex
    · exact hsame index (Or.inl hindex)
    · rfl
  have hafter : (damaged.drop start).drop 4=(blob.drop start).drop 4 := by
    refine List.ext_getElem? fun index => ?_
    rw [List.getElem?_drop,List.getElem?_drop,List.getElem?_drop,List.getElem?_drop]
    exact hsame _ (Or.inr (by omega))
  have hparts : ∀ bytes : List UInt8,bytes=
      bytes.take start++((bytes.drop start).take 4++(bytes.drop start).drop 4) := by
    intro bytes
    rw [List.take_append_drop,List.take_append_drop]
  intro hcrc
  have hfold : damaged.foldl crcByte 0xFFFFFFFF=blob.foldl crcByte 0xFFFFFFFF :=
    UInt32.not_inj.mp hcrc
  rw [hparts damaged,hparts blob,hbefore,hafter,List.foldl_append,List.foldl_append,
    List.foldl_append,List.foldl_append] at hfold
  have hmiddle := (crc_window (by simp [hlength]) (by simp) (crc_injective _ hfold)).2 rfl
  exact hne ((hparts damaged).trans (by rw [hbefore,hmiddle,hafter,← hparts blob]))

/-- For every blob of a size that `sync_tree` accepts, damage inside a window
of four bytes changes the checksum, and `load_checkpoint` returns nothing for a
slot with the committed header of the blob and the damaged payload. -/
theorem window_damage_detected {blob damaged : List UInt8} (hfit : blob.length≤ maxMetadataBytes)
    (hdamage : WindowDamage blob damaged) :
    crc32 damaged≠crc32 blob ∧ ∀ (machine : FsMachine) slot generation,slot<2 →
      machine.disk (slotStart slot)=headerSector generation blob true →
      storedBytes machine.disk (slotStart slot+1) blob.length=damaged →
      BlockProgram.Routine.perform (loadCheckpoint slot) machine=(.ok none,machine) := by
  have hcrc := crc32_ne hdamage
  refine ⟨hcrc,fun machine slot generation hslot hheader hstored => ?_⟩
  have hlength : (headerSector generation blob true).number 16 4=blob.length :=
    headerSector_length generation (hfit.trans_lt (by decide)) true
  have hwrong : (crc32 damaged).toNat≠(headerSector generation blob true).number 20 4 := by
    rw [headerSector_crc]
    exact fun hsame => hcrc (UInt32.toNat_inj.mp hsame)
  rw [perform_loadCheckpoint hslot,slotValue,slotAt,hheader,hlength,hstored]
  dsimp only
  rw [if_pos hwrong,ite_self,ite_self]

/-- The committed header of a payload in the first slot, and another payload of
one sector. -/
def damagedDisk (blob damaged : List UInt8) : Disk := fun lba =>
  if lba=slotALba then headerSector 1 blob true else Sector.ofBlob damaged 0

/-- A payload in which the last byte was changed. -/
theorem window_damage_detected_last :
    crc32 [0x54,0x52,0x45,0x46]≠crc32 treeMagic ∧
      BlockProgram.Routine.perform (loadCheckpoint 0)
          (boot (damagedDisk treeMagic [0x54,0x52,0x45,0x46]))=
        (.ok none,boot (damagedDisk treeMagic [0x54,0x52,0x45,0x46])) := by
  obtain ⟨hcrc,hload⟩ := @window_damage_detected treeMagic [0x54,0x52,0x45,0x46] (by decide)
    ⟨rfl,by decide,3,fun index hindex => by
      obtain rfl|rfl|rfl|hlarge : index=0 ∨ index=1 ∨ index=2 ∨ 4 ≤ index := by omega
      · rfl
      · rfl
      · rfl
      · rw [List.getElem?_eq_none hlarge,List.getElem?_eq_none hlarge]⟩
  refine ⟨hcrc,hload (boot _) 0 1 (by decide) rfl ?_⟩
  exact @storedBytes_ofBlob _ _ [0x54,0x52,0x45,0x46] fun index hindex => by
    obtain rfl : index=0 := by simpa using hindex
    rfl

end TuwaiqOS.ChecksumDetection
