import Mathlib.Tactic

/-!
# Unicode text, its UTF-8 bytes and slash-separated components

A Rust `str` is a sequence of Unicode scalar values, so it is modelled as a
list of characters: an ill-formed string cannot be built. Lengths and byte
tests refer to the UTF-8 encoding. Decoding accepts exactly the encodings.
-/

namespace TuwaiqOS.Utf8Text

/-- Contents of a Rust `str` or `String`. -/
abbrev Text := List Char

/-- The UTF-8 bytes of a text (`str::as_bytes`). -/
def asBytes (text : Text) : List UInt8 := text.flatMap String.utf8EncodeChar

/-- The length of a text in bytes (`str::len`). -/
def len (text : Text) : ℕ := (asBytes text).length

/-- Checked conversion from bytes (`core::str::from_utf8`). -/
def fromUtf8 (bytes : List UInt8) : Option Text := bytes.toByteArray.utf8Decode?.map Array.toList

/-- Some byte of the text is a control byte: `byte == 0 || byte < 0x20`. -/
def hasControlByte (text : Text) : Bool := (asBytes text).any fun byte => byte==0 || byte<0x20

@[simp] theorem asBytes_append (first second : Text) :
    asBytes (first++second)=asBytes first++asBytes second := List.flatMap_append

@[simp] theorem len_nil : len []=0 := rfl

@[simp] theorem len_append (first second : Text) : len (first++second)=len first+len second := by
  simp only [len,asBytes_append,List.length_append]

/-- The separator is one byte long. -/
@[simp] theorem len_slash_cons (text : Text) : len ('/'::text)=len text+1 := by
  have hslash : String.utf8EncodeChar '/'=[0x2f] := by decide
  simp only [len,asBytes,List.flatMap_cons,hslash,List.length_append,List.length_cons,
    List.length_nil]
  omega

variable {text part : Text} {parts : List Text}

/-- Only the empty text is empty as bytes. -/
theorem len_eq_zero : len text=0 ↔ text=[] := by
  constructor
  · intro hlen
    cases text with
    | nil => rfl
    | cons char rest =>
      have hsize := char.utf8Size_pos
      simp only [len,asBytes,List.flatMap_cons,List.length_append,
        String.length_utf8EncodeChar] at hlen
      omega
  · rintro rfl
    rfl

/-- Every text is read back from its own bytes. -/
theorem fromUtf8_asBytes (text : Text) : fromUtf8 (asBytes text)=some text := by
  have hencode : (asBytes text).toByteArray=text.utf8Encode := rfl
  rw [fromUtf8,hencode,List.utf8Decode?_utf8Encode]
  rfl

/-- What is read as a text are the bytes of the text. -/
theorem asBytes_fromUtf8 {bytes : List UInt8} (hread : fromUtf8 bytes=some text) :
    asBytes text=bytes := by
  obtain ⟨chars,hchars,rfl⟩ := Option.map_eq_some_iff.mp hread
  have hsome : bytes.toByteArray.utf8Decode?.isSome=true := by rw [hchars]; rfl
  have hencode := ByteArray.utf8Encode_get_utf8Decode? (h := hsome)
  simp only [hchars,Option.get_some] at hencode
  have hsame : (asBytes chars.toList).toByteArray=bytes.toByteArray := hencode
  simpa using congrArg (fun array => array.data.toList) hsame

theorem hasControlByte_append (first second : Text) :
    hasControlByte (first++second)=(hasControlByte first || hasControlByte second) := by
  rw [hasControlByte,asBytes_append,List.any_append]
  rfl

/-- A separator is not a control byte. -/
theorem hasControlByte_slash_cons (text : Text) :
    hasControlByte ('/'::text)=hasControlByte text := by
  have hslash : hasControlByte ['/']=false := by decide
  rw [← List.singleton_append,hasControlByte_append,hslash,Bool.false_or]

/-- Components joined by single slashes. -/
def joinSlash (parts : List Text) : Text := ['/'].intercalate parts

@[simp] theorem joinSlash_nil : joinSlash []=[] := rfl

@[simp] theorem joinSlash_singleton (part : Text) : joinSlash [part]=part := by
  simp [joinSlash]

theorem joinSlash_cons (hparts : parts≠[]) :
    joinSlash (part::parts)=part++ '/'::joinSlash parts := by
  simp [joinSlash,List.intercalate_cons_of_ne_nil hparts]

/-- The first parts stand before the others. -/
theorem joinSlash_append {first second : List Text} (hfirst : first≠[]) (hsecond : second≠[]) :
    joinSlash (first++second)=joinSlash first++ '/'::joinSlash second := by
  induction first with
  | nil => exact absurd rfl hfirst
  | cons part rest ih =>
    by_cases hrest : rest=[]
    · rw [hrest,List.singleton_append,joinSlash_cons hsecond,joinSlash_singleton]
    · rw [List.cons_append,joinSlash_cons (by simp [hrest]),ih hrest,joinSlash_cons hrest,
        List.append_assoc,List.cons_append]

/-- Joining one more component at the end. -/
theorem joinSlash_concat (hparts : parts≠[]) (part : Text) :
    joinSlash (parts++[part])=joinSlash parts++ '/'::part := by
  rw [joinSlash_append hparts (List.cons_ne_nil part []),joinSlash_singleton]

/-- Splitting a joined path gives back its components. -/
theorem splitOn_joinSlash (hparts : parts≠[]) (hslash : ∀ part∈parts,'/'∉part) :
    (joinSlash parts).splitOn '/'=parts :=
  List.splitOn_intercalate '/' hslash hparts

/-- Joining the pieces of a text gives the text. -/
theorem joinSlash_splitOn (text : Text) : joinSlash (text.splitOn '/')=text :=
  List.intercalate_splitOn '/'

/-- No piece of a split text contains the separator. -/
theorem slash_notMem_splitOn (hpart : part∈text.splitOn '/') : '/'∉part := by
  induction text generalizing part with
  | nil =>
    rw [List.splitOn_nil,List.mem_singleton] at hpart
    subst hpart
    exact List.not_mem_nil
  | cons char rest ih =>
    rw [List.splitOn_cons_eq_if_modifyHead] at hpart
    split at hpart
    · rcases List.mem_cons.mp hpart with rfl|hrest
      · exact List.not_mem_nil
      · exact ih hrest
    · rename_i hchar
      rcases hsplit : rest.splitOn '/' with _|⟨first,later⟩
      · exact absurd hsplit (List.splitOn_ne_nil '/' rest)
      · rw [hsplit,List.modifyHead_cons] at hpart
        rcases List.mem_cons.mp hpart with rfl|hlater
        · have hfirst := ih (by rw [hsplit]; exact List.mem_cons_self)
          have hne : char≠ '/' := fun heq => hchar (by rw [heq]; rfl)
          simpa [List.mem_cons,hfirst] using hne.symm
        · exact ih (by rw [hsplit]; exact List.mem_cons_of_mem _ hlater)

/-- Members of a joined path are control free when the path is. -/
theorem hasControlByte_of_mem_joinSlash (hpath : hasControlByte (joinSlash parts)=false)
    (hpart : part∈parts) : hasControlByte part=false := by
  induction parts with
  | nil => exact absurd hpart List.not_mem_nil
  | cons first rest ih =>
    by_cases hrest : rest=[]
    · subst hrest
      rw [joinSlash_singleton] at hpath
      rwa [List.mem_singleton.mp hpart]
    · rw [joinSlash_cons hrest,hasControlByte_append,hasControlByte_slash_cons,
        Bool.or_eq_false_iff] at hpath
      rcases List.mem_cons.mp hpart with rfl|hlater
      · exact hpath.1
      · exact ih hpath.2 hlater

/-- A path joined from control-free components is control free. -/
theorem hasControlByte_joinSlash (hparts : ∀ part∈parts,hasControlByte part=false) :
    hasControlByte (joinSlash parts)=false := by
  induction parts with
  | nil => rfl
  | cons first rest ih =>
    by_cases hrest : rest=[]
    · subst hrest
      rw [joinSlash_singleton]
      exact hparts first List.mem_cons_self
    · rw [joinSlash_cons hrest,hasControlByte_append,hasControlByte_slash_cons,
        hparts first List.mem_cons_self,ih (fun part h => hparts part (List.mem_cons_of_mem _ h))]
      rfl

/-- A character other than the separator occurs in a joined path exactly
when it occurs in a component. -/
theorem mem_joinSlash {char : Char} (hchar : char≠ '/') :
    char∈joinSlash parts ↔ ∃ part∈parts,char∈part := by
  induction parts with
  | nil => simp
  | cons first rest ih =>
    by_cases hrest : rest=[]
    · subst hrest
      simp
    · rw [joinSlash_cons hrest,List.mem_append,List.mem_cons,ih]
      simp [hchar]

end TuwaiqOS.Utf8Text
