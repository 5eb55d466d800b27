import TuwaiqOS.PathResolution
import TuwaiqOS.TreeRuns

/-!
# Mount resolution by components

`resolve` compares texts and takes the mount with the longest text. For
tables that are built by `register` and canonical paths this is the longest
prefix in components: a mount matches exactly if its components begin the
path, two matching mounts are never equally long, and the rest of the path
is handed on. A path of a read-only or FAT32 mount is refused before the
backend is called.
-/

namespace TuwaiqOS.MountResolution

open BlockProgram Utf8Text FallibleSteps FsTree VfsPath VfsMounts TreeRuns
open PathResolution (canonicalText)

/-- Tables that calls of `register` build. A call that fails changes
nothing. -/
inductive Registered : List Mount → Prop where
  /-- The new table. -/
  | new : Registered []
  /-- One more mount. -/
  | register {mounts later : List Mount} (path : Text) (readOnly : Bool) (backend : Backend)
      (hpast : Registered mounts) (hregister : register mounts path readOnly backend=.ok later) :
      Registered later

/-- A path lies on a mount: the components of the mount begin the path. -/
def OnMount (mount : Mount) (absolute : Text) : Prop := parts mount.path<+:parts absolute

/-- A path is resolved to a mount and the rest of the path. -/
structure Resolves (mounts : List Mount) (absolute : Text) (mount : Mount) (backendPath : Text) :
    Prop where
  /-- The mount is registered. -/
  registered : mount∈mounts
  /-- The path lies on it. -/
  onMount : OnMount mount absolute
  /-- Every other mount that the path lies on is shorter. -/
  longest : ∀ other∈mounts,OnMount other absolute →
    other=mount ∨ (parts other.path).length<(parts mount.path).length
  /-- The backend gets the other components. -/
  rest : parts absolute=parts mount.path++parts backendPath
  /-- It gets them as an absolute path. -/
  text : backendPath=canonicalText (parts backendPath)

/-! ## Tables -/

section

variable {mounts : List Mount} {mount : Mount} {absolute backendPath : Text}

/-- Registered mounts have canonical paths, and no path twice. -/
theorem Registered.canonical (hmounts : Registered mounts) :
    (∀ mount∈mounts,Canonical mount.path) ∧ (mounts.map Mount.path).Nodup := by
  induction hmounts with
  | new => exact ⟨by simp,List.nodup_nil⟩
  | @register mounts later path readOnly backend _ hregister ih =>
    obtain ⟨hcanonical,hnodup⟩ := ih
    rw [VfsMounts.register] at hregister
    split at hregister
    · cases hregister
    obtain ⟨normalized,hnormalize,hadded⟩ := bind_ok_iff.mp hregister
    split at hadded
    · cases hadded
    rename_i hnew
    obtain ⟨hsame,hfresh⟩ := not_or.mp hnew
    cases hadded
    rw [not_not.mp hsame] at hnormalize ⊢
    have hpath := canonical_normalize canonical_root hnormalize
    constructor
    · intro mount hmem
      rcases List.mem_append.mp hmem with hold|hlast
      · exact hcanonical mount hold
      · rw [List.mem_singleton.mp hlast]
        exact hpath
    · rw [List.map_append,List.map_singleton,List.nodup_append]
      refine ⟨hnodup,List.nodup_singleton _,fun old hold last hlast hsame => hfresh ?_⟩
      rw [List.mem_singleton.mp hlast] at hsame
      obtain ⟨found,hfound,hpath⟩ := List.mem_map.mp hold
      exact List.any_eq_true.mpr ⟨found,hfound,decide_eq_true (hpath.trans hsame)⟩

/-- The table that is published at boot is built by `register`. -/
theorem registered_init {tuwaiqFs : Except String Unit} {volume : Except String Fat32Volume}
    (hinit : init tuwaiqFs volume=.ok mounts) : Registered mounts := by
  have hboot : ∀ {first},Registered first →
      ∀ {found},register first ['/','b','o','o','t'] true (.fat32 found)=.ok mounts →
        Registered mounts :=
    fun hfirst _ hadded => .register _ _ _ hfirst hadded
  cases tuwaiqFs with
  | error reason =>
    cases volume with
    | ok volume => exact hboot .new hinit
    | error reason =>
      cases hinit
      exact .new
  | ok mounted =>
    obtain ⟨first,hfirst,hadded⟩ := bind_ok_iff.mp hinit
    have hroot : Registered first := .register _ _ _ .new hfirst
    cases volume with
    | ok volume => exact hboot hroot hadded
    | error reason =>
      cases hadded
      exact hroot

/-! ## Texts and components -/

/-- A text matches a mount if its components begin with those of the
mount. -/
theorem mountMatches_iff {path : Text} (hmount : Canonical path) (habsolute : Canonical absolute) :
    mountMatches path absolute=true ↔ parts path<+:parts absolute := by
  rw [mountMatches,Bool.or_eq_true,Bool.or_eq_true,decide_eq_true_eq,decide_eq_true_eq,
    dropPrefix_any_iff]
  by_cases hsome : parts path=[]
  · have hroot := hmount.text
    rw [hsome,joinSlash_nil] at hroot
    rw [hsome]
    exact iff_of_true (Or.inl (Or.inl hroot)) (List.nil_prefix)
  have hroot : path≠['/'] := by
    intro hsame
    exact hsome (by rw [hsame]; decide)
  rw [below_iff hmount.text hsome habsolute]
  constructor
  · rintro ((hsame|hsame)|⟨first,rest,hparts⟩)
    · exact absurd hsame hroot
    · rw [hsame]
    · rw [hparts]
      exact List.prefix_append _ _
  · rintro ⟨rest,hparts⟩
    cases rest with
    | nil =>
      rw [List.append_nil] at hparts
      refine Or.inl (Or.inr ?_)
      rw [habsolute.text,← hparts,← hmount.text]
    | cons first rest => exact Or.inr ⟨first,rest,hparts.symm⟩

/-- More components make a longer text. -/
theorem len_canonicalText_lt (front : List Text) {next : Text} (hnext : next≠[])
    (rest : List Text) : len (canonicalText front)<len (canonicalText (front++next::rest)) := by
  have hlen := mt len_eq_zero.mp hnext
  have hpart : len next ≤ len (joinSlash (next::rest)) := by
    by_cases hrest : rest=[]
    · rw [hrest,joinSlash_singleton]
    · rw [joinSlash_cons hrest,len_append]
      omega
  rw [canonicalText,canonicalText,len_slash_cons,len_slash_cons]
  by_cases hfront : front=[]
  · rw [hfront,joinSlash_nil,List.nil_append,len_nil]
    omega
  · rw [joinSlash_append hfront (List.cons_ne_nil _ _),len_append,len_slash_cons]
    omega

/-- Of two mounts of a path, the one with the longer text has the longer
list, and equal texts belong to equal lists. -/
theorem shorter_of_len {other path : Text} (hother : Canonical other) (hpath : Canonical path)
    (hfirst : parts other<+:parts absolute) (hsecond : parts path<+:parts absolute)
    (hlen : len other ≤ len path) : other=path ∨ (parts other).length<(parts path).length := by
  rcases List.prefix_or_prefix_of_prefix hfirst hsecond with ⟨rest,hrest⟩|⟨rest,hrest⟩
  · cases rest with
    | nil =>
      rw [List.append_nil] at hrest
      exact Or.inl (by rw [hother.text,hrest,← hpath.text])
    | cons next rest =>
      refine Or.inr ?_
      rw [← hrest,List.length_append,List.length_cons]
      omega
  · cases rest with
    | nil =>
      rw [List.append_nil] at hrest
      exact Or.inl (by rw [hother.text,← hrest,← hpath.text])
    | cons next rest =>
      have hnext := ne_nil_of_mem_parts (show next∈parts other by rw [← hrest]; simp)
      have hlonger := len_canonicalText_lt (parts path) hnext rest
      rw [hrest,canonicalText,canonicalText,← hother.text,← hpath.text] at hlonger
      omega

/-- There is a longest mount unless there is none at all. -/
theorem longest_isSome (hmem : mount∈mounts) : ∃ found,longest mounts=some found := by
  cases mounts with
  | nil => cases hmem
  | cons first rest => exact longest_foldl_some rest first

/-- The rest of a path behind a mount. -/
theorem suffixBelow_eq {path : Text} (hpath : Canonical path) (habsolute : Canonical absolute)
    {rest : List Text} (hrest : parts absolute=parts path++rest) :
    ∃ suffix,suffixBelow path absolute=.ok suffix ∧
      (if suffix.isEmpty then ['/'] else suffix)=canonicalText rest := by
  have htext := habsolute.text
  by_cases hroot : path=['/']
  · have hempty : parts path=[] := by rw [hroot]; decide
    rw [hempty,List.nil_append] at hrest
    rw [hrest] at htext
    refine ⟨absolute,if_pos hroot,?_⟩
    rw [htext]
    exact if_neg (by simp)
  have hsome : parts path≠[] := by
    intro hempty
    have hown := hpath.text
    rw [hempty] at hown
    exact hroot hown
  have hsuffix : ∀ suffix,absolute=path++suffix → suffixBelow path absolute=.ok suffix := by
    intro suffix hjoin
    have hdrop : absolute.dropPrefix? path=some suffix :=
      List.dropPrefix?_eq_some_iff.mpr ⟨path,hjoin,by simp⟩
    rw [suffixBelow,if_neg hroot,hdrop]
  cases rest with
  | nil =>
    rw [List.append_nil] at hrest
    rw [hrest,← hpath.text] at htext
    exact ⟨[],hsuffix [] (by rw [htext,List.append_nil]),rfl⟩
  | cons next rest =>
    rw [hrest,joinSlash_append hsome (List.cons_ne_nil _ _),← List.cons_append,
      ← hpath.text] at htext
    exact ⟨'/'::joinSlash (next::rest),hsuffix _ htext,if_neg (by simp)⟩

/-- A canonical path is resolved by its components. -/
theorem resolve_resolves (hmounts : Registered mounts) (habsolute : Canonical absolute)
    (hthere : ∃ mount∈mounts,OnMount mount absolute) :
    ∃ mount backendPath,resolve mounts absolute=.ok (mount,backendPath) ∧
      Resolves mounts absolute mount backendPath := by
  obtain ⟨hcanonical,hnodup⟩ := Registered.canonical hmounts
  have hmatches : ∀ mount∈mounts,
      (mountMatches mount.path absolute=true ↔ OnMount mount absolute) :=
    fun mount hmem => mountMatches_iff (hcanonical mount hmem) habsolute
  obtain ⟨mount,hmem,hon⟩ := hthere
  have hfilter : mount∈mounts.filter fun mount => mountMatches mount.path absolute :=
    List.mem_filter.mpr ⟨hmem,(hmatches mount hmem).mpr hon⟩
  obtain ⟨found,hfound⟩ := longest_isSome hfilter
  obtain ⟨hregistered,hmatch⟩ := List.mem_filter.mp (longest_mem hfound)
  have hfoundOn := (hmatches found hregistered).mp hmatch
  obtain ⟨rest,hrest⟩ := hfoundOn
  obtain ⟨suffix,hsuffix,hbackend⟩ := suffixBelow_eq (hcanonical found hregistered) habsolute
    hrest.symm
  have hparts : parts (canonicalText rest)=rest := by
    have hmember : ∀ part∈rest,part∈parts absolute := by
      intro part hpart
      rw [← hrest]
      exact List.mem_append_right _ hpart
    exact parts_slash_joinSlash (fun part hpart => ne_nil_of_mem_parts (hmember part hpart))
      fun part hpart => slash_notMem_parts (hmember part hpart)
  refine ⟨found,canonicalText rest,?_,hregistered,⟨rest,hrest⟩,fun other hother hothers => ?_,
    by rw [hparts,hrest],by rw [hparts]⟩
  · rw [resolve,hfound]
    dsimp only
    rw [hsuffix,← hbackend]
    rfl
  · have hlen := (longest_foldl hfound).2.1 other
      (List.mem_filter.mpr ⟨hother,(hmatches other hother).mpr hothers⟩)
    refine (shorter_of_len (hcanonical other hother) (hcanonical found hregistered) hothers
      ⟨rest,hrest⟩ hlen).imp_left fun hsame => ?_
    exact List.inj_on_of_nodup_map hnodup hother hregistered hsame

/-- Without a mount there is no result. -/
theorem resolve_none (hmounts : Registered mounts) (habsolute : Canonical absolute)
    (hnone : ∀ mount∈mounts,¬OnMount mount absolute) :
    resolve mounts absolute=.error "no VFS mount for path" := by
  obtain ⟨hcanonical,-⟩ := Registered.canonical hmounts
  have hempty : (mounts.filter fun mount => mountMatches mount.path absolute)=[] := by
    refine List.filter_eq_nil_iff.mpr fun mount hmem hmatch => hnone mount hmem ?_
    exact (mountMatches_iff (hcanonical mount hmem) habsolute).mp hmatch
  rw [resolve,hempty]
  rfl

end

/-! ## Mutations -/

section

variable {mounts : List Mount} {mount : Mount} {absolute backendPath : Text}

/-- A path of a read-only or FAT32 mount is refused. -/
theorem mutate_refused {cwd path : Text} (hnormalize : normalize cwd path=.ok absolute)
    (hresolve : resolve mounts absolute=.ok (mount,backendPath))
    (hreadOnly : mount.readOnly=true ∨ ∃ volume,mount.backend=.fat32 volume) :
    mutate mounts cwd path=.error "read-only filesystem" := by
  cases hbackend : mount.backend with
  | fat32 volume => simp only [mutate,hnormalize,hresolve,hbackend,bind,Except.bind]
  | tuwaiq =>
    rcases hreadOnly with hflag|⟨volume,hvolume⟩
    · simp only [mutate,hnormalize,hresolve,hbackend,hflag,bind,Except.bind,if_true]
    · rw [hbackend] at hvolume
      cases hvolume

/-- A call whose path is refused asks nothing of the backend. -/
theorem mutation_refused {call : VfsCall} {reason : String}
    (hmutate : mutate mounts call.cwd call.path=.error reason) :
    call.mutation mounts=.error reason := by
  cases call with
  | createFile cwd path => exact congrArg (Mutation.createFile<$>·) hmutate
  | createDir cwd path => exact congrArg (Mutation.createDir<$>·) hmutate
  | writeFile cwd path bytes => exact congrArg ((Mutation.write · bytes)<$>·) hmutate
  | remove cwd path => exact congrArg (Mutation.remove<$>·) hmutate

/-- Mounts are found by the longest prefix in components, and read-only
mounts are out of reach for mutations. In every registered table, a canonical
path is resolved to the mount whose components are the longest prefix of its
own, with the other components as backend path, and fails if there is none;
and a mutating call on a path of a read-only or FAT32 mount ends with an error
without a single action. -/
theorem mounts_by_longest_prefix (hmounts : Registered mounts) :
    (∀ absolute,Canonical absolute →
      (∀ mount backendPath,resolve mounts absolute=.ok (mount,backendPath) →
        Resolves mounts absolute mount backendPath) ∧
      ((∃ reason,resolve mounts absolute=.error reason) ↔
        ∀ mount∈mounts,¬OnMount mount absolute)) ∧
    ∀ call absolute mount backendPath,normalize call.cwd call.path=.ok absolute →
      resolve mounts absolute=.ok (mount,backendPath) →
      (mount.readOnly=true ∨ ∃ volume,mount.backend=.fat32 volume) →
      ∃ reason,callVfs mounts call=Routine.ofExcept (.error reason) := by
  refine ⟨fun absolute habsolute => ⟨fun mount backendPath hresolve => ?_,?_⟩,
    fun call absolute mount backendPath hnormalize hresolve hreadOnly => ?_⟩
  · by_cases hthere : ∃ mount∈mounts,OnMount mount absolute
    · obtain ⟨found,path,hfound,hresolves⟩ := resolve_resolves hmounts habsolute hthere
      rw [hresolve] at hfound
      cases hfound
      exact hresolves
    · have hnone := resolve_none hmounts habsolute
        fun mount hmem hon => hthere ⟨mount,hmem,hon⟩
      rw [hresolve] at hnone
      cases hnone
  · constructor
    · rintro ⟨reason,herror⟩ mount hmem hon
      obtain ⟨found,path,hfound,-⟩ := resolve_resolves hmounts habsolute ⟨mount,hmem,hon⟩
      rw [herror] at hfound
      cases hfound
    · exact fun hnone => ⟨_,resolve_none hmounts habsolute hnone⟩
  · have hrefused := mutate_refused hnormalize hresolve hreadOnly
    refine ⟨"read-only filesystem",?_⟩
    rw [callVfs,mutation_refused hrefused]
    rfl

/-- With TuwaiqFS at `/` and a volume at `/boot`, the path `/bootx` belongs to
TuwaiqFS, and nothing below `/boot` can be removed. -/
theorem mounts_by_longest_prefix_boot :
    ∃ mounts mount backendPath,Registered mounts ∧
      resolve mounts ['/','b','o','o','t','x']=.ok (mount,backendPath) ∧
      Resolves mounts ['/','b','o','o','t','x'] mount backendPath ∧ mount.path=['/'] ∧
      ∃ reason,callVfs mounts (.remove ['/'] ['b','o','o','t','/','x'])=
        Routine.ofExcept (.error reason) := by
  let closed : Fat32Volume :=
    ⟨fun _ => .error "closed",fun _ => .error "closed",fun _ => .error "closed",
      fun _ => .error "closed"⟩
  have hmounts := registered_init (init_eq (.ok ()) (.ok closed))
  obtain ⟨hresolve,hrefuse⟩ := mounts_by_longest_prefix hmounts
  have hpath : Canonical ['/','b','o','o','t','x'] := canonical_normalize canonical_root
    (show normalize ['/'] ['b','o','o','t','x']=.ok ['/','b','o','o','t','x'] by decide)
  exact ⟨_,_,_,hmounts,rfl,(hresolve _ hpath).1 _ _ rfl,rfl,
    hrefuse (.remove ['/'] ['b','o','o','t','/','x']) ['/','b','o','o','t','/','x'] _ _ (by decide)
      rfl (Or.inl rfl)⟩

end

end TuwaiqOS.MountResolution
