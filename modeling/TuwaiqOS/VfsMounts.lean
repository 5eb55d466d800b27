import TuwaiqOS.FsService

/-!
# The mount table and the operations of the VFS

`vfs.rs` normalizes a path, finds the mount with the longest matching path
and hands the rest of the path to its backend. TuwaiqFS is mounted at `/`,
and a FAT32 volume, if there is one, at `/boot`. The FAT32 volume is given by
what its read-only operations return. A mutation reaches TuwaiqFS only, with
the normalized path.
-/

namespace TuwaiqOS.VfsMounts

open Utf8Text FallibleSteps FsTree VfsPath

/-- `Fat32Volume`, by the results of its operations. -/
structure Fat32Volume where
  /-- Kind of the node at a path. -/
  kind : Text → Except String EntryKind
  /-- Contents of the file at a path. -/
  read : Text → Except String (List UInt8)
  /-- Entries of the directory at a path. -/
  list : Text → Except String (List Text)
  /-- Metadata of the node at a path. -/
  metadata : Text → Except String EntryMetadata

/-- What serves the paths of a mount. -/
inductive Backend where
  /-- The published tree of TuwaiqFS. -/
  | tuwaiq
  /-- A FAT32 volume. -/
  | fat32 (volume : Fat32Volume)

/-- `Mount`, without its label. -/
structure Mount where
  /-- Where it is mounted. -/
  path : Text
  /-- Whether mutations are refused. -/
  readOnly : Bool
  /-- What serves it. -/
  backend : Backend

/-- `MAX_MOUNTS`. -/
def maxMounts : ℕ := 8

/-- `MountTable::register`. -/
def register (mounts : List Mount) (path : Text) (readOnly : Bool) (backend : Backend) :
    Except String (List Mount) :=
  if maxMounts ≤ mounts.length then .error "mount table full"
  else do
    let normalized ← normalize ['/'] path
    if normalized≠path ∨ (mounts.any fun mount => mount.path=path)=true then
      .error "invalid or duplicate mount path"
    else pure (mounts++[⟨normalized,readOnly,backend⟩])

/-- `mount_matches`. -/
def mountMatches (mount absolute : Text) : Bool :=
  mount=['/'] || absolute=mount ||
    (absolute.dropPrefix? mount).any fun suffix => suffix.head?=some '/'

/-- `max_by_key` with the length of the path; the last one of the longest. -/
def longest (mounts : List Mount) : Option Mount :=
  mounts.foldl (fun best mount => match best with
    | none => some mount
    | some found => if len found.path≤len mount.path then some mount else some found) none

/-- The rest of a path behind the path of a mount. -/
def suffixBelow (mount absolute : Text) : Except String Text :=
  if mount=['/'] then .ok absolute
  else match absolute.dropPrefix? mount with
    | none => .error "mount prefix mismatch"
    | some suffix => .ok suffix

/-- `MountTable::resolve`. -/
def resolve (mounts : List Mount) (absolute : Text) : Except String (Mount×Text) :=
  match longest (mounts.filter fun mount => mountMatches mount.path absolute) with
  | none => .error "no VFS mount for path"
  | some mount => do
    let suffix ← suffixBelow mount.path absolute
    pure (mount,if suffix.isEmpty then ['/'] else suffix)

section

variable (tuwaiqFs : Except String Unit) (volume : Except String Fat32Volume)

/-- `init`: the table that is published, by whether the two volumes could be
mounted. An error is a panic. -/
def init :
    Except String (List Mount) := do
  let mounts ← match tuwaiqFs with
    | .ok () => register [] ['/'] false .tuwaiq
    | .error _ => pure []
  match volume with
  | .ok volume => register mounts ['/','b','o','o','t'] true (.fat32 volume)
  | .error _ => pure mounts

/-- `init` does not panic: the table has what could be mounted. -/
theorem init_eq :
    init tuwaiqFs volume=.ok (
      (match tuwaiqFs with
        | .ok () => [⟨['/'],false,.tuwaiq⟩]
        | .error _ => [])++
      match volume with
        | .ok volume => [⟨['/','b','o','o','t'],true,.fat32 volume⟩]
        | .error _ => []) := by
  have hroot : normalize ['/'] ['/']=.ok ['/'] := by decide
  have hboot : normalize ['/'] ['/','b','o','o','t']=.ok ['/','b','o','o','t'] := by decide
  rcases tuwaiqFs with _|_ <;> rcases volume with _|volume <;>
    simp [init,register,hroot,hboot,maxMounts] <;> rfl

end

/-! ## Operations -/

/-- `with_fs`: the published tree. -/
def withFs {α : Type} (fs : Option FsNode) (read : FsNode → Except String α) : Except String α :=
  match fs with
  | none => .error "filesystem not initialized"
  | some root => read root

/-- `backend_kind`. -/
def backendKind (fs : Option FsNode) (path : Text) : Backend → Except String EntryKind
  | .tuwaiq => withFs fs fun root => kindAt root path
  | .fat32 volume => volume.kind path

/-- `kind`. -/
def kind (mounts : List Mount) (fs : Option FsNode) (cwd path : Text) : Except String EntryKind := do
  let absolute ← normalize cwd path
  let (mount,backendPath) ← resolve mounts absolute
  backendKind fs backendPath mount.backend

/-- `read_file`. -/
def readFile (mounts : List Mount) (fs : Option FsNode) (cwd path : Text) :
    Except String (List UInt8) := do
  let absolute ← normalize cwd path
  let (mount,backendPath) ← resolve mounts absolute
  match mount.backend with
  | .tuwaiq => withFs fs fun root => readAt root backendPath
  | .fat32 volume => volume.read backendPath

/-- The name under which a mount stands in the directory, if it stands
there. -/
def mountChild (absolute : Text) (candidate : Mount) : Option Text :=
  if candidate.path=['/'] ∨ '/'∉candidate.path then none
  else
    let before := textBeforeSlash candidate.path
    if (if before.isEmpty then ['/'] else before)=absolute then
      some (candidate.path.drop (before.length+1))
    else none

/-- `trim_end_matches('/')`. -/
def trimSlashes (entry : Text) : Text := (entry.reverse.dropWhile (·= '/')).reverse

/-- Add a mount to a listing that does not have an entry of its name. -/
def mergeChild (entries : List Text) (child : Text) : List Text :=
  if (entries.any fun entry => trimSlashes entry=child)=true then entries
  else entries++[child++['/']]

/-- `list_dir`. -/
def listDir (mounts : List Mount) (fs : Option FsNode) (cwd path : Text) :
    Except String (List Text) := do
  let absolute ← normalize cwd path
  let (mount,backendPath) ← resolve mounts absolute
  let entries ← match mount.backend with
    | .tuwaiq => withFs fs fun root => listAt root backendPath
    | .fat32 volume => volume.list backendPath
  pure ((mounts.filterMap (mountChild absolute)).foldl mergeChild entries)

/-- `metadata`. -/
def metadata (mounts : List Mount) (fs : Option FsNode) (cwd path : Text) :
    Except String EntryMetadata := do
  let absolute ← normalize cwd path
  let (mount,backendPath) ← resolve mounts absolute
  match mount.backend with
  | .tuwaiq => withFs fs fun root => metadataAt root backendPath
  | .fat32 volume => volume.metadata backendPath

/-- `mutate`, up to the call of the backend: the path it is called with. -/
def mutate (mounts : List Mount) (cwd path : Text) : Except String Text := do
  let absolute ← normalize cwd path
  let (mount,backendPath) ← resolve mounts absolute
  match mount.backend with
  | .tuwaiq => if mount.readOnly then .error "read-only filesystem" else pure backendPath
  | .fat32 _ => .error "read-only filesystem"

/-- A mutating call of the VFS. -/
inductive VfsCall where
  /-- `create_file`. -/
  | createFile (cwd path : Text)
  /-- `create_dir`. -/
  | createDir (cwd path : Text)
  /-- `write_file`. -/
  | writeFile (cwd path : Text) (bytes : List UInt8)
  /-- `remove`. -/
  | remove (cwd path : Text)

/-- The working directory of a call. -/
def VfsCall.cwd : VfsCall → Text
  | .createFile cwd _ => cwd
  | .createDir cwd _ => cwd
  | .writeFile cwd _ _ => cwd
  | .remove cwd _ => cwd

/-- The path of a call. -/
def VfsCall.path : VfsCall → Text
  | .createFile _ path => path
  | .createDir _ path => path
  | .writeFile _ path _ => path
  | .remove _ path => path

/-- What a call asks of the backend. -/
def VfsCall.mutation (mounts : List Mount) : VfsCall → Except String Mutation
  | .createFile cwd path => Mutation.createFile<$>mutate mounts cwd path
  | .createDir cwd path => Mutation.createDir<$>mutate mounts cwd path
  | .writeFile cwd path bytes => (Mutation.write · bytes)<$>mutate mounts cwd path
  | .remove cwd path => Mutation.remove<$>mutate mounts cwd path

variable {mounts : List Mount} {mount : Mount} {backendPath : Text}

/-- The backend is called with the path that `mutate` resolved. -/
theorem VfsCall.mutation_path {call : VfsCall} {mutation : Mutation}
    (hcall : call.mutation mounts=.ok mutation) :
    mutate mounts call.cwd call.path=.ok mutation.path := by
  cases call with
  | createFile | createDir | writeFile | remove =>
    obtain ⟨backendPath,hmutate,hsame⟩ := bind_ok_iff.mp ((bind_pure_comp _ _).trans hcall)
    cases hsame
    exact hmutate

/-! ## What a mutation reaches -/

/-- The search for the longest mount ends with a mount that it has seen, and
it has seen none that is longer. -/
theorem longest_foldl {best : Option Mount} {found : Mount}
    (hfold : mounts.foldl (fun best mount => match best with | none => some mount | some found => if len found.path≤len mount.path then some mount else some found) best= some found) :
    (best=some found ∨ found∈mounts) ∧ (∀ other∈mounts,len other.path≤len found.path) ∧
      ∀ old,best=some old → len old.path≤len found.path := by
  induction mounts generalizing best with
  | nil =>
    refine ⟨Or.inl hfold,by simp,fun old hold => ?_⟩
    cases hold.symm.trans hfold
    exact le_rfl
  | cons first rest ih =>
    rw [List.foldl_cons] at hfold
    obtain ⟨hseen,hrest,hbest⟩ := ih hfold
    cases best with
    | none =>
      have hfirst := hbest first rfl
      refine ⟨Or.inr ?_,List.forall_mem_cons.mpr ⟨hfirst,hrest⟩,fun old hold => by cases hold⟩
      rcases hseen with hsame|hmem
      · cases hsame
        exact List.mem_cons_self
      · exact List.mem_cons_of_mem _ hmem
    | some old =>
      dsimp only at hseen hbest
      split at hseen
      · rename_i hle
        have hfirst := hbest first (if_pos hle)
        refine ⟨Or.inr ?_,List.forall_mem_cons.mpr ⟨hfirst,hrest⟩,fun other hother => ?_⟩
        · rcases hseen with hsame|hmem
          · cases hsame
            exact List.mem_cons_self
          · exact List.mem_cons_of_mem _ hmem
        · cases hother
          omega
      · rename_i hlonger
        have hold := hbest old (if_neg hlonger)
        refine ⟨hseen.imp_right (List.mem_cons_of_mem _),
          List.forall_mem_cons.mpr ⟨by omega,hrest⟩,fun other hother => ?_⟩
        cases hother
        exact hold

/-- The search never forgets that it has found a mount. -/
theorem longest_foldl_some (mounts : List Mount) (best : Mount) : ∃ found,
    mounts.foldl (fun best mount => match best with
      | none => some mount
      | some found => if len found.path≤len mount.path then some mount else some found)
        (some best)=some found := by
  induction mounts generalizing best with
  | nil => exact ⟨best,rfl⟩
  | cons first rest ih =>
    rw [List.foldl_cons]
    dsimp only
    split
    · exact ih first
    · exact ih best

/-- The longest mount is one of the table. -/
theorem longest_mem (hlongest : longest mounts=some mount) : mount∈mounts :=
  (longest_foldl hlongest).1.resolve_left (by simp)

/-- A path that is resolved to a mount at the root is handed on as it is. -/
theorem resolve_root {absolute : Text} (hresolve : resolve mounts absolute=.ok (mount,backendPath))
    (hroot : mount.path=['/']) (habsolute : absolute≠[]) : backendPath=absolute := by
  rw [resolve] at hresolve
  split at hresolve
  · cases hresolve
  · rename_i found hfound
    obtain ⟨suffix,hsuffix,hsame⟩ := bind_ok_iff.mp hresolve
    cases hsame
    rw [suffixBelow,if_pos hroot] at hsuffix
    cases hsuffix
    exact if_neg (by simpa using habsolute)

theorem resolve_mem {absolute : Text} (hresolve : resolve mounts absolute=.ok (mount,backendPath)) :
    mount∈mounts := by
  rw [resolve] at hresolve
  split at hresolve
  · cases hresolve
  · rename_i found hfound
    obtain ⟨suffix,-,hsame⟩ := bind_ok_iff.mp hresolve
    cases hsame
    exact (List.mem_filter.mp (longest_mem hfound)).1

/-- A mutation reaches TuwaiqFS with the normalized path. -/
theorem mutate_init {tuwaiqFs : Except String Unit} {volume : Except String Fat32Volume}
    (hinit : init tuwaiqFs volume=.ok mounts) {cwd path : Text}
    (hmutate : mutate mounts cwd path=.ok backendPath) : normalize cwd path=.ok backendPath := by
  obtain ⟨absolute,hnormalize,hrest⟩ := bind_ok_iff.mp hmutate
  obtain ⟨⟨mount,found⟩,hresolve,hbackend⟩ := bind_ok_iff.mp hrest
  dsimp only at hbackend
  have hmem := resolve_mem hresolve
  rw [init_eq] at hinit
  cases hinit
  have hroot : mount.path=['/'] ∧ found=backendPath := by
    rcases List.mem_append.mp hmem with hfirst|hsecond
    · split at hfirst
      · rw [List.mem_singleton.mp hfirst] at hbackend ⊢
        cases hbackend
        exact ⟨rfl,rfl⟩
      · cases hfirst
    · split at hsecond
      · rw [List.mem_singleton.mp hsecond] at hbackend
        cases hbackend
      · cases hsecond
  have habsolute : absolute≠[] := by
    have hclean := (Normalized.clean ⟨cwd,path,hnormalize⟩).absolute
    rintro rfl
    cases hclean
  rw [hnormalize,← hroot.2,resolve_root hresolve hroot.1 habsolute]

end TuwaiqOS.VfsMounts
