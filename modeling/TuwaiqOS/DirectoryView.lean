import TuwaiqOS.TreeRuns
import TuwaiqOS.Fat32

/-!
# Listings, kinds and metadata

`list_dir` adds mount points to what the backend lists, `kind` resolves a
path through the mounts, and `metadata` only asks the backend. The three
agree on a directory of TuwaiqFS except where the mount of the FAT32 volume is
concerned: the listing of the root shows it, its metadata does not count it,
and a file of its name hides it in the listing only.
-/

namespace TuwaiqOS.DirectoryView

open Utf8Text FallibleSteps FsTree TreeInvariant VfsPath VfsMounts TreeRuns

/-! ## Mount tables -/

/-- What a disk answers to a read, by the reads so far. -/
abbrev FatDevice := List Fat32.ReadSector → Fat32.ReadSector → Except String Checkpoint.Sector

/-- What a caller gets from an operation of the FAT32 volume. -/
def answer {α : Type} (device : FatDevice) (routine : Fat32.FatRoutine α) : Except String α :=
  (routine.run.play device []).1.mapError Fat32.Fault.text

/-- A mounted FAT32 volume as the VFS sees it. -/
def serve (device : FatDevice) (volume : Fat32.Fat32Volume) : Fat32Volume where
  kind := fun path => answer device (Fat32.kind volume path)
  read := fun path => answer device (Fat32.read volume path)
  list := fun path => answer device (Fat32.list volume path)
  metadata := fun path => answer device do
    let value ← Fat32.metadata volume path
    pure ⟨value.kind,value.size⟩

theorem kind_serve_root (device : FatDevice) (volume : Fat32.Fat32Volume) :
    (serve device volume).kind ['/']=.ok .directory := rfl

/-- The name of the mount point of the FAT32 volume. -/
def bootName : Text := ['b','o','o','t']

/-- The mount of TuwaiqFS. -/
def rootMount : Mount := ⟨['/'],false,.tuwaiq⟩

/-- The mount of a FAT32 volume. -/
def bootMount (volume : Fat32Volume) : Mount := ⟨'/'::bootName,true,.fat32 volume⟩

/-- The mount tables with TuwaiqFS at the root. -/
def tableOf : Option Fat32Volume → List Mount
  | none => [rootMount]
  | some volume => [rootMount,bootMount volume]

/-- A path at or below the mount point of the FAT32 volume. -/
def UnderBoot (path : Text) : Prop := ∃ rest,parts path=bootName::rest

theorem mountMatches_boot_iff {path : Text} (hpath : Canonical path) :
    mountMatches ('/'::bootName) path=true ↔ UnderBoot path := by
  have hparts : parts ('/'::bootName)=[bootName] := by decide
  have htext : '/'::bootName= '/'::joinSlash (parts ('/'::bootName)) := by decide
  have hbelow := below_iff htext (by rw [hparts]; exact List.cons_ne_nil _ _) hpath
  have hmount : ('/'::bootName : Text)≠['/'] := by decide
  have hsame : path= '/'::bootName ↔ parts path=[bootName] := by
    constructor
    · intro heq
      rw [heq,hparts]
    · intro heq
      rw [hpath.text,heq]
      rfl
  rw [mountMatches,Bool.or_eq_true,Bool.or_eq_true,decide_eq_true_eq,decide_eq_true_eq,
    dropPrefix_any_iff,hbelow,hparts,hsame,UnderBoot]
  constructor
  · rintro ((hroot|hself)|⟨first,rest,hrest⟩)
    · exact absurd hroot hmount
    · exact ⟨[],hself⟩
    · exact ⟨first::rest,hrest⟩
  · rintro ⟨rest,hrest⟩
    cases rest with
    | nil => exact Or.inl (Or.inr hrest)
    | cons first rest => exact Or.inr ⟨first,rest,hrest⟩

/-- The mounts of the larger table that match a path. -/
theorem filter_tableOf (fat : Fat32Volume) (path : Text) :
    ((tableOf (some fat)).filter fun mount => mountMatches mount.path path)=
      if mountMatches ('/'::bootName) path=true then [rootMount,bootMount fat]
      else [rootMount] := by
  have hroot : mountMatches rootMount.path path=true := rfl
  rw [tableOf,List.filter_cons,if_pos hroot,List.filter_cons,List.filter_nil]
  by_cases hboot : mountMatches ('/'::bootName) path=true
  · rw [if_pos hboot,if_pos (show mountMatches (bootMount fat).path path=true from hboot)]
  · rw [if_neg hboot,if_neg (show ¬mountMatches (bootMount fat).path path=true from hboot)]

variable {mounts : List Mount} {mount : Mount} {entry : Text×FsNode}

theorem resolve_rootMount {path : Text} (hpath : Canonical path)
    (hmounts : (mounts.filter fun mount => mountMatches mount.path path)=[rootMount]) :
    resolve mounts path=.ok (rootMount,path) := by
  have hne : path.isEmpty=false := by
    rw [hpath.text]
    rfl
  rw [resolve,hmounts]
  change (Except.ok (rootMount,if path.isEmpty then ['/'] else path))=_
  rw [hne]
  rfl

/-- Which mount serves a path. -/
theorem resolve_tableOf {path : Text} (hpath : Canonical path) (volume : Option Fat32Volume) :
    (volume=none ∨ ¬UnderBoot path) → resolve (tableOf volume) path=.ok (rootMount,path) := by
  intro houtside
  refine resolve_rootMount hpath ?_
  cases volume with
  | none => rfl
  | some fat =>
    rw [filter_tableOf,if_neg]
    intro hmatch
    rcases houtside with hnone|houtside
    · cases hnone
    · exact houtside ((mountMatches_boot_iff hpath).mp hmatch)

/-- The mount point itself is the root of the FAT32 volume. -/
theorem resolve_boot (volume : Fat32Volume) :
    resolve (tableOf (some volume)) ('/'::bootName)=.ok (bootMount volume,['/']) := rfl

/-- A path that TuwaiqFS serves is not below the mount point. -/
theorem outside_of_resolve {path backendPath : Text} (hpath : Canonical path)
    {volume : Option Fat32Volume} (hresolve : resolve (tableOf volume) path=.ok (mount,backendPath))
    (hbackend : mount.backend=.tuwaiq) : volume=none ∨ ¬UnderBoot path := by
  cases volume with
  | none => exact Or.inl rfl
  | some fat =>
    refine Or.inr fun hunder => ?_
    have hmatch := (mountMatches_boot_iff hpath).mpr hunder
    have hlongest : longest ((tableOf (some fat)).filter fun mount => mountMatches mount.path path)=
        some (bootMount fat) := by
      rw [filter_tableOf,if_pos hmatch]
      rfl
    rw [resolve,hlongest] at hresolve
    obtain ⟨suffix,-,hsame⟩ := bind_ok_iff.mp hresolve
    cases hsame
    cases hbackend

/-! ## Directories of TuwaiqFS -/

variable {node : FsNode} {name : Text}

/-- A search by names finds nodes of the tree. -/
theorem nodeAt_of_entryAt {root : FsNode} {path : List Text} (hentry : entryAt root path=.ok node) :
    NodeAt root path node := by
  induction path generalizing root with
  | nil =>
    cases hentry
    exact .here _
  | cons part rest ih =>
    obtain ⟨child,hchild,hrest⟩ := bind_ok_iff.mp hentry
    cases root with
    | file content => cases hchild
    | dir children =>
      rw [findChild] at hchild
      split at hchild
      · rename_i entry hfind
        cases hchild
        have hname : entry.1=part := by simpa using List.find?_some hfind
        subst hname
        exact .inside (List.mem_of_find?_eq_some hfind) (ih hrest)
      · cases hchild

/-- An entry is found by its name if the names are distinct. -/
theorem findChild_of_mem {children : Children} (hdistinct : (children.map Prod.fst).Nodup)
    (hmem : (name,node)∈children) : findChild (.dir children) name=.ok node := by
  rw [findChild]
  cases hfind : children.find? fun entry => entry.1==name with
  | none => exact absurd (List.find?_eq_none.mp hfind _ hmem) (by simp)
  | some entry =>
    have hname : entry.1=name := by simpa using List.find?_some hfind
    have hsame := List.inj_on_of_nodup_map hdistinct (List.mem_of_find?_eq_some hfind) hmem hname
    rw [hsame]

theorem trimSlashes_of_noSlash (hslash : '/'∉name) : trimSlashes name=name := by
  have hkeep : name.reverse.dropWhile (·= '/')=name.reverse := by
    have hreverse : '/'∉name.reverse := mt List.mem_reverse.mp hslash
    cases hname : name.reverse with
    | nil => rfl
    | cons last front =>
      rw [hname] at hreverse
      have hlast : last≠ '/' := fun heq => hreverse (heq▸List.mem_cons_self)
      exact List.dropWhile_cons_of_neg (by simpa using hlast)
  rw [trimSlashes,hkeep,List.reverse_reverse]

theorem trimSlashes_concat (hslash : '/'∉name) : trimSlashes (name++['/'])=name := by
  have hdrop : (name++['/']).reverse.dropWhile (·= '/')=name.reverse.dropWhile (·= '/') := by
    rw [List.reverse_append]
    rfl
  rw [trimSlashes,hdrop]
  exact trimSlashes_of_noSlash hslash

/-- The name of a listed entry. -/
theorem trimSlashes_displayEntry (hname : NameOk entry.1) :
    trimSlashes (displayEntry entry)=entry.1 := by
  obtain ⟨name,node⟩ := entry
  cases node with
  | file content => exact trimSlashes_of_noSlash hname.noSlash
  | dir children => exact trimSlashes_concat hname.noSlash

/-- Directories are the entries that end with a separator. -/
theorem getLast_displayEntry (hname : NameOk entry.1) :
    (displayEntry entry).getLast?=some '/' ↔ ∃ children,entry.2=.dir children := by
  obtain ⟨name,node⟩ := entry
  cases node with
  | file content =>
    refine iff_of_false (fun hlast => ?_) (by simp)
    exact hname.noSlash (List.mem_of_getLast? hlast)
  | dir children => exact iff_of_true (by simp [displayEntry]) ⟨children,rfl⟩

section

variable {tree : FsNode} {volume : Option Fat32Volume} {cwd path directory : Text}
  {entries : List Text}

/-- The mounts that stand in a directory. -/
theorem filterMap_mountChild (volume : Option Fat32Volume) (directory : Text) :
    (tableOf volume).filterMap (mountChild directory)=
      if volume.isSome=true ∧ directory=['/'] then [bootName] else [] := by
  have hroot : mountChild directory rootMount=none := rfl
  cases volume with
  | none => rw [tableOf,List.filterMap_cons_none hroot]; rfl
  | some fat =>
    rw [tableOf,List.filterMap_cons_none hroot]
    by_cases hdirectory : directory=['/']
    · subst hdirectory
      rfl
    · have hboot : mountChild directory (bootMount fat)=none := by
        have hparent : ¬(['/'] : Text)=directory := fun heq => hdirectory heq.symm
        exact if_neg hparent
      rw [List.filterMap_cons_none hboot,if_neg fun h => hdirectory h.2]
      rfl

/-- What the directory holds, and what the three operations make of it. -/
theorem listDir_ok (hnormal : normalize cwd path=.ok directory) (hdirectory : Canonical directory)
    (houtside : volume=none ∨ ¬UnderBoot directory)
    (hlist : listDir (tableOf volume) (some tree) cwd path=.ok entries) :
    ∃ children,entryAt tree (parts directory)=.ok (.dir children) ∧
      entries=(if volume.isSome=true ∧ directory=['/'] then
        mergeChild (children.map displayEntry) bootName else children.map displayEntry) ∧
      metadata (tableOf volume) (some tree) cwd path=.ok ⟨.directory,children.length⟩ := by
  have hresolve := resolve_tableOf hdirectory volume houtside
  have hsplit : splitAbsolutePath directory=.ok (parts directory) := if_pos hdirectory.absolute
  have hlisted : (do
      let shown ← listAt tree directory
      pure (((tableOf volume).filterMap (mountChild directory)).foldl mergeChild shown))=
        .ok entries := by
    rw [listDir,hnormal] at hlist
    change (resolve (tableOf volume) directory>>=_)=_ at hlist
    rw [hresolve] at hlist
    exact hlist
  obtain ⟨shown,hshown,hentries⟩ := bind_ok_iff.mp hlisted
  rw [listAt,hsplit] at hshown
  obtain ⟨components,hcomponents,hshown⟩ := bind_ok_iff.mp hshown
  cases hcomponents
  obtain ⟨children,hchildren,hsame⟩ := bind_ok_iff.mp hshown
  cases hsame
  obtain ⟨node,hnode,hdir⟩ := bind_ok_iff.mp hchildren
  cases node with
  | file content => cases hdir
  | dir found =>
    cases hdir
    refine ⟨children,hnode,?_,?_⟩
    · cases hentries
      rw [filterMap_mountChild]
      split <;> rfl
    · have hmeta : metadata (tableOf volume) (some tree) cwd path=metadataAt tree directory := by
        rw [metadata,hnormal]
        change (resolve (tableOf volume) directory>>=_)=_
        rw [hresolve]
        rfl
      rw [hmeta,metadataAt,hsplit]
      change (entryAt tree (parts directory)>>=_)=_
      rw [hnode]
      rfl

end

/-! ## Agreement -/

/-- Listing, kinds and metadata of a directory agree. -/
structure Consistent (mounts : List Mount) (fs : Option FsNode) (cwd path directory : Text)
    (entries : List Text) : Prop where
  /-- The names are distinct. -/
  distinct : (entries.map trimSlashes).Nodup
  /-- A trailing separator shows the directories. -/
  kinds : ∀ display∈entries,display.getLast?=some '/' ↔
    kind mounts fs directory (trimSlashes display)=.ok .directory
  /-- The metadata count the entries. -/
  size : metadata mounts fs cwd path=.ok ⟨.directory,entries.length⟩

section

variable {tree : FsNode} {volume : Option Fat32Volume} {directory : Text} {children : Children}

section

variable (htree : Tidy tree)
include htree

/-- The names in a directory are legal. -/
theorem nameOk_of_mem {components : List Text}
    (hnode : entryAt tree components=.ok (.dir children)) (hmem : (name,node)∈children) :
    NameOk name ∧ entryAt tree (components++[name])=.ok node := by
  have hfound := (entryAt_concat hnode name).trans
    (findChild_of_mem (htree.distinct _ _ (nodeAt_of_entryAt hnode)) hmem)
  refine ⟨htree.names _ _ (nodeAt_of_entryAt hfound) name ?_,hfound⟩
  exact List.mem_append_right _ List.mem_cons_self

section

variable (hnode : entryAt tree (parts directory)=.ok (.dir children))
include hnode

/-- The listed names are the names of the entries. -/
theorem map_trimSlashes : (children.map displayEntry).map trimSlashes=children.map Prod.fst := by
  rw [List.map_map]
  refine List.map_congr_left fun entry hentry => ?_
  exact trimSlashes_displayEntry (nameOk_of_mem htree hnode hentry).1

/-- Whether a mount point is added to a listing. -/
theorem mergeChild_eq (name : Text) : mergeChild (children.map displayEntry) name=
      if name∈children.map Prod.fst then children.map displayEntry
      else children.map displayEntry++[name++['/']] := by
  have hany : ((children.map displayEntry).any fun entry => trimSlashes entry=name)=true ↔
      name∈children.map Prod.fst := by
    rw [← map_trimSlashes htree hnode,List.any_eq_true,List.mem_map]
    simp only [decide_eq_true_eq]
  simp only [mergeChild,hany]

/-- The names in a listing are distinct, with or without mount points. -/
theorem nodup_listing (merged : Bool) :
    ((if merged=true then mergeChild (children.map displayEntry) bootName
      else children.map displayEntry).map trimSlashes).Nodup := by
  have hdistinct := htree.distinct _ _ (nodeAt_of_entryAt hnode)
  have hplain : ((children.map displayEntry).map trimSlashes).Nodup := by
    rw [map_trimSlashes htree hnode]
    exact hdistinct
  by_cases hmerged : merged=true
  · rw [if_pos hmerged,mergeChild_eq htree hnode]
    by_cases hthere : bootName∈children.map Prod.fst
    · rw [if_pos hthere]
      exact hplain
    · have hname : trimSlashes (bootName++['/'])=bootName := trimSlashes_concat (by decide)
      rw [if_neg hthere,List.map_append,map_trimSlashes htree hnode,List.map_cons,List.map_nil,
        hname]
      exact hdistinct.append (List.nodup_singleton _) (by simpa using hthere)
  · rw [if_neg hmerged]
    exact hplain

end

/-- The kind of an entry that no mount hides. -/
theorem kind_entry (hdirectory : Canonical directory)
    (hnode : entryAt tree (parts directory)=.ok (.dir children)) (hmem : (name,node)∈children)
    (hfits : len ('/'::joinSlash (parts directory++[name]))≤pathMax)
    (hunder : volume=none ∨ ¬∃ rest,parts directory++[name]=bootName::rest) :
    kind (tableOf volume) (some tree) directory name=.ok .directory ↔
      ∃ grandchildren,node=.dir grandchildren := by
  obtain ⟨hname,hfound⟩ := nameOk_of_mem htree hnode hmem
  have hnormal := normalize_child hdirectory hname hfits
  have hchild := canonical_normalize hdirectory hnormal
  have hparts : parts ('/'::joinSlash (parts directory++[name]))=parts directory++[name] := by
    refine parts_slash_joinSlash (fun part hpart => ?_) fun part hpart => ?_
    · rcases List.mem_append.mp hpart with hold|hnew
      · exact ne_nil_of_mem_parts hold
      · rw [List.mem_singleton.mp hnew]
        exact hname.nonempty
    · rcases List.mem_append.mp hpart with hold|hnew
      · exact slash_notMem_parts hold
      · rw [List.mem_singleton.mp hnew]
        exact hname.noSlash
  have hresolve := resolve_tableOf hchild volume (by rw [UnderBoot,hparts]; exact hunder)
  have hkind : kind (tableOf volume) (some tree) directory name=
      kindAt tree ('/'::joinSlash (parts directory++[name])) := by
    rw [kind,hnormal]
    change (resolve (tableOf volume) _>>=_)=_
    rw [hresolve]
    rfl
  have hsplit : splitAbsolutePath ('/'::joinSlash (parts directory++[name]))=
      .ok (parts directory++[name]) := (if_pos hchild.absolute).trans (congrArg Except.ok hparts)
  rw [hkind,kindAt,hsplit]
  change (entryAt tree (parts directory++[name])>>=_)=_ ↔ _
  rw [hfound]
  cases node with
  | file content => exact iff_of_false (by simp [bind,Except.bind,pure,Except.pure]) (by simp)
  | dir grandchildren => exact iff_of_true rfl ⟨grandchildren,rfl⟩

end

/-- The kind of the mount point. -/
theorem kind_boot {fat : Fat32Volume} (hfat : fat.kind ['/']=.ok .directory) :
    kind (tableOf (some fat)) (some tree) ['/'] bootName=.ok .directory := by
  have hnormal : normalize ['/'] bootName=.ok ('/'::bootName) := by decide
  exact bind_ok_iff.mpr ⟨_,hnormal,bind_ok_iff.mpr ⟨_,resolve_boot fat,hfat⟩⟩

/-- Where no mount point is involved the listing shows the kinds. -/
theorem kinds_entries (htree : Tidy tree) (hdirectory : Canonical directory)
    (hnode : entryAt tree (parts directory)=.ok (.dir children))
    (houtside : volume=none ∨ ¬UnderBoot directory)
    (hfat : ∀ fat,volume=some fat → fat.kind ['/']=.ok .directory)
    (hboot : volume≠none → directory=['/'] → ∃ below,(bootName,.dir below)∈children)
    (hfits : ∀ display∈children.map displayEntry,
      len ('/'::joinSlash (parts directory++[trimSlashes display]))≤pathMax) :
    ∀ display∈children.map displayEntry,display.getLast?=some '/' ↔
      kind (tableOf volume) (some tree) directory (trimSlashes display)=.ok .directory := by
  intro display hdisplay
  have hroom := hfits display hdisplay
  obtain ⟨⟨name,node⟩,hmem,rfl⟩ := List.mem_map.mp hdisplay
  have hname := (nameOk_of_mem htree hnode hmem).1
  rw [trimSlashes_displayEntry hname] at hroom ⊢
  rw [getLast_displayEntry hname]
  by_cases hunder : volume=none ∨ ¬∃ rest,parts directory++[name]=bootName::rest
  · exact (kind_entry htree hdirectory hnode hmem hroom hunder).symm
  · -- the entry has the name of the mount point, which hides it
    obtain ⟨hsome,hthere⟩ := not_or.mp hunder
    obtain ⟨rest,hrest⟩ := not_not.mp hthere
    have hroot : parts directory=[] := by
      by_contra hne
      obtain ⟨first,later,hfirst⟩ := List.exists_cons_of_ne_nil hne
      rw [hfirst,List.cons_append] at hrest
      obtain ⟨rfl,-⟩ := List.cons.inj hrest
      exact (houtside.resolve_left hsome) ⟨later,hfirst⟩
    have hsame : directory=['/'] := by
      rw [hdirectory.text,hroot]
      rfl
    rw [hroot,List.nil_append] at hrest
    obtain ⟨rfl,-⟩ := List.cons.inj hrest
    obtain ⟨below,hbelow⟩ := hboot hsome hsame
    have hentry := List.inj_on_of_nodup_map (htree.distinct _ _ (nodeAt_of_entryAt hnode)) hmem
      hbelow rfl
    cases hentry
    obtain ⟨fat,rfl⟩ := Option.ne_none_iff_exists'.mp hsome
    refine iff_of_true ⟨below,rfl⟩ ?_
    subst hsame
    exact kind_boot (hfat fat rfl)

end

/-- A table that has TuwaiqFS is one of the two. -/
theorem tableOf_of_init {tuwaiqFs : Except String Unit} {device : FatDevice}
    {fat : Except String Fat32.Fat32Volume}
    (hinit : init tuwaiqFs (fat.map (serve device))=.ok mounts)
    (hmem : mount∈mounts) (hbackend : mount.backend=.tuwaiq) :
    ∃ volume,mounts=tableOf volume ∧ ∀ found,volume=some found →
      found.kind ['/']=.ok .directory := by
  rw [init_eq] at hinit
  cases hinit
  cases tuwaiqFs with
  | error reason =>
    cases fat with
    | error failure => cases hmem
    | ok volume =>
      rw [List.mem_singleton.mp hmem] at hbackend
      cases hbackend
  | ok _ =>
    cases fat with
    | error failure => exact ⟨none,rfl,by simp⟩
    | ok volume =>
      refine ⟨some (serve device volume),rfl,fun found hfound => ?_⟩
      cases hfound
      exact kind_serve_root device volume

/-- A volume as `mount` returns it. -/
def sampleVolume : Fat32.Fat32Volume := ⟨2048,66400,1,2080,600,2680,2,65768⟩

/-- The table with this volume, on a disk that cannot be read any more. -/
def sampleTable : List Mount := tableOf (some (serve (fun _ _ => .error "ata error") sampleVolume))

theorem init_sampleTable :
    init (.ok ()) (Except.map (serve fun _ _ => .error "ata error") (.ok sampleVolume))=
      .ok sampleTable := init_eq _ _

/-- A root with a directory at the mount point and a file. -/
def sampleRoot : FsNode := .dir [(bootName,.dir []),(['a'],.file [1])]

theorem tidy_sampleRoot : Tidy sampleRoot := tidy_of_treeOk ⟨⟨_,rfl⟩,by decide⟩

-- A file with the name of the mount point is listed as a file, and its kind is that of the mount.
example : listDir sampleTable (some (.dir [(bootName,.file [])])) ['/'] ['/']=.ok [bootName] ∧
    kind sampleTable (some (.dir [(bootName,.file [])])) ['/'] bootName=.ok .directory :=
  ⟨rfl,rfl⟩

end TuwaiqOS.DirectoryView
