import TuwaiqOS.InPlaceTree
import TuwaiqOS.PathResolution
import TuwaiqOS.TreeFrame

/-!
# The tree as a map from paths

A successful operation of `FileSystem` adds, replaces or removes the entry of
its own path. Every other path shows what it showed before, and only the
listing of the parent gains or loses an entry. Each operation succeeds exactly
when what it needs is there.
-/

namespace TuwaiqOS.PathMap

open Utf8Text FsTree TreeInvariant TreeFrame VfsPath InPlaceTree
open PathResolution (canonicalText)

/-! ## What paths show -/

/-- What a node shows: the contents of a file, or the listing of a
directory. -/
inductive View where
  /-- A file. -/
  | file (content : List UInt8)
  /-- A directory. -/
  | dir (entries : List Text)

/-- What a node shows. -/
def view : FsNode → View
  | .file content => .file content
  | .dir children => .dir (children.map displayEntry)

/-- The tree as a map from component paths. -/
def lookup (root : FsNode) (path : List Text) : Option View :=
  (entryAt root path).toOption.map view

/-- The kind that is shown. -/
def View.kind : View → EntryKind
  | .file _ => .file
  | .dir _ => .directory

/-- The contents that are shown. -/
def View.content : View → Option (List UInt8)
  | .file content => some content
  | .dir _ => none

/-- The listing that is shown. -/
def View.entries : View → Option (List Text)
  | .file _ => none
  | .dir entries => some entries

section

variable {root : FsNode} {path : Text}

theorem kindAt_eq (root : FsNode) (hpath : path.head?=some '/') :
    (kindAt root path).toOption=(lookup root (parts path)).map View.kind := by
  have hsplit : splitAbsolutePath path=.ok (parts path) := if_pos hpath
  rw [kindAt,hsplit,lookup]
  change (entryAt root (parts path)>>=_).toOption=_
  rcases entryAt root (parts path) with reason|(content|children) <;> rfl

theorem readAt_eq (root : FsNode) (hpath : path.head?=some '/') : (readAt root path).toOption=
      if (parts path).isEmpty then none else (lookup root (parts path)).bind View.content := by
  have hsplit : splitAbsolutePath path=.ok (parts path) := if_pos hpath
  rw [readAt,hsplit,lookup]
  change (if _ then _ else _ : Except String (List UInt8)).toOption=_
  split
  · rfl
  · change (entryAt root (parts path)>>=_).toOption=_
    rcases entryAt root (parts path) with reason|(content|children) <;> rfl

theorem listAt_eq (root : FsNode) (hpath : path.head?=some '/') :
    (listAt root path).toOption=(lookup root (parts path)).bind View.entries := by
  have hsplit : splitAbsolutePath path=.ok (parts path) := if_pos hpath
  rw [listAt,hsplit,lookup]
  change (childrenAt root (parts path)>>=_).toOption=_
  rw [childrenAt]
  rcases entryAt root (parts path) with reason|(content|children) <;> rfl

/-- A path that is not absolute shows nothing. -/
theorem relative_shows_nothing (root : FsNode) (hpath : path.head?≠some '/') :
    (kindAt root path).toOption=none ∧ (readAt root path).toOption=none ∧
      (listAt root path).toOption=none := by
  have hsplit : splitAbsolutePath path=.error "backend path must be absolute" := if_neg hpath
  refine ⟨?_,?_,?_⟩
  · rw [kindAt,hsplit]
    rfl
  · rw [readAt,hsplit]
    rfl
  · rw [listAt,hsplit]
    rfl

end

/-! ## One changed directory -/

section

variable {missing notDir : String} {parent path : List Text} {name : Text}
  {change : Children → Except String Children} {root result : FsNode}

/-- Paths that neither name the changed directory nor lead through the changed
entry show what they showed. -/
theorem lookup_off (htouches : TouchesOnly name change)
    (hrun : modifyAt missing notDir parent change root=.ok result) (hparent : path≠parent)
    (hpath : ¬parent++[name]<+:path) : lookup result path=lookup root path := by
  rw [lookup,lookup]
  rcases entryAt_off htouches hrun hpath with hsame|⟨children,changed,hold,hnew,hshown⟩
  · rw [hsame]
  · rw [hold,hnew]
    exact congrArg (fun entries => some (View.dir entries)) (hshown hparent).2

end

/-! ## Frames -/

/-- Every directory that a path leads to has distinct names. -/
def Distinct (root : FsNode) : Prop :=
  ∀ path children,entryAt root path=.ok (.dir children) → (children.map Prod.fst).Nodup

/-- Trees that are well formed have distinct names everywhere. -/
theorem distinct_of_wellFormed {base : ℕ} {root : FsNode} (hroot : WellFormed base root) :
    Distinct root := by
  intro path
  induction path generalizing base root with
  | nil =>
    intro children hentry
    cases hentry
    exact ((wellFormed_dir base children).mp hroot).1
  | cons part rest ih =>
    intro children hentry
    cases root with
    | file content => cases hentry
    | dir siblings =>
      rw [entryAt_dir_find] at hentry
      split at hentry
      · cases hentry
      rename_i entry hfind
      have hmem := List.mem_of_find?_eq_some hfind
      obtain ⟨-,-,hchild⟩ := ((wellFormed_dir base siblings).mp hroot).2 entry hmem
      exact ih hchild children hentry

/-- Paths with other components keep their kind and their contents, and all
but the parent keep their listing. A path that failed may fail with another
text. -/
structure Framed (root later : FsNode) (path : Text) : Prop where
  /-- Kinds are kept. -/
  kind : ∀ other,parts other≠parts path →
    (kindAt later other).toOption=(kindAt root other).toOption
  /-- Contents are kept. -/
  read : ∀ other,parts other≠parts path →
    (readAt later other).toOption=(readAt root other).toOption
  /-- Listings are kept. -/
  list : ∀ other,parts other≠parts path → parts other≠(parts path).dropLast →
    (listAt later other).toOption=(listAt root other).toOption

/-- The parent of a path. -/
def parentOf (path : Text) : Text := canonicalText (parts path).dropLast

/-- A node without descendants. -/
def Bare (node : FsNode) : Prop := ∀ part rest,∃ reason,entryAt node (part::rest)=.error reason

theorem bare_file (content : List UInt8) : Bare (.file content) := fun _ _ => ⟨_,rfl⟩

theorem bare_empty : Bare (.dir []) := fun _ _ => ⟨_,rfl⟩

/-- The entry of one name was changed in one directory of a tree. -/
structure Edited (root later : FsNode) (parent : List Text) (name : Text)
    (children changed : Children) : Prop where
  /-- What is seen from the directory on. -/
  seen : ∀ rest,entryAt root (parent++rest)=entryAt (.dir children) rest ∧
    entryAt later (parent++rest)=entryAt (.dir changed) rest
  /-- What is seen elsewhere. -/
  off : ∀ path,path≠parent → ¬parent++[name]<+:path → lookup later path=lookup root path
  /-- The old entry has no descendants. -/
  old : ∀ entry,find name children=some entry → Bare entry.2
  /-- The new entry has none either. -/
  new : ∀ entry,find name changed=some entry → Bare entry.2

section

variable {root later : FsNode} {parent : List Text} {name path : Text}
  {children changed : Children}

theorem lookup_bare (hbare : ∀ entry,find name children=some entry → Bare entry.2) (part : Text)
    (rest : List Text) : lookup (.dir children) (name::part::rest)=none := by
  rw [lookup,entryAt_dir_find]
  split
  · rfl
  · rename_i entry hfind
    obtain ⟨reason,herror⟩ := hbare entry hfind part rest
    rw [herror]
    rfl

section

variable (hedit : Edited root later parent name children changed)
include hedit

theorem Edited.lookup_root
    (rest : List Text) : lookup root (parent++rest)=lookup (.dir children) rest := by
  rw [lookup,(hedit.seen rest).1]
  rfl

theorem Edited.lookup_later
    (rest : List Text) : lookup later (parent++rest)=lookup (.dir changed) rest := by
  rw [lookup,(hedit.seen rest).2]
  rfl

/-- All other paths show what they showed, the directory itself apart. -/
theorem Edited.lookup_other
    {other : List Text} (hparent : other≠parent) (hpath : other≠parent++[name]) :
    lookup later other=lookup root other := by
  by_cases hbelow : parent++[name]<+:other
  · obtain ⟨rest,rfl⟩ := hbelow
    cases rest with
    | nil => exact absurd (List.append_nil _) hpath
    | cons part rest =>
      rw [List.append_assoc,hedit.lookup_root,hedit.lookup_later]
      exact (lookup_bare hedit.new part rest).trans (lookup_bare hedit.old part rest).symm
  · exact hedit.off other hparent hbelow

theorem Edited.framed (hparts : parts path=parent++[name]) : Framed root later path := by
  have hboth : lookup root parent=some (.dir (children.map displayEntry)) ∧
      lookup later parent=some (.dir (changed.map displayEntry)) := by
    have hroot := hedit.lookup_root []
    have hlater := hedit.lookup_later []
    rw [List.append_nil] at hroot hlater
    exact ⟨hroot,hlater⟩
  refine ⟨fun other hother => ?_,fun other hother => ?_,fun other hother hparent => ?_⟩ <;>
    rw [hparts] at hother <;> by_cases habsolute : other.head?=some '/'
  · rw [kindAt_eq later habsolute,kindAt_eq root habsolute]
    by_cases hparent : parts other=parent
    · rw [hparent,hboth.1,hboth.2]
      rfl
    · rw [hedit.lookup_other hparent hother]
  · rw [(relative_shows_nothing later habsolute).1,(relative_shows_nothing root habsolute).1]
  · rw [readAt_eq later habsolute,readAt_eq root habsolute]
    by_cases hparent : parts other=parent
    · rw [hparent,hboth.1,hboth.2]
      rfl
    · rw [hedit.lookup_other hparent hother]
  · rw [(relative_shows_nothing later habsolute).2.1,(relative_shows_nothing root habsolute).2.1]
  · rw [hparts,List.dropLast_concat] at hparent
    rw [listAt_eq later habsolute,listAt_eq root habsolute,hedit.lookup_other hparent hother]
  · rw [(relative_shows_nothing later habsolute).2.2,(relative_shows_nothing root habsolute).2.2]

end

end

/-! ## Changes of one list of children -/

section

variable {name : Text} {children changed : Children}

/-- A node that can be removed: not a directory with children. -/
def Removable (node : FsNode) : Prop := ∀ first rest,node≠.dir (first::rest)

theorem Removable.bare {node : FsNode} (hnode : Removable node) : Bare node := by
  cases node with
  | file content => exact bare_file content
  | dir children =>
    cases children with
    | nil => exact bare_empty
    | cons first rest => exact absurd rfl (hnode first rest)

/-- Where the first entry of a name is found. -/
theorem findIdx_append {front : Children} (hfront : name∉front.map Prod.fst) (node : FsNode)
    (back : Children) :
    ((front++(name,node)::back).findIdx? fun entry => entry.1==name)=some front.length := by
  induction front with
  | nil => simp [List.findIdx?_cons]
  | cons entry front ih =>
    rw [List.map_cons,List.mem_cons,not_or] at hfront
    have hentry : (entry.1==name)=false := by simpa using Ne.symm hfront.1
    rw [List.cons_append,List.findIdx?_cons,hentry,ih hfront.2]
    rfl

/-- What removal does with the first entry of a name. -/
theorem removeChild_append {front : Children} (hfront : name∉front.map Prod.fst) {node : FsNode}
    (hnode : Removable node) (back : Children) :
    removeChild name (front++(name,node)::back)=.ok (front++back) := by
  have hget : (front++(name,node)::back)[front.length]? = some (name,node) := by simp
  have herase : (front++(name,node)::back).eraseIdx front.length=front++back := by
    rw [List.eraseIdx_append_of_length_le le_rfl,Nat.sub_self,List.eraseIdx_cons_zero]
  rw [removeChild,findIdx_append hfront]
  dsimp only
  rw [hget,herase]
  split
  · rename_i first rest hsame
    cases hsame
    exact absurd rfl (hnode first rest)
  · rfl

end

/-! ## Operations on a path -/

theorem ok_of_toOption {α : Type} {result : Except String α} {value : α}
    (hsome : result.toOption=some value) : result=.ok value := by
  cases result with
  | error reason => cases hsome
  | ok found =>
    cases hsome
    rfl

section

variable {root later : FsNode} {path : Text} {parent : List Text} {name : Text}
  {children changed : Children} {change : Children → Except String Children}

theorem lookup_name (children : Children) (name : Text) :
    lookup (.dir children) [name]=(find name children).map fun entry => view entry.2 := by
  rw [lookup,entryAt_dir_find]
  cases find name children <;> rfl

theorem parentAndName_of_parts (hpath : path.head?=some '/') (hparts : parts path=parent++[name]) :
    parentAndName path=.ok (parent,name) := by
  have hsplit : splitAbsolutePath path=.ok (parent++[name]) :=
    (if_pos hpath).trans (by rw [← hparts]; rfl)
  rw [parentAndName,hsplit]
  simp only [bind,Except.bind,List.getLast?_concat,List.dropLast_concat]
  rfl

theorem parentAndName_of_root (hpath : path.head?=some '/') (hparts : parts path=[]) :
    parentAndName path=.error "root has no entry name" := by
  have hsplit : splitAbsolutePath path=.ok [] := (if_pos hpath).trans (by rw [← hparts]; rfl)
  rw [parentAndName,hsplit]
  rfl

/-- Components of the parent. -/
theorem parts_parentOf (path : Text) : parts (parentOf path)=(parts path).dropLast := by
  refine parts_slash_joinSlash (fun part hpart => ?_) fun part hpart => ?_
  · exact ne_nil_of_mem_parts (List.dropLast_subset _ hpart)
  · exact slash_notMem_parts (List.dropLast_subset _ hpart)

/-- A successful change of one entry in a tree with distinct names. -/
theorem edited_of_run (hroot : Distinct root) (htouches : TouchesOnly name change)
    (hrun : childrenAtMut parent change root=.ok later)
    (hbare : ∀ children changed,(children.map Prod.fst).Nodup → change children=.ok changed →
      (∀ entry,find name children=some entry → Bare entry.2) ∧
        ∀ entry,find name changed=some entry → Bare entry.2) :
    ∃ children changed,change children=.ok changed ∧ (children.map Prod.fst).Nodup ∧
      Edited root later parent name children changed := by
  obtain ⟨children,changed,hchange,hseen,-⟩ := modifyAt_spec hrun
  have hentry := (hseen []).1
  rw [List.append_nil] at hentry
  have hnodup := hroot parent children hentry
  obtain ⟨hold,hnew⟩ := hbare children changed hnodup hchange
  exact ⟨children,changed,hchange,hnodup,hseen,fun path hparent hpath =>
    lookup_off htouches hrun hparent hpath,hold,hnew⟩

section

variable (hedit : Edited root later parent name children changed)
include hedit

/-- What the path of an edit shows afterwards. -/
theorem Edited.shows (hparts : parts path=parent++[name]) :
    lookup root (parts path)=(find name children).map (fun entry => view entry.2) ∧
      lookup later (parts path)=(find name changed).map fun entry => view entry.2 := by
  rw [hparts,hedit.lookup_root,hedit.lookup_later,lookup_name,lookup_name]
  exact ⟨rfl,rfl⟩

/-- The listings of the parent. -/
theorem Edited.lists (hparts : parts path=parent++[name]) :
    listAt root (parentOf path)=.ok (children.map displayEntry) ∧
      listAt later (parentOf path)=.ok (changed.map displayEntry) := by
  have hparent : parts (parentOf path)=parent++[] := by
    rw [parts_parentOf,hparts,List.dropLast_concat,List.append_nil]
  constructor
  · refine ok_of_toOption ?_
    rw [listAt_eq root rfl,hparent,hedit.lookup_root]
    rfl
  · refine ok_of_toOption ?_
    rw [listAt_eq later rfl,hparent,hedit.lookup_later]
    rfl

end

end

/-! ### Creation -/

section

variable {root later : FsNode} {path : Text} {parent : List Text} {name : Text} {node : FsNode}

/-- A node was added at a path, as the last entry of its parent. -/
structure Added (root later : FsNode) (path : Text) (node : FsNode) : Prop where
  /-- Other paths are as before. -/
  framed : Framed root later path
  /-- The path has the kind of the node. -/
  kind : kindAt later path=.ok (view node).kind
  /-- It has its contents. -/
  read : (readAt later path).toOption=(view node).content
  /-- It has its listing. -/
  list : (listAt later path).toOption=(view node).entries
  /-- The parent gained the entry. -/
  gained : ∃ name entries,(parts path).getLast?=some name ∧
    listAt root (parentOf path)=.ok entries ∧
    listAt later (parentOf path)=.ok (entries++[displayEntry (name,node)])

theorem bare_push (hnode : Bare node) (children changed : Children)
    (hrun : pushChild "file or directory already exists" name node children=.ok changed) :
    (∀ entry,find name children=some entry → Bare entry.2) ∧
      ∀ entry,find name changed=some entry → Bare entry.2 := by
  obtain ⟨hfresh,rfl⟩ := pushChild_ok hrun
  refine ⟨fun entry hfind => ?_,fun entry hfind => ?_⟩
  · rw [find_none_iff.mpr hfresh] at hfind
    cases hfind
  · rw [find_append hfresh] at hfind
    cases hfind
    exact hnode

theorem added_of_push (hroot : Distinct root) (hpath : path.head?=some '/')
    (hparts : parts path=parent++[name]) (hnode : Bare node)
    (hrun : childrenAtMut parent (pushChild "file or directory already exists" name node) root=
      .ok later) : Added root later path node := by
  obtain ⟨children,changed,hpush,-,hedit⟩ := edited_of_run hroot
    (touchesOnly_pushChild _ name node) hrun fun children changed _ => bare_push hnode children changed
  obtain ⟨hfresh,rfl⟩ := pushChild_ok hpush
  obtain ⟨hbefore,hafter⟩ := hedit.lists hparts
  have hshows := (hedit.shows hparts).2
  rw [find_append hfresh] at hshows
  have hsome : (parts path).isEmpty=false := by rw [hparts]; simp
  refine ⟨hedit.framed hparts,ok_of_toOption ?_,?_,?_,name,_,by rw [hparts,List.getLast?_concat],
    hbefore,?_⟩
  · rw [kindAt_eq later hpath,hshows]
    rfl
  · rw [readAt_eq later hpath,hsome,hshows]
    rfl
  · rw [listAt_eq later hpath,hshows]
    rfl
  · rw [hafter,List.map_append]
    rfl

/-- Push a node at a path, as both creations do. -/
def createAt (node : FsNode) (path : Text) (root : FsNode) : Except String FsNode := do
  let (parent,name) ← parentAndName path
  childrenAtMut parent (pushChild "file or directory already exists" name node) root

section

variable (hpath : path.head?=some '/')
include hpath

theorem createAt_eq (hparts : parts path=parent++[name]) : createAt node path root=
      childrenAtMut parent (pushChild "file or directory already exists" name node) root := by
  rw [createAt,parentAndName_of_parts hpath hparts]
  rfl

theorem kind_directory_iff :
    kindAt root path=.ok .directory ↔ ∃ children,entryAt root (parts path)=.ok (.dir children) := by
  have hkind := kindAt_eq root hpath
  rw [lookup] at hkind
  rcases hentry : entryAt root (parts path) with reason|(content|children)
  · rw [hentry] at hkind
    refine iff_of_false (fun hsome => ?_) (by simp)
    rw [hsome] at hkind
    cases hkind
  · rw [hentry] at hkind
    refine iff_of_false (fun hsome => ?_) (by simp)
    rw [hsome] at hkind
    cases hkind
  · rw [hentry] at hkind
    exact iff_of_true (ok_of_toOption hkind) ⟨children,rfl⟩

theorem absent_iff : (∀ kind,kindAt root path≠.ok kind) ↔ lookup root (parts path)=none := by
  have hkind := kindAt_eq root hpath
  cases hlook : lookup root (parts path) with
  | none =>
    rw [hlook] at hkind
    refine iff_of_true (fun kind hsome => ?_) rfl
    rw [hsome] at hkind
    cases hkind
  | some shown =>
    rw [hlook] at hkind
    exact iff_of_false (fun hnone => hnone _ (ok_of_toOption hkind)) (by simp)

end

/-- What a name in a directory shows. -/
theorem lookup_concat {children : Children} (hentry : entryAt root parent=.ok (.dir children))
    (name : Text) :
    lookup root (parent++[name])=(find name children).map fun entry => view entry.2 := by
  rw [lookup,entryAt_concat hentry,findChild,find]
  cases children.find? fun entry => entry.1==name <;> rfl

/-- Creation succeeds exactly below an existing directory and for a path that
does not exist. -/
theorem createAt_isOk_iff (hpath : path.head?=some '/') :
    (∃ later,createAt node path root=.ok later) ↔
      kindAt root (parentOf path)=.ok .directory ∧ ∀ kind,kindAt root path≠.ok kind := by
  rw [absent_iff hpath,kind_directory_iff rfl,parts_parentOf]
  rcases List.eq_nil_or_concat' (parts path) with hempty|⟨parent,name,hparts⟩
  · refine iff_of_false ?_ ?_
    · rintro ⟨later,hrun⟩
      rw [createAt,parentAndName_of_root hpath hempty] at hrun
      cases hrun
    · rintro ⟨-,hnone⟩
      rw [hempty] at hnone
      cases hnone
  · rw [createAt_eq hpath hparts,hparts,List.dropLast_concat]
    refine modifyAt_isOk_iff.trans ?_
    constructor
    · rintro ⟨children,changed,hentry,hpush⟩
      refine ⟨⟨children,hentry⟩,?_⟩
      rw [lookup_concat hentry,find_none_iff.mpr (pushChild_ok hpush).1]
      rfl
    · rintro ⟨⟨children,hentry⟩,hnone⟩
      rw [lookup_concat hentry,Option.map_eq_none_iff,find_none_iff] at hnone
      exact ⟨children,_,hentry,pushChild_of_notMem hnone⟩

/-- A created node is added at its path. -/
theorem added_of_createAt (hroot : Distinct root) (hpath : path.head?=some '/') (hnode : Bare node)
    (hrun : createAt node path root=.ok later) : Added root later path node := by
  rcases List.eq_nil_or_concat' (parts path) with hempty|⟨parent,name,hparts⟩
  · rw [createAt,parentAndName_of_root hpath hempty] at hrun
    cases hrun
  · rw [createAt_eq hpath hparts] at hrun
    exact added_of_push hroot hpath hparts hnode hrun

end

/-! ### Writes -/

section

variable {root later : FsNode} {path : Text} {bytes : List UInt8}

/-- A file was written at a path. -/
structure WrittenAt (root later : FsNode) (path : Text) (bytes : List UInt8) : Prop where
  /-- Other paths are as before. -/
  framed : Framed root later path
  /-- The path has the contents. -/
  reads : readAt later path=.ok bytes
  /-- It has no listing, and had none. -/
  noList : (listAt root path).toOption=none ∧ (listAt later path).toOption=none
  /-- The parent gained the name if the path did not exist. -/
  gained : ∃ name entries,(parts path).getLast?=some name ∧
    listAt root (parentOf path)=.ok entries ∧
    listAt later (parentOf path)=
      .ok (if (kindAt root path).isOk then entries else entries++[name])

theorem bare_write (name : Text) (children changed : Children)
    (hrun : writeChild name bytes children=.ok changed) :
    (∀ entry,find name children=some entry → Bare entry.2) ∧
      ∀ entry,find name changed=some entry → Bare entry.2 := by
  rcases writeChild_split hrun with ⟨hfresh,rfl⟩|⟨front,old,back,rfl,hfront,rfl⟩
  · exact bare_push (bare_file bytes) children _ (pushChild_of_notMem hfresh)
  · rw [find_append hfront,find_append hfront]
    refine ⟨?_,?_⟩
    · rintro entry ⟨⟩
      exact bare_file old
    · rintro entry ⟨⟩
      exact bare_file bytes

/-- A successful write changes its path and the listing of the parent. -/
theorem written_of_writeAt (hroot : Distinct root) (hpath : path.head?=some '/')
    (hrun : writeAt path bytes root=.ok later) : WrittenAt root later path bytes := by
  rw [writeAt] at hrun
  split at hrun
  · cases hrun
  rcases List.eq_nil_or_concat' (parts path) with hempty|⟨parent,name,hparts⟩
  · rw [parentAndName_of_root hpath hempty] at hrun
    cases hrun
  rw [parentAndName_of_parts hpath hparts] at hrun
  obtain ⟨children,changed,hwrite,-,hedit⟩ := edited_of_run hroot (touchesOnly_writeChild name bytes)
    hrun fun children changed _ => bare_write name children changed
  obtain ⟨hbefore,hafter⟩ := hedit.lists hparts
  obtain ⟨hroots,hlaters⟩ := hedit.shows hparts
  have hsome : (parts path).isEmpty=false := by rw [hparts]; simp
  have hlast : (parts path).getLast?=some name := by rw [hparts,List.getLast?_concat]
  have hkind := kindAt_eq root hpath
  have hfound : find name changed=some (name,.file bytes) := by
    rcases writeChild_split hwrite with ⟨hfresh,rfl⟩|⟨front,old,back,-,hfront,rfl⟩
    · exact find_append hfresh
    · exact find_append hfront
  rw [hfound] at hlaters
  refine ⟨hedit.framed hparts,ok_of_toOption ?_,⟨?_,?_⟩,name,_,hlast,hbefore,?_⟩
  · rw [readAt_eq later hpath,hsome,hlaters]
    rfl
  · rw [listAt_eq root hpath,hroots]
    rcases writeChild_split hwrite with ⟨hfresh,-⟩|⟨front,old,back,rfl,hfront,-⟩
    · rw [find_none_iff.mpr hfresh]
      rfl
    · rw [find_append hfront]
      rfl
  · rw [listAt_eq later hpath,hlaters]
    rfl
  · rw [hafter]
    rcases writeChild_split hwrite with ⟨hfresh,rfl⟩|⟨front,old,back,rfl,hfront,rfl⟩
    · rw [hroots,find_none_iff.mpr hfresh] at hkind
      have hfails : (kindAt root path).isOk=false := by
        cases hcase : kindAt root path with
        | error reason => rfl
        | ok kind =>
          rw [hcase] at hkind
          cases hkind
      rw [hfails,List.map_append]
      rfl
    · rw [hroots,find_append hfront] at hkind
      rw [ok_of_toOption hkind,List.map_append,List.map_append]
      rfl

end

/-! ### Removal -/

section

variable {root later : FsNode} {path : Text}

/-- The node at a path was removed. -/
structure RemovedAt (root later : FsNode) (path : Text) : Prop where
  /-- Other paths are as before. -/
  framed : Framed root later path
  /-- The path does not exist any more. -/
  gone : ∀ kind,kindAt later path≠.ok kind
  /-- The parent lost the entry. -/
  lost : ∃ name front shown back,(parts path).getLast?=some name ∧
    (shown=name ∨ shown=name++['/']) ∧ listAt root (parentOf path)=.ok (front++shown::back) ∧
    listAt later (parentOf path)=.ok (front++back)

theorem displayEntry_cases (entry : Text×FsNode) :
    displayEntry entry=entry.1 ∨ displayEntry entry=entry.1++['/'] := by
  obtain ⟨name,node⟩ := entry
  cases node with
  | file content => exact Or.inl rfl
  | dir children => exact Or.inr rfl

/-- With distinct names nothing of a name is left behind. -/
theorem find_removed {name : Text} {front back : Children} {node : FsNode}
    (hnodup : ((front++(name,node)::back).map Prod.fst).Nodup) : find name (front++back)=none := by
  rw [find_none_iff,List.map_append,List.mem_append]
  rw [List.map_append,List.map_cons,List.nodup_append] at hnodup
  obtain ⟨-,hback,happart⟩ := hnodup
  rintro (hmem|hmem)
  · exact happart name hmem name List.mem_cons_self rfl
  · exact (List.nodup_cons.mp hback).1 hmem

theorem bare_remove (name : Text) (children changed : Children)
    (hnodup : (children.map Prod.fst).Nodup) (hrun : removeChild name children=.ok changed) :
    (∀ entry,find name children=some entry → Bare entry.2) ∧
      ∀ entry,find name changed=some entry → Bare entry.2 := by
  obtain ⟨front,node,back,rfl,hfront,hnode,rfl⟩ := removeChild_split hrun
  rw [find_append hfront,find_removed hnodup]
  refine ⟨?_,?_⟩
  · rintro entry ⟨⟩
    exact Removable.bare hnode
  · rintro entry ⟨⟩

theorem removeAt_eq {parent : List Text} {name : Text} (hpath : path.head?=some '/')
    (hparts : parts path=parent++[name]) :
    removeAt path root=childrenAtMut parent (removeChild name) root := by
  rw [removeAt,parentAndName_of_parts hpath hparts]
  rfl

theorem removed_of_removeAt (hroot : Distinct root) (hpath : path.head?=some '/')
    (hrun : removeAt path root=.ok later) : RemovedAt root later path := by
  rcases List.eq_nil_or_concat' (parts path) with hempty|⟨parent,name,hparts⟩
  · rw [removeAt,parentAndName_of_root hpath hempty] at hrun
    cases hrun
  rw [removeAt_eq hpath hparts] at hrun
  obtain ⟨children,changed,hremove,hnodup,hedit⟩ := edited_of_run hroot
    (touchesOnly_removeChild name) hrun (bare_remove name)
  obtain ⟨hbefore,hafter⟩ := hedit.lists hparts
  obtain ⟨front,node,back,rfl,hfront,hnode,rfl⟩ := removeChild_split hremove
  refine ⟨hedit.framed hparts,?_,name,front.map displayEntry,displayEntry (name,node),
    back.map displayEntry,by rw [hparts,List.getLast?_concat],displayEntry_cases (name,node),?_,?_⟩
  · rw [absent_iff hpath,(hedit.shows hparts).2,find_removed hnodup]
    rfl
  · rw [hbefore,List.map_append,List.map_cons]
  · rw [hafter,List.map_append]

/-- What exists stands in a directory. -/
theorem parent_of_lookup {parent : List Text} {name : Text} {shown : View}
    (hlook : lookup root (parent++[name])=some shown) :
    ∃ children,entryAt root parent=.ok (.dir children) := by
  induction parent generalizing root with
  | nil =>
    cases root with
    | file content => cases hlook
    | dir children => exact ⟨children,rfl⟩
  | cons first parent ih =>
    cases root with
    | file content => cases hlook
    | dir siblings =>
      rw [List.cons_append,lookup,entryAt_dir_find] at hlook
      rw [entryAt_dir_find]
      cases hfind : find first siblings with
      | none =>
        rw [hfind] at hlook
        cases hlook
      | some entry =>
        rw [hfind] at hlook
        exact ih hlook

/-- What a removable node shows as its listing. -/
theorem removable_iff (node : FsNode) :
    Removable node ↔ ∀ entries,(view node).entries=some entries → entries=[] := by
  cases node with
  | file content => exact iff_of_true (by simp [Removable]) nofun
  | dir children =>
    cases children with
    | nil =>
      refine iff_of_true (by simp [Removable]) ?_
      rintro entries ⟨⟩
      rfl
    | cons first rest =>
      refine iff_of_false (fun hnode => hnode first rest rfl) fun hempty => ?_
      cases hempty _ rfl

/-- Removal succeeds exactly for a path that exists, is not the root and is
not a directory with entries. -/
theorem removeAt_isOk_iff (hpath : Canonical path) : (∃ later,removeAt path root=.ok later) ↔
      path≠['/'] ∧ (∃ kind,kindAt root path=.ok kind) ∧
        ∀ entries,listAt root path=.ok entries → entries=[] := by
  have habsolute := hpath.absolute
  rcases List.eq_nil_or_concat' (parts path) with hempty|⟨parent,name,hparts⟩
  · refine iff_of_false ?_ fun h => h.1 ?_
    · rintro ⟨later,hrun⟩
      rw [removeAt,parentAndName_of_root habsolute hempty] at hrun
      cases hrun
    · have htext := hpath.text
      rw [hempty] at htext
      exact htext
  have hlist := listAt_eq root habsolute
  have hkind := kindAt_eq root habsolute
  rw [removeAt_eq habsolute hparts]
  rw [hparts] at hlist hkind
  refine modifyAt_isOk_iff.trans ?_
  constructor
  · rintro ⟨children,changed,hentry,hremove⟩
    obtain ⟨front,node,back,rfl,hfront,hnode,-⟩ := removeChild_split hremove
    rw [lookup_concat hentry,find_append hfront] at hlist hkind
    refine ⟨?_,⟨_,ok_of_toOption hkind⟩,fun entries hentries => ?_⟩
    · rintro rfl
      cases parent <;> cases hparts
    · rw [hentries] at hlist
      exact (removable_iff node).mp hnode entries hlist.symm
  · rintro ⟨-,⟨kind,hexists⟩,hempty⟩
    rw [hexists] at hkind
    obtain ⟨shown,hlook,-⟩ := Option.map_eq_some_iff.mp hkind.symm
    obtain ⟨children,hentry⟩ := parent_of_lookup hlook
    rw [lookup_concat hentry] at hlook hlist
    obtain ⟨entry,hfind,hshown⟩ := Option.map_eq_some_iff.mp hlook
    obtain ⟨front,back,rfl,hfront⟩ := split_of_find hfind
    have hnode : Removable entry.2 := by
      refine (removable_iff _).mpr fun entries hentries => hempty entries (ok_of_toOption ?_)
      rw [hlist,hfind]
      exact hentries
    exact ⟨_,_,hentry,removeChild_append hfront hnode back⟩

end

/-! ## The whole map -/

section

variable {root later : FsNode} {path : Text}

/-- When an operation succeeds. -/
theorem perform_ok_iff (mutation : Mutation) :
    (perform mutation root).1=.ok () ↔ ∃ later,mutation.apply root=.ok later := by
  rw [perform_eq,committing]
  cases mutation.apply root with
  | error reason => exact iff_of_false (by simp) (by simp)
  | ok later => exact iff_of_true rfl ⟨later,rfl⟩

/-- What a successful operation leaves. -/
theorem apply_of_perform {mutation : Mutation}
    (hrun : perform mutation root=(.ok (),later)) : mutation.apply root=.ok later := by
  rw [perform_eq,committing] at hrun
  cases happly : mutation.apply root with
  | error reason =>
    rw [happly] at hrun
    cases hrun
  | ok found =>
    rw [happly] at hrun
    cases hrun
    rfl

/-- The tree is a map from paths. In a tree with distinct names and for a
canonical path: a write makes the path read as the bytes, creations succeed
exactly for a path that does not exist in a directory that does and add an
empty node, removal succeeds exactly for an existing path other than the root
without entries and takes it away, each with all other paths as before; and a
failed operation leaves the tree equal. -/
theorem tree_is_path_map (hroot : Distinct root) (hpath : Canonical path) :
    (∀ bytes later,perform (.write path bytes) root=(.ok (),later) →
      WrittenAt root later path bytes) ∧
    ((perform (.createFile path) root).1=.ok () ↔
      kindAt root (parentOf path)=.ok .directory ∧ ∀ kind,kindAt root path≠.ok kind) ∧
    (∀ later,perform (.createFile path) root=(.ok (),later) → Added root later path (.file [])) ∧
    ((perform (.createDir path) root).1=.ok () ↔
      kindAt root (parentOf path)=.ok .directory ∧ ∀ kind,kindAt root path≠.ok kind) ∧
    (∀ later,perform (.createDir path) root=(.ok (),later) → Added root later path (.dir [])) ∧
    ((perform (.remove path) root).1=.ok () ↔
      path≠['/'] ∧ (∃ kind,kindAt root path=.ok kind) ∧
        ∀ entries,listAt root path=.ok entries → entries=[]) ∧
    (∀ later,perform (.remove path) root=(.ok (),later) → RemovedAt root later path) ∧
    ∀ mutation reason later,perform mutation root=(.error reason,later) → later=root := by
  have habsolute := hpath.absolute
  refine ⟨fun bytes later hrun => written_of_writeAt hroot habsolute (apply_of_perform hrun),
    (perform_ok_iff _).trans (createAt_isOk_iff habsolute),
    fun later hrun => added_of_createAt hroot habsolute (bare_file []) (apply_of_perform hrun),
    (perform_ok_iff _).trans (createAt_isOk_iff habsolute),
    fun later hrun => added_of_createAt hroot habsolute bare_empty (apply_of_perform hrun),
    (perform_ok_iff _).trans (removeAt_isOk_iff hpath),
    fun later hrun => removed_of_removeAt hroot habsolute (apply_of_perform hrun),
    fun mutation reason later hrun => ?_⟩
  rw [perform_eq,committing] at hrun
  cases happly : mutation.apply root with
  | ok found =>
    rw [happly] at hrun
    cases hrun
  | error found =>
    rw [happly] at hrun
    cases hrun
    rfl

/-- A directory `a` with a file `b`. -/
def sampleTree : FsNode := .dir [(['a'],.dir [(['b'],.file [7])])]

theorem distinct_sampleTree : Distinct sampleTree :=
  @distinct_of_wellFormed 0 sampleTree (by decide)

/-- In a tree with the file `/a/b`, the file `/a/c` is written and `/a/b` is
kept. -/
theorem tree_is_path_map_sample :
    ∃ later,perform (.write ['/','a','/','c'] [1]) sampleTree=(.ok (),later) ∧
      readAt later ['/','a','/','c']=.ok [1] ∧
      (readAt later ['/','a','/','b']).toOption=some [7] := by
  have hpath : Canonical ['/','a','/','c'] := canonical_normalize canonical_root
    (show normalize ['/'] ['a','/','c']=.ok ['/','a','/','c'] by decide)
  have hwritten := (tree_is_path_map distinct_sampleTree hpath).1 [1] _ rfl
  exact ⟨_,rfl,hwritten.reads,hwritten.framed.read ['/','a','/','b'] (by decide)⟩

end

end TuwaiqOS.PathMap
