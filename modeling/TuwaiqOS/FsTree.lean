import TuwaiqOS.FallibleSteps
import TuwaiqOS.Utf8Text

/-!
# The in-memory directory tree and its mutations

The tree of `tuwaiqfs.rs` (`FsNode`) and the tree of `fs.rs` (`Entry`) have
the same shape; the latter only shares file contents behind reference
counts, so one type stands for both and the two conversions are the
identity. Children are found by the first entry of a name. Every mutation
descends to the parent directory and replaces its list of children.
-/

namespace TuwaiqOS.FsTree

open Utf8Text

/-- A file with its contents or a directory with its named children. -/
inductive FsNode where
  /-- A regular file. -/
  | file (content : List UInt8)
  /-- A directory; children keep their insertion order. -/
  | dir (children : List (Text×FsNode))

/-- The named entries of one directory. -/
abbrev Children := List (Text×FsNode)

/-- The tree of a freshly formatted volume (`empty_root`). -/
def emptyRoot : FsNode := .dir []

/-- Largest file that the record format can store (`MAX_FILE_SIZE`). -/
def maxFileSize : ℕ := 65535

/-- Kind of a node as reported by `kind_at`. -/
inductive EntryKind where
  /-- A regular file. -/
  | file
  /-- A directory. -/
  | directory
  deriving DecidableEq

/-- Case analysis by contents: a file, or a directory all of whose entries
already satisfy the statement. -/
theorem FsNode.byContents {motive : FsNode → Prop} (hfile : ∀ content,motive (.file content))
    (hdir : ∀ children : Children,(∀ entry∈children,motive entry.2) → motive (.dir children))
    (node : FsNode) : motive node := by
  refine @FsNode.rec motive (fun children => ∀ entry∈children,motive entry.2)
    (fun entry => motive entry.2) hfile hdir ?_ ?_ ?_ node
  · intro entry hentry
    exact absurd hentry List.not_mem_nil
  · intro head tail hhead htail entry hentry
    rcases List.mem_cons.mp hentry with rfl|hlater
    · exact hhead
    · exact htail entry hlater
  · intro _ node hnode
    exact hnode

/-! ## Walking to a directory -/

/-- Replace the first child of the given name, failing with `missing` if
there is none. -/
def modifyChild (missing : String) (name : Text) (change : FsNode → Except String FsNode) :
    Children → Except String Children
  | [] => .error missing
  | (existing,child)::rest =>
    if existing=name then do
      let changed ← change child
      pure ((existing,changed)::rest)
    else do
      let later ← modifyChild missing name change rest
      pure ((existing,child)::later)

/-- Apply a change to the children of a directory, failing on a file. -/
def onDir (notDir : String) (change : Children → Except String Children) :
    FsNode → Except String FsNode
  | .dir children => do
    let changed ← change children
    pure (.dir changed)
  | .file _ => .error notDir

/-- Descend along `path` and change the children of the directory found
there. The two texts report a missing entry and a file in place of a
directory. -/
def modifyAt (missing notDir : String) (path : List Text)
    (change : Children → Except String Children) : FsNode → Except String FsNode :=
  match path with
  | [] => onDir notDir change
  | part::rest => onDir notDir (modifyChild missing part (modifyAt missing notDir rest change))

/-- The node of the first child of the given name (`find_child`). -/
def findChild (node : FsNode) (name : Text) : Except String FsNode :=
  match node with
  | .dir children =>
    match children.find? fun entry => entry.1==name with
    | some entry => .ok entry.2
    | none => .error "entry not found"
  | .file _ => .error "not a directory"

/-- The node at a component path (`entry_at`). -/
def entryAt (root : FsNode) : List Text → Except String FsNode
  | [] => .ok root
  | part::rest => do
    let child ← findChild root part
    entryAt child rest

/-- Non-empty components of an absolute path (`split_absolute_path`). -/
def splitAbsolutePath (path : Text) : Except String (List Text) :=
  if path.head?=some '/' then .ok ((path.splitOn '/').filter fun part => !part.isEmpty)
  else .error "backend path must be absolute"

/-- Parent components and entry name of a path (`parent_and_name`). -/
def parentAndName (path : Text) : Except String (List Text×Text) := do
  let parts ← splitAbsolutePath path
  match parts.getLast? with
  | none => .error "root has no entry name"
  | some name => pure (parts.dropLast,name)

/-- Kind of the node at a path (`kind_at`). -/
def kindAt (root : FsNode) (path : Text) : Except String EntryKind := do
  let parts ← splitAbsolutePath path
  match ← entryAt root parts with
  | .file _ => pure .file
  | .dir _ => pure .directory

/-- Contents of the file at a path (`read_at`). -/
def readAt (root : FsNode) (path : Text) : Except String (List UInt8) := do
  let parts ← splitAbsolutePath path
  if parts.isEmpty then .error "is a directory"
  else match ← entryAt root parts with
    | .file content => pure content
    | .dir _ => .error "is a directory"

/-- The entries of the directory at a component path (`children_at`). -/
def childrenAt (root : FsNode) (path : List Text) : Except String Children := do
  match ← entryAt root path with
  | .dir children => pure children
  | .file _ => .error "not a directory"

/-- An entry as `list_at` shows it: directories end with a separator. -/
def displayEntry (entry : Text×FsNode) : Text :=
  match entry.2 with
  | .dir _ => entry.1++['/']
  | .file _ => entry.1

/-- Entries of the directory at a path (`list_at`). -/
def listAt (root : FsNode) (path : Text) : Except String (List Text) := do
  let parts ← splitAbsolutePath path
  let children ← childrenAt root parts
  pure (children.map displayEntry)

/-- `EntryMetadata`. -/
structure EntryMetadata where
  /-- File or directory. -/
  kind : EntryKind
  /-- Bytes of a file or entries of a directory. -/
  size : ℕ
  deriving DecidableEq

/-- Metadata of the node at a path (`metadata_at`). -/
def metadataAt (root : FsNode) (path : Text) : Except String EntryMetadata := do
  let parts ← splitAbsolutePath path
  match ← entryAt root parts with
  | .file content => pure ⟨.file,content.length⟩
  | .dir children => pure ⟨.directory,children.length⟩

/-! ## Mutations -/

/-- Append a child unless its name is taken. -/
def pushChild (taken : String) (name : Text) (node : FsNode) (children : Children) :
    Except String Children :=
  if children.any fun entry => entry.1==name then .error taken
  else .ok (children++[(name,node)])

/-- Replace the contents of the file of the given name, or append it. -/
def writeChild (name : Text) (bytes : List UInt8) : Children → Except String Children
  | [] => .ok [(name,.file bytes)]
  | (existing,child)::rest =>
    if existing=name then
      match child with
      | .file _ => .ok ((existing,.file bytes)::rest)
      | .dir _ => .error "is a directory"
    else do
      let later ← writeChild name bytes rest
      pure ((existing,child)::later)

/-- Drop the first child of the given name unless it is a non-empty
directory. -/
def removeChild (name : Text) (children : Children) : Except String Children :=
  match children.findIdx? fun entry => entry.1==name with
  | none => .error "entry not found"
  | some index =>
    match children[index]? with
    | some (_,.dir (_::_)) => .error "directory not empty"
    | _ => .ok (children.eraseIdx index)

/-- Walk to a parent directory with the texts of `children_at_mut`. -/
def childrenAtMut (parent : List Text) (change : Children → Except String Children)
    (root : FsNode) : Except String FsNode :=
  modifyAt "entry not found" "not a directory" parent change root

/-- `FileSystem::create_file_at`. -/
def createFileAt (path : Text) (root : FsNode) : Except String FsNode := do
  let (parent,name) ← parentAndName path
  childrenAtMut parent (pushChild "file or directory already exists" name (.file [])) root

/-- `FileSystem::create_dir_at`. -/
def createDirAt (path : Text) (root : FsNode) : Except String FsNode := do
  let (parent,name) ← parentAndName path
  childrenAtMut parent (pushChild "file or directory already exists" name (.dir [])) root

/-- `FileSystem::write_at`. -/
def writeAt (path : Text) (bytes : List UInt8) (root : FsNode) : Except String FsNode := do
  if bytes.length>maxFileSize then .error "file too large"
  else
    let (parent,name) ← parentAndName path
    childrenAtMut parent (writeChild name bytes) root

/-- `FileSystem::remove_at`. -/
def removeAt (path : Text) (root : FsNode) : Except String FsNode := do
  let (parent,name) ← parentAndName path
  childrenAtMut parent (removeChild name) root

/-- One filesystem mutation with its arguments. -/
inductive Mutation where
  /-- `create_file_at(path)`. -/
  | createFile (path : Text)
  /-- `create_dir_at(path)`. -/
  | createDir (path : Text)
  /-- `write_at(path, bytes)`. -/
  | write (path : Text) (bytes : List UInt8)
  /-- `remove_at(path)`. -/
  | remove (path : Text)
  deriving DecidableEq

/-- The path a mutation names. -/
def Mutation.path : Mutation → Text
  | .createFile path => path
  | .createDir path => path
  | .write path _ => path
  | .remove path => path

/-- The change a mutation makes to a private copy of the tree. -/
def Mutation.apply : Mutation → FsNode → Except String FsNode
  | .createFile path => createFileAt path
  | .createDir path => createDirAt path
  | .write path bytes => writeAt path bytes
  | .remove path => removeAt path

/-! ## Algebra of descents -/

section

variable (missing notDir : String)

/-- Two changes of one directory fuse. -/
theorem onDir_bind (first second : Children → Except String Children) (node : FsNode) :
    (onDir notDir first node>>=onDir notDir second)=
      onDir notDir (fun children => first children>>=second) node := by
  cases node with
  | file content => rfl
  | dir children =>
    simp only [onDir]
    cases first children <;> rfl

/-- Two changes of the first child of one name fuse. -/
theorem modifyChild_bind (name : Text) (first second : FsNode → Except String FsNode)
    (children : Children) :
    (modifyChild missing name first children>>=modifyChild missing name second)=
      modifyChild missing name (fun node => first node>>=second) children := by
  induction children with
  | nil => rfl
  | cons entry rest ih =>
    obtain ⟨existing,child⟩ := entry
    by_cases hname : existing=name
    · simp only [modifyChild,if_pos hname]
      rcases hfirst : first child with reason|changed
      · rfl
      · change modifyChild missing name second ((existing,changed)::rest)=_
        rw [modifyChild,if_pos hname]
        rfl
    · simp only [modifyChild,if_neg hname] at ih ⊢
      rw [← ih]
      rcases hfirst : modifyChild missing name first rest with reason|later
      · rfl
      · change modifyChild missing name second ((existing,child)::later)=_
        rw [modifyChild,if_neg hname]
        rfl

/-- Two changes at one path fuse. -/
theorem modifyAt_bind (path : List Text) (first second : Children → Except String Children)
    (node : FsNode) :
    (modifyAt missing notDir path first node>>=modifyAt missing notDir path second)=
      modifyAt missing notDir path (fun children => first children>>=second) node := by
  induction path generalizing node with
  | nil => exact onDir_bind notDir first second node
  | cons part rest ih =>
    simp only [modifyAt]
    rw [onDir_bind]
    congr 1
    funext children
    rw [modifyChild_bind]
    congr 1
    funext child
    exact ih child

/-- A list of changes at one path fuses with an earlier change there. -/
theorem modifyAt_foldlM {α : Type} (path : List Text) (change : α → Children → Except String Children)
    (items : List α) (first : Children → Except String Children) (node : FsNode) :
    (modifyAt missing notDir path first node>>=fun changed =>
        items.foldlM (fun tree item => modifyAt missing notDir path (change item) tree) changed)=
      modifyAt missing notDir path (fun children =>
        first children>>=fun changed => items.foldlM (fun list item => change item list) changed)
        node := by
  induction items generalizing first with
  | nil => simp only [List.foldlM_nil,bind_pure]
  | cons item items ih =>
    simp only [List.foldlM_cons]
    rw [← bind_assoc,modifyAt_bind,ih]
    congr 1
    funext children
    exact bind_assoc _ _ _

/-- Descending one component further is a change of the parent's children. -/
theorem modifyAt_concat (path : List Text) (part : Text)
    (change : Children → Except String Children) : modifyAt missing notDir (path++[part]) change=
      modifyAt missing notDir path (modifyChild missing part (onDir notDir change)) := by
  induction path with
  | nil => rfl
  | cons first rest ih => simp only [List.cons_append,modifyAt,ih]

/-- A name that is not taken is reached past every earlier entry. -/
theorem modifyChild_append_of_notMem {name : Text} {children : Children}
    (hname : name∉children.map Prod.fst) (change : FsNode → Except String FsNode)
    (rest : Children) : modifyChild missing name change (children++rest)=
      (fun later => children++later)<$>modifyChild missing name change rest := by
  induction children with
  | nil => simp
  | cons entry children ih =>
    obtain ⟨existing,child⟩ := entry
    simp only [List.map_cons,List.mem_cons,not_or] at hname
    rw [List.cons_append,modifyChild,if_neg (Ne.symm hname.1),ih hname.2]
    cases modifyChild missing name change rest <;> rfl

end

/-- The test for a taken name looks at the list of names. -/
theorem any_name_iff (name : Text) (children : Children) :
    (children.any fun entry => entry.1==name)=true ↔ name∈children.map Prod.fst := by
  simp only [List.any_eq_true,beq_iff_eq,List.mem_map]

theorem pushChild_of_notMem {taken : String} {name : Text} {node : FsNode} {children : Children}
    (hname : name∉children.map Prod.fst) :
    pushChild taken name node children=.ok (children++[(name,node)]) := by
  rw [pushChild,if_neg (mt (any_name_iff name children).mp hname)]

theorem pushChild_of_mem {taken : String} {name : Text} {node : FsNode} {children : Children}
    (hname : name∈children.map Prod.fst) : pushChild taken name node children=.error taken := by
  rw [pushChild,if_pos ((any_name_iff name children).mpr hname)]

end TuwaiqOS.FsTree
