import TuwaiqOS.TreeInvariant

/-!
# Mutations of the tree in place

The operations of `FileSystem` walk to the parent directory through mutable
references, check, and change its list of children last. They do what the
same operation does on a copy of the tree, and a failed one has changed
nothing.
-/

namespace TuwaiqOS.InPlaceTree

open Utf8Text FsTree

/-- An operation on a mutable value: its result, and the value afterwards. -/
abbrev InPlace (σ : Type) : Type := σ → Except String Unit×σ

/-- Go on in the child that `find_child_mut` finds. -/
def inChild (name : Text) (step : InPlace FsNode) : InPlace Children
  | [] => (.error "entry not found",[])
  | (existing,child)::rest =>
    if existing=name then ((step child).1,(existing,(step child).2)::rest)
    else ((inChild name step rest).1,(existing,child)::(inChild name step rest).2)

/-- Go on in the children of a directory. -/
def inDir (step : InPlace Children) : InPlace FsNode
  | .dir children => ((step children).1,.dir (step children).2)
  | .file content => (.error "not a directory",.file content)

/-- `children_at_mut`, and an operation on the children that it finds. -/
def inChildren (path : List Text) (step : InPlace Children) : InPlace FsNode :=
  match path with
  | [] => inDir step
  | part::rest => inDir (inChild part (inChildren rest step))

/-- Push a new child, as `create_file_at` and `create_dir_at` do. -/
def pushNew (name : Text) (node : FsNode) : InPlace Children := fun children =>
  if children.any fun entry => entry.1==name then
    (.error "file or directory already exists",children)
  else (.ok (),children++[(name,node)])

/-- Replace the contents of the first file of a name, or push a new one. -/
def writeFound (name : Text) (bytes : List UInt8) : InPlace Children
  | [] => (.ok (),[(name,.file bytes)])
  | (existing,child)::rest =>
    if existing=name then
      match child with
      | .file _ => (.ok (),(existing,.file bytes)::rest)
      | .dir _ => (.error "is a directory",(existing,child)::rest)
    else ((writeFound name bytes rest).1,(existing,child)::(writeFound name bytes rest).2)

/-- Remove the first child of a name, unless it is a directory with
children. -/
def removeFound (name : Text) : InPlace Children := fun children =>
  match children.findIdx? fun entry => entry.1==name with
  | none => (.error "entry not found",children)
  | some index =>
    match children[index]? with
    | some (_,.dir (_::_)) => (.error "directory not empty",children)
    | _ => (.ok (),children.eraseIdx index)

/-- Walk to the parent of a path and go on there with the name. -/
def atParent (path : Text) (step : Text → InPlace Children) : InPlace FsNode := fun root =>
  match parentAndName path with
  | .error reason => (.error reason,root)
  | .ok (parent,name) => inChildren parent (step name) root

/-- The operations of `FileSystem` that change the tree. -/
def perform : Mutation → InPlace FsNode
  | .createFile path => atParent path fun name => pushNew name (.file [])
  | .createDir path => atParent path fun name => pushNew name (.dir [])
  | .write path bytes => fun root =>
    if bytes.length>maxFileSize then (.error "file too large",root)
    else atParent path (fun name => writeFound name bytes) root
  | .remove path => atParent path removeFound

/-- A change of a copy, made in place: a failed one leaves the value. -/
def committing {σ : Type} (change : σ → Except String σ) : InPlace σ := fun value =>
  match change value with
  | .ok changed => (.ok (),changed)
  | .error reason => (.error reason,value)

theorem inDir_committing (change : Children → Except String Children) :
    inDir (committing change)=committing (onDir "not a directory" change) := by
  funext node
  cases node with
  | file content => rfl
  | dir children =>
    simp only [inDir,committing,onDir]
    cases change children <;> rfl

theorem inChild_committing (name : Text) (change : FsNode → Except String FsNode) :
    inChild name (committing change)= committing (modifyChild "entry not found" name change) := by
  funext children
  induction children with
  | nil => rfl
  | cons entry rest ih =>
    obtain ⟨existing,child⟩ := entry
    by_cases hname : existing=name
    · simp only [inChild,committing,modifyChild,if_pos hname]
      cases change child <;> rfl
    · simp only [inChild,if_neg hname,ih]
      simp only [committing,modifyChild,if_neg hname]
      cases modifyChild "entry not found" name change rest <;> rfl

theorem inChildren_committing (path : List Text) (change : Children → Except String Children) :
    inChildren path (committing change)=committing (childrenAtMut path change) := by
  induction path with
  | nil => exact inDir_committing change
  | cons part rest ih =>
    have hchild : committing (childrenAtMut rest change)=
      committing (modifyAt "entry not found" "not a directory" rest change) := rfl
    rw [inChildren,ih,hchild,inChild_committing,inDir_committing]
    rfl

theorem pushNew_eq (name : Text) (node : FsNode) :
    pushNew name node=committing (pushChild "file or directory already exists" name node) := by
  funext children
  simp only [pushNew,committing,pushChild]
  split <;> rfl

theorem writeFound_eq (name : Text) (bytes : List UInt8) :
    writeFound name bytes=committing (writeChild name bytes) := by
  funext children
  induction children with
  | nil => rfl
  | cons entry rest ih =>
    obtain ⟨existing,child⟩ := entry
    by_cases hname : existing=name
    · simp only [writeFound,committing,writeChild,if_pos hname]
      cases child <;> rfl
    · simp only [writeFound,if_neg hname,ih]
      simp only [committing,writeChild,if_neg hname]
      cases writeChild name bytes rest <;> rfl

theorem removeFound_eq (name : Text) : removeFound name=committing (removeChild name) := by
  funext children
  rw [removeFound,committing,removeChild]
  cases children.findIdx? fun entry => entry.1==name with
  | none => rfl
  | some index =>
    dsimp only
    rcases children[index]? with _|⟨existing,_|(_|_)⟩ <;> rfl

theorem atParent_eq {path : Text} {step : Text → InPlace Children}
    {change : Text → Children → Except String Children}
    (hstep : ∀ name,step name=committing (change name)) :
    atParent path step=committing (fun root => do
      let (parent,name) ← parentAndName path
      childrenAtMut parent (change name) root) := by
  funext root
  rw [atParent,committing]
  rcases parentAndName path with reason|⟨parent,name⟩
  · rfl
  · dsimp only
    rw [hstep,inChildren_committing]
    rfl

/-- In place or on a copy: the operations do the same, and a failed one leaves
the tree. -/
theorem perform_eq (mutation : Mutation) : perform mutation=committing mutation.apply := by
  cases mutation with
  | createFile | createDir => exact atParent_eq fun name => pushNew_eq name _
  | write path bytes =>
    funext root
    have hwrite := congrFun (@atParent_eq path _ _ fun name => writeFound_eq name bytes) root
    simp only [perform,committing,Mutation.apply,writeAt] at hwrite ⊢
    split
    · rfl
    · exact hwrite
  | remove path => exact atParent_eq removeFound_eq

end TuwaiqOS.InPlaceTree
