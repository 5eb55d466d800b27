import TuwaiqOS.FsTree

/-!
# Well-formed trees and what mutations do to them

A tree is well formed when sibling names are distinct, every name is a
legal component, every slash-joined path fits the record format and every
file fits its length field. One lemma describes a successful descent: which
directory was changed, and by how much the number of nodes moved. From it
every mutation preserves well-formedness on legal paths.
-/

namespace TuwaiqOS.TreeInvariant

open Utf8Text FallibleSteps FsTree

/-- Longest path of a record (`120`, also `PATH_MAX`). -/
def pathMax : ℕ := 120

/-- Longest path component (`64`, also `NAME_MAX`). -/
def nameMax : ℕ := 64

/-- A legal path component. -/
@[mk_iff]
structure NameOk (name : Text) : Prop where
  /-- A component is not empty. -/
  nonempty : name≠[]
  /-- It fits the component limit. -/
  short : len name≤nameMax
  /-- It is not the current-directory component. -/
  notDot : name≠['.']
  /-- It is not the parent-directory component. -/
  notDotDot : name≠['.','.']
  /-- It contains no separator. -/
  noSlash : '/'∉name
  /-- It contains no backslash. -/
  noBackslash : '\\'∉name
  /-- It contains no control byte. -/
  noControl : hasControlByte name=false

instance : DecidablePred NameOk := fun name => decidable_of_iff _ (nameOk_iff name).symm

/-- Byte length of a child's path below a directory whose own path has
length `base`; the root's path is empty. -/
def childLength (base : ℕ) (name : Text) : ℕ := if base=0 then len name else base+1+len name

/-- Byte length of the path reached along the given components. -/
def pathLength (base : ℕ) (path : List Text) : ℕ := path.foldl childLength base

mutual
/-- Well-formedness of a node whose own path has length `base`. -/
def WellFormed (base : ℕ) : FsNode → Prop
  | .file content => content.length ≤ maxFileSize
  | .dir children => (children.map Prod.fst).Nodup ∧ WellFormedAll base children
/-- Well-formedness of every entry of a directory. -/
def WellFormedAll (base : ℕ) : Children → Prop
  | [] => True
  | (name,child)::rest =>
    (NameOk name ∧ childLength base name≤pathMax ∧ WellFormed (childLength base name) child) ∧
      WellFormedAll base rest
end

mutual
/-- Well-formedness is decided along the tree. -/
def decideWellFormed (base : ℕ) : (node : FsNode) → Decidable (WellFormed base node)
  | .file content => inferInstanceAs (Decidable (content.length ≤ maxFileSize))
  | .dir children => @instDecidableAnd _ _ inferInstance (decideWellFormedAll base children)
/-- For every entry of a directory. -/
def decideWellFormedAll (base : ℕ) : (children : Children) → Decidable (WellFormedAll base children)
  | [] => isTrue trivial
  | (name,child)::rest =>
    @instDecidableAnd _ _ (@instDecidableAnd _ _ inferInstance (@instDecidableAnd _ _ inferInstance
      (decideWellFormed (childLength base name) child))) (decideWellFormedAll base rest)
end

instance (base : ℕ) : DecidablePred (WellFormed base) := decideWellFormed base

/-- What well-formedness asks of one entry. -/
def EntryOk (base : ℕ) (entry : Text×FsNode) : Prop :=
  NameOk entry.1 ∧ childLength base entry.1≤pathMax ∧ WellFormed (childLength base entry.1) entry.2

theorem wellFormedAll_iff (base : ℕ) (children : Children) :
    WellFormedAll base children ↔ ∀ entry∈children,EntryOk base entry := by
  induction children with
  | nil => simp [WellFormedAll]
  | cons entry rest ih =>
    obtain ⟨name,child⟩ := entry
    rw [WellFormedAll,ih,List.forall_mem_cons]
    rfl

/-- A directory is well formed exactly when its names are distinct and
its entries are in order. -/
theorem wellFormed_dir (base : ℕ) (children : Children) : WellFormed base (.dir children) ↔
      (children.map Prod.fst).Nodup ∧ ∀ entry∈children,EntryOk base entry := by
  rw [WellFormed,wellFormedAll_iff]

mutual
/-- Number of nodes strictly below a node. -/
def descendants : FsNode → ℕ
  | .file _ => 0
  | .dir children => population children
/-- Number of nodes in a list of entries, the entries included. -/
def population : Children → ℕ
  | [] => 0
  | (_,child)::rest => 1+descendants child+population rest
end

theorem population_append (first second : Children) :
    population (first++second)=population first+population second := by
  induction first with
  | nil => simp [population]
  | cons entry first ih =>
    obtain ⟨name,child⟩ := entry
    rw [List.cons_append,population,population,ih]
    omega

/-! ## One successful descent -/

variable {missing notDir : String} {name : Text} {children changed : Children}
  {path parent : List Text} {change : Children → Except String Children}
  {node result root : FsNode} {base : ℕ}

/-- A child is changed where it stands. -/
theorem modifyChild_split {step : FsNode → Except String FsNode}
    (hrun : modifyChild missing name step children=.ok changed) :
    ∃ front child later back,name∉front.map Prod.fst ∧ step child=.ok later ∧
      children=front++(name,child)::back ∧ changed=front++(name,later)::back := by
  induction children generalizing changed with
  | nil => cases hrun
  | cons entry rest ih =>
    obtain ⟨existing,child⟩ := entry
    by_cases hname : existing=name
    · rw [modifyChild,if_pos hname] at hrun
      obtain ⟨later,hlater,hsame⟩ := bind_ok_iff.mp hrun
      cases hsame
      exact ⟨[],child,later,rest,List.not_mem_nil,hlater,by rw [hname]; rfl,by rw [hname]; rfl⟩
    · rw [modifyChild,if_neg hname] at hrun
      obtain ⟨others,hothers,hsame⟩ := bind_ok_iff.mp hrun
      cases hsame
      obtain ⟨front,inner,later,back,hfront,hlater,rfl,rfl⟩ := ih hothers
      exact ⟨(existing,child)::front,inner,later,back,by simp [hfront,Ne.symm hname],hlater,rfl,rfl⟩

/-- A successful change of a directory: it was a directory and is one. -/
theorem onDir_ok (hrun : onDir notDir change node=.ok result) :
    ∃ children changed,node=.dir children ∧ change children=.ok changed ∧ result=.dir changed := by
  cases node with
  | file content => cases hrun
  | dir children =>
    obtain ⟨changed,hchanged,hsame⟩ := bind_ok_iff.mp hrun
    cases hsame
    exact ⟨children,changed,rfl,hchanged,rfl⟩

/-- A descent goes from a directory to a directory. -/
theorem modifyAt_dirs (hrun : modifyAt missing notDir path change node=.ok result) :
    ∃ children changed,node=.dir children ∧ result=.dir changed := by
  cases path <;> obtain ⟨children,changed,hold,-,hnew⟩ := onDir_ok hrun <;>
    exact ⟨children,changed,hold,hnew⟩

/-- The rule for successful descents: the changed directory, and each
directory on the way to it. -/
@[elab_as_elim]
theorem modifyAt_induct {motive : List Text → FsNode → FsNode → Prop}
    (hhere : ∀ children changed,change children=.ok changed →
      motive [] (.dir children) (.dir changed))
    (hbelow : ∀ part rest front old new back,part∉front.map Prod.fst →
      motive rest (.dir old) (.dir new) → motive (part::rest)
        (.dir (front++(part,.dir old)::back)) (.dir (front++(part,.dir new)::back)))
    (hrun : modifyAt missing notDir path change node=.ok result) : motive path node result := by
  induction path generalizing node result with
  | nil =>
    obtain ⟨children,changed,rfl,hchange,rfl⟩ := onDir_ok hrun
    exact hhere children changed hchange
  | cons part rest ih =>
    obtain ⟨children,changed,rfl,hchange,rfl⟩ := onDir_ok hrun
    obtain ⟨front,child,later,back,hfront,hlater,rfl,rfl⟩ := modifyChild_split hchange
    obtain ⟨old,new,rfl,rfl⟩ := modifyAt_dirs hlater
    exact hbelow part rest front old new back hfront (ih hlater)

/-- The first entry of a name is followed. -/
theorem entryAt_split {front : Children} (hfront : name∉front.map Prod.fst) (child : FsNode)
    (back : Children) (rest : List Text) :
    entryAt (.dir (front++(name,child)::back)) (name::rest)=entryAt child rest := by
  have hnone : (front.find? fun entry => entry.1==name)=none := by
    rw [List.find?_eq_none]
    exact fun entry hentry hsame => hfront (List.mem_map.mpr ⟨entry,hentry,by simpa using hsame⟩)
  rw [entryAt,findChild,List.find?_append,hnone,Option.none_or,List.find?_cons_of_pos (by simp)]
  rfl

/-- A path is followed from where its beginning leads. -/
theorem entryAt_append {first : List Text} (hfirst : entryAt root first=.ok node)
    (second : List Text) : entryAt root (first++second)=entryAt node second := by
  induction first generalizing root with
  | nil =>
    cases hfirst
    rfl
  | cons part rest ih =>
    obtain ⟨child,hchild,hrest⟩ := bind_ok_iff.mp hfirst
    rw [List.cons_append,entryAt,hchild]
    exact ih hrest

/-- A successful descent changes exactly the directory found at the path. -/
theorem modifyAt_spec (hrun : modifyAt missing notDir path change node=.ok result) :
    ∃ children changed,change children=.ok changed ∧
      (∀ rest,entryAt node (path++rest)=entryAt (.dir children) rest ∧
        entryAt result (path++rest)=entryAt (.dir changed) rest) ∧
      descendants result+population children=descendants node+population changed := by
  refine modifyAt_induct ?_ ?_ hrun
  · intro children changed hchange
    exact ⟨children,changed,hchange,fun rest => ⟨rfl,rfl⟩,Nat.add_comm _ _⟩
  · rintro part rest front old new back hfront ⟨children,changed,hchange,hseen,hcount⟩
    refine ⟨children,changed,hchange,fun below => ?_,?_⟩
    · rw [List.cons_append,entryAt_split hfront,entryAt_split hfront]
      exact hseen below
    · simp only [descendants,population_append,population] at hcount ⊢
      omega

/-- One entry of a directory is replaced by a legal one. -/
theorem wellFormed_replace {front back : Children} {child later : FsNode}
    (hdir : WellFormed base (.dir (front++(name,child)::back)))
    (hlater : EntryOk base (name,child) → EntryOk base (name,later)) :
    WellFormed base (.dir (front++(name,later)::back)) := by
  rw [wellFormed_dir] at hdir ⊢
  obtain ⟨hnames,hentries⟩ := hdir
  simp only [List.map_append,List.map_cons] at hnames ⊢
  refine ⟨hnames,fun entry hmem => ?_⟩
  rcases List.mem_append.mp hmem with hfront|hmem
  · exact hentries entry (List.mem_append_left _ hfront)
  rcases List.mem_cons.mp hmem with rfl|hback
  · exact hlater (hentries _ (List.mem_append_right _ List.mem_cons_self))
  · exact hentries entry (List.mem_append_right _ (List.mem_cons_of_mem _ hback))

/-- A descent whose change keeps its directory well formed keeps the whole
tree well formed. -/
theorem wellFormed_modifyAt (hrun : modifyAt missing notDir path change node=.ok result)
    (hnode : WellFormed base node)
    (hchange : ∀ children changed,WellFormed (pathLength base path) (.dir children) →
      change children=.ok changed → WellFormed (pathLength base path) (.dir changed)) :
    WellFormed base result := by
  refine modifyAt_induct (motive := fun path node result => ∀ base,WellFormed base node →
    (∀ children changed,WellFormed (pathLength base path) (.dir children) →
      change children=.ok changed → WellFormed (pathLength base path) (.dir changed)) →
    WellFormed base result) ?_ ?_ hrun base hnode hchange
  · exact fun children changed hstep base hdir hkeeps => hkeeps children changed hdir hstep
  · intro part rest front old new back _ ih base hdir hkeeps
    exact wellFormed_replace hdir fun ⟨hname,hlength,hold⟩ => ⟨hname,hlength,ih _ hold hkeeps⟩

/-! ## Changes of one directory -/

variable {taken : String} {bytes : List UInt8} {mutation : Mutation}

theorem pushChild_ok (hrun : pushChild taken name node children=.ok changed) :
    name∉children.map Prod.fst ∧ changed=children++[(name,node)] := by
  by_cases hname : name∈children.map Prod.fst
  · rw [pushChild_of_mem hname] at hrun
    cases hrun
  · rw [pushChild_of_notMem hname] at hrun
    cases hrun
    exact ⟨hname,rfl⟩

/-- Appending a legal entry keeps a directory well formed. -/
theorem wellFormed_pushChild (hentry : EntryOk base (name,node))
    (hdir : WellFormed base (.dir children)) (hrun : pushChild taken name node children=.ok changed) :
    WellFormed base (.dir changed) := by
  obtain ⟨hfresh,rfl⟩ := pushChild_ok hrun
  rw [wellFormed_dir] at hdir ⊢
  refine ⟨?_,?_⟩
  · rw [List.map_append,List.map_singleton]
    exact List.nodup_append.mpr ⟨hdir.1,List.nodup_singleton _,
      fun a ha b hb heq => hfresh (by
        have hname : b=name := List.mem_singleton.mp hb
        rwa [← hname,← heq])⟩
  · intro entry hmem
    rcases List.mem_append.mp hmem with hold|hnew
    · exact hdir.2 entry hold
    · rw [List.mem_singleton.mp hnew]
      exact hentry

/-- A write pushes a new file or replaces the contents of the first one. -/
theorem writeChild_split (hrun : writeChild name bytes children=.ok changed) :
    (name∉children.map Prod.fst ∧ changed=children++[(name,.file bytes)]) ∨
    ∃ front old back,children=front++(name,.file old)::back ∧ name∉front.map Prod.fst ∧
      changed=front++(name,.file bytes)::back := by
  induction children generalizing changed with
  | nil =>
    cases hrun
    exact Or.inl ⟨List.not_mem_nil,rfl⟩
  | cons entry rest ih =>
    obtain ⟨existing,child⟩ := entry
    by_cases hname : existing=name
    · subst hname
      simp only [writeChild,if_true] at hrun
      cases child with
      | dir grandchildren => cases hrun
      | file old =>
        cases hrun
        exact Or.inr ⟨[],old,rest,rfl,List.not_mem_nil,rfl⟩
    · simp only [writeChild,if_neg hname] at hrun
      obtain ⟨others,hothers,hsame⟩ := bind_ok_iff.mp hrun
      cases hsame
      rcases ih hothers with ⟨hfresh,rfl⟩|⟨front,old,back,rfl,hfront,rfl⟩
      · exact Or.inl ⟨by simp [hfresh,Ne.symm hname],rfl⟩
      · exact Or.inr ⟨(existing,child)::front,old,back,rfl,by simp [hfront,Ne.symm hname],rfl⟩

/-- Writing a file that fits keeps a directory well formed. -/
theorem wellFormed_writeChild (hentry : EntryOk base (name,.file bytes))
    (hdir : WellFormed base (.dir children)) (hrun : writeChild name bytes children=.ok changed) :
    WellFormed base (.dir changed) := by
  rcases writeChild_split hrun with ⟨hfresh,rfl⟩|⟨front,old,back,rfl,-,rfl⟩
  · exact wellFormed_pushChild hentry hdir
      (show pushChild "" name (.file bytes) children=_ from pushChild_of_notMem hfresh)
  · exact wellFormed_replace hdir fun _ => hentry

/-- Removal takes out the first entry of a name, which is not a directory
with children. -/
theorem removeChild_split (hrun : removeChild name children=.ok changed) :
    ∃ front node back,children=front++(name,node)::back ∧ name∉front.map Prod.fst ∧
      (∀ first rest,node≠.dir (first::rest)) ∧ changed=front++back := by
  rw [removeChild] at hrun
  split at hrun
  · cases hrun
  rename_i index hindex
  obtain ⟨hlength,hname,hbefore⟩ := List.findIdx?_eq_some_iff_getElem.mp hindex
  have hname : children[index].1=name := by simpa using hname
  split at hrun
  · cases hrun
  rename_i hnode
  cases hrun
  refine ⟨children.take index,children[index].2,children.drop (index+1),?_,fun hmem => ?_,
    fun first rest hdir => ?_,List.eraseIdx_eq_take_drop_succ children index⟩
  · rw [← hname,Prod.mk.eta,List.getElem_cons_drop,List.take_append_drop]
  · obtain ⟨entry,hentry,hsame⟩ := List.mem_map.mp hmem
    obtain ⟨position,hposition,rfl⟩ := List.mem_take_iff_getElem.mp hentry
    exact hbefore position (by omega) (by simpa using hsame)
  · refine hnode children[index].1 first rest ?_
    rw [List.getElem?_eq_getElem hlength,← hdir]

/-- Removing an entry keeps a directory well formed. -/
theorem wellFormed_removeChild (hdir : WellFormed base (.dir children))
    (hrun : removeChild name children=.ok changed) : WellFormed base (.dir changed) := by
  obtain ⟨front,node,back,rfl,-,-,rfl⟩ := removeChild_split hrun
  rw [wellFormed_dir] at hdir ⊢
  have hsub : (front++back).Sublist (front++(name,node)::back) :=
    (List.sublist_cons_self _ back).append_left front
  exact ⟨hdir.1.sublist (hsub.map Prod.fst),fun entry hmem => hdir.2 entry (hsub.subset hmem)⟩

/-! ## Mutations of the whole tree -/

/-- A root directory whose whole tree is well formed. -/
structure TreeOk (root : FsNode) : Prop where
  /-- The root is a directory. -/
  isDir : ∃ children,root=.dir children
  /-- Its own path is empty. -/
  wellFormed : WellFormed 0 root

/-- An absolute path whose components are legal and whose joined length
fits a record. -/
def LegalPath (path : Text) : Prop :=
  ∃ parts,splitAbsolutePath path=.ok parts ∧ (∀ part∈parts,NameOk part) ∧
    pathLength 0 parts≤pathMax

theorem pathLength_concat (base : ℕ) (path : List Text) (name : Text) :
    pathLength base (path++[name])=childLength (pathLength base path) name := by
  simp only [pathLength,List.foldl_append,List.foldl_cons,List.foldl_nil]

/-- Parent and name are the components of the path. -/
theorem parentAndName_ok {path : Text} (hrun : parentAndName path=.ok (parent,name)) :
    splitAbsolutePath path=.ok (parent++[name]) := by
  rcases hsplit : splitAbsolutePath path with reason|parts
  · simp only [parentAndName,hsplit] at hrun
    cases hrun
  · rcases hlast : parts.getLast? with _|last
    · simp only [parentAndName,hsplit,bind,Except.bind,hlast] at hrun
      cases hrun
    · simp only [parentAndName,hsplit,bind,Except.bind,hlast] at hrun
      cases hrun
      rw [List.dropLast_append_getLast? _ hlast]

/-- What a legal path says about the entry it names. -/
theorem LegalPath.entry {path : Text} (hlegal : LegalPath path)
    (hname : parentAndName path=.ok (parent,name)) :
    NameOk name ∧ childLength (pathLength 0 parent) name≤pathMax := by
  obtain ⟨parts,hsplit,hparts,hlength⟩ := hlegal
  rw [parentAndName_ok hname] at hsplit
  cases hsplit
  rw [pathLength_concat] at hlength
  exact ⟨hparts name (List.mem_append_right _ (List.mem_singleton.mpr rfl)),hlength⟩

/-- Whether a mutation that succeeds adds a node: creations do, a write
does when its path names nothing yet, a removal does not. -/
def grows (mutation : Mutation) (root : FsNode) : Bool :=
  match mutation with
  | .createFile _ => true
  | .createDir _ => true
  | .write path _ => !(kindAt root path).isOk
  | .remove _ => false

/-- Every mutation is a change of one directory: the parent of the named
entry. -/
theorem apply_ok (hrun : mutation.apply root=.ok result) :
    ∃ parent name,parentAndName mutation.path=.ok (parent,name) ∧
      ∃ change : Children → Except String Children,childrenAtMut parent change root=.ok result ∧
        ((∃ node,(node=.file [] ∨ node=.dir []) ∧ grows mutation root=true ∧
            change=pushChild "file or directory already exists" name node) ∨
          (∃ bytes : List UInt8,bytes.length ≤ maxFileSize ∧
            grows mutation root=!(kindAt root mutation.path).isOk ∧ change=writeChild name bytes) ∨
          change=removeChild name) := by
  cases mutation with
  | createFile path =>
    rcases hname : parentAndName path with reason|⟨parent,name⟩
    · simp only [Mutation.apply,createFileAt,hname] at hrun
      cases hrun
    · simp only [Mutation.apply,createFileAt,hname] at hrun
      exact ⟨parent,name,hname,_,hrun,Or.inl ⟨_,Or.inl rfl,rfl,rfl⟩⟩
  | createDir path =>
    rcases hname : parentAndName path with reason|⟨parent,name⟩
    · simp only [Mutation.apply,createDirAt,hname] at hrun
      cases hrun
    · simp only [Mutation.apply,createDirAt,hname] at hrun
      exact ⟨parent,name,hname,_,hrun,Or.inl ⟨_,Or.inr rfl,rfl,rfl⟩⟩
  | write path bytes =>
    by_cases hsize : bytes.length>maxFileSize
    · simp only [Mutation.apply,writeAt,if_pos hsize] at hrun
      cases hrun
    · rcases hname : parentAndName path with reason|⟨parent,name⟩
      · simp only [Mutation.apply,writeAt,if_neg hsize,hname] at hrun
        cases hrun
      · simp only [Mutation.apply,writeAt,if_neg hsize,hname] at hrun
        exact ⟨parent,name,hname,_,hrun,Or.inr (Or.inl ⟨bytes,by omega,rfl,rfl⟩)⟩
  | remove path =>
    rcases hname : parentAndName path with reason|⟨parent,name⟩
    · simp only [Mutation.apply,removeAt,hname] at hrun
      cases hrun
    · simp only [Mutation.apply,removeAt,hname] at hrun
      exact ⟨parent,name,hname,_,hrun,Or.inr (Or.inr rfl)⟩

/-- A mutation on a legal path keeps a well-formed tree well formed. -/
theorem apply_treeOk (hroot : TreeOk root) (hlegal : LegalPath mutation.path)
    (hrun : mutation.apply root=.ok result) : TreeOk result := by
  obtain ⟨parent,name,hname,change,hmodify,hkind⟩ := apply_ok hrun
  obtain ⟨hnameOk,hlength⟩ := hlegal.entry hname
  obtain ⟨-,later,-,hlater⟩ := modifyAt_dirs hmodify
  refine ⟨⟨later,hlater⟩,wellFormed_modifyAt hmodify hroot.wellFormed ?_⟩
  intro before after hbefore hafter
  rcases hkind with ⟨node,hnode,-,rfl⟩|⟨bytes,hbytes,-,rfl⟩|rfl
  · refine wellFormed_pushChild ⟨hnameOk,hlength,?_⟩ hbefore hafter
    rcases hnode with rfl|rfl
    · exact Nat.zero_le _
    · rw [wellFormed_dir]
      exact ⟨List.nodup_nil,fun entry hmem => absurd hmem List.not_mem_nil⟩
  · exact wellFormed_writeChild ⟨hnameOk,hlength,hbytes⟩ hbefore hafter
  · exact wellFormed_removeChild hbefore hafter

/-- The entry of a name is found in its parent. -/
theorem entryAt_concat (hparent : entryAt root parent=.ok (.dir children)) (name : Text) :
    entryAt root (parent++[name])=findChild (.dir children) name := by
  rw [entryAt_append hparent]
  change (findChild (.dir children) name>>=fun child => entryAt child [])=_
  cases findChild (.dir children) name <;> rfl

end TuwaiqOS.TreeInvariant
