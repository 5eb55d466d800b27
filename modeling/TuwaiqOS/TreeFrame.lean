import TuwaiqOS.TreeInvariant

/-!
# What a mutation leaves alone

A mutation replaces the list of children of one directory, where it touches
the entries of one name only. Every component path that is not at or below
the path of the mutation shows what it showed before: no node, a directory,
or a file with its contents.
-/

namespace TuwaiqOS.TreeFrame

open Utf8Text FsTree TreeInvariant

/-- What a node shows without its descendants: the contents of a file, and
nothing for a directory. -/
def shallow : FsNode → Option (List UInt8)
  | .file content => some content
  | .dir _ => none

/-- What is at a component path. -/
def look (root : FsNode) (path : List Text) : Except String (Option (List UInt8)) :=
  shallow<$>entryAt root path

/-- The first entry of a name. -/
def find (name : Text) (children : Children) : Option (Text×FsNode) :=
  children.find? fun entry => entry.1==name

theorem find_cons_self {name : Text} (child : FsNode) (rest : Children) :
    find name ((name,child)::rest)=some (name,child) :=
  List.find?_cons_of_pos (beq_iff_eq.mpr rfl)

variable {entry : Text×FsNode} {children : Children}

theorem find_cons_other {name : Text} (hname : entry.1≠name)
    (rest : Children) : find name (entry::rest)=find name rest := by
  rw [find,find,List.find?_cons_of_neg (by simpa using hname)]

/-- A change of a list of children that touches one name only. -/
def TouchesOnly (name : Text) (change : Children → Except String Children) : Prop :=
  ∀ children changed,change children=.ok changed →
    ∀ other,other≠name → find other changed=find other children

theorem find_none_iff {name : Text} : find name children=none ↔ name∉children.map Prod.fst := by
  rw [find,List.find?_eq_none]
  simp only [beq_iff_eq,List.mem_map,not_exists,not_and]

/-- The entry of a name is the first one. -/
theorem find_append {name : Text} {front back : Children} {node : FsNode}
    (hfront : name∉front.map Prod.fst) : find name (front++(name,node)::back)=some (name,node) := by
  have hnone := find_none_iff.mpr hfront
  rw [find] at hnone ⊢
  rw [List.find?_append,hnone,Option.none_or]
  exact find_cons_self node back

/-- Other names do not see the entry of a name. -/
theorem find_append_other {name other : Text} (hother : other≠name) (front back : Children)
    (node : FsNode) : find other (front++(name,node)::back)=find other (front++back) := by
  rw [find,find,List.find?_append,List.find?_append]
  exact congrArg _ (find_cons_other (Ne.symm hother) back)

/-- A list around the entry of a name. -/
theorem split_of_find {name : Text} (hfind : find name children=some entry) :
    ∃ front back,children=front++(name,entry.2)::back ∧ name∉front.map Prod.fst := by
  obtain ⟨hname,front,back,hsplit,hfront⟩ := List.find?_eq_some_iff_append.mp hfind
  refine ⟨front,back,?_,fun hmem => ?_⟩
  · rw [hsplit,← show entry.1=name by simpa using hname]
  · obtain ⟨other,hother,hname⟩ := List.mem_map.mp hmem
    have hnot := hfront other hother
    simp [hname] at hnot

theorem touchesOnly_pushChild (taken : String) (name : Text) (node : FsNode) :
    TouchesOnly name (pushChild taken name node) := by
  intro children changed hrun other hother
  obtain ⟨-,rfl⟩ := pushChild_ok hrun
  rw [find_append_other hother,List.append_nil]

theorem touchesOnly_writeChild (name : Text) (bytes : List UInt8) :
    TouchesOnly name (writeChild name bytes) := by
  intro children changed hrun other hother
  rcases writeChild_split hrun with ⟨-,rfl⟩|⟨front,old,back,rfl,-,rfl⟩
  · rw [find_append_other hother,List.append_nil]
  · rw [find_append_other hother,find_append_other hother]

theorem touchesOnly_removeChild (name : Text) : TouchesOnly name (removeChild name) := by
  intro children changed hrun other hother
  obtain ⟨front,node,back,rfl,-,-,rfl⟩ := removeChild_split hrun
  rw [find_append_other hother]

/-! ## Through a descent -/

theorem entryAt_dir_find (children : Children) (part : Text) (rest : List Text) :
    entryAt (.dir children) (part::rest)=match find part children with
      | none => .error "entry not found"
      | some entry => entryAt entry.2 rest := by
  rw [entryAt,findChild,find]
  cases children.find? fun entry => entry.1==part <;> rfl

section

variable {missing notDir : String} {parent path : List Text} {name : Text}
  {change : Children → Except String Children} {root result : FsNode}

/-- A path that does not lead through the changed entry finds what it found,
or a directory as before and after: the changed one, or one whose entries are
shown as they were. -/
theorem entryAt_off (htouches : TouchesOnly name change)
    (hrun : modifyAt missing notDir parent change root=.ok result)
    (hpath : ¬parent++[name]<+:path) : entryAt result path=entryAt root path ∨
      ∃ children changed,entryAt root path=.ok (.dir children) ∧
        entryAt result path=.ok (.dir changed) ∧ (path≠parent →
          changed.map Prod.fst=children.map Prod.fst ∧
          changed.map displayEntry=children.map displayEntry) := by
  refine modifyAt_induct (motive := fun parent root result => ∀ path,¬parent++[name]<+:path →
    entryAt result path=entryAt root path ∨ ∃ children changed,
      entryAt root path=.ok (.dir children) ∧ entryAt result path=.ok (.dir changed) ∧
      (path≠parent → changed.map Prod.fst=children.map Prod.fst ∧
        changed.map displayEntry=children.map displayEntry)) ?_ ?_ hrun path hpath
  · intro children changed hchange path hpath
    cases path with
    | nil => exact Or.inr ⟨children,changed,rfl,rfl,fun h => absurd rfl h⟩
    | cons part rest =>
      have hpart : part≠name := by
        rintro rfl
        exact hpath (List.prefix_append [part] rest)
      left
      rw [entryAt_dir_find,entryAt_dir_find,htouches children changed hchange part hpart]
  · intro part parent front old new back hfront ih path hpath
    cases path with
    | nil => exact Or.inr ⟨_,_,rfl,rfl,fun _ => ⟨by simp,by simp [displayEntry]⟩⟩
    | cons first rest =>
      by_cases hfirst : first=part
      · subst hfirst
        rw [entryAt_split hfront,entryAt_split hfront]
        refine (ih rest fun hbelow => hpath (List.cons_prefix_cons.mpr ⟨rfl,hbelow⟩)).imp_right ?_
        rintro ⟨children,changed,hold,hnew,hshown⟩
        exact ⟨children,changed,hold,hnew,fun hne => hshown fun hsame => hne (by rw [hsame])⟩
      · left
        rw [entryAt_dir_find,entryAt_dir_find,find_append_other hfirst,find_append_other hfirst]

/-- A change of the entry of one name in the directory at a path leaves all
paths alone that are not at or below this entry. -/
theorem look_modifyAt (htouches : TouchesOnly name change)
    (hrun : modifyAt missing notDir parent change root=.ok result)
    (hpath : ¬parent++[name]<+:path) : look result path=look root path := by
  rw [look,look]
  rcases entryAt_off htouches hrun hpath with hsame|⟨children,changed,hold,hnew,-⟩
  · rw [hsame]
  · rw [hold,hnew]
    rfl

/-- A descent succeeds exactly if it finds a directory that can be
changed. -/
theorem modifyAt_isOk_iff : (∃ result,modifyAt missing notDir parent change root=.ok result) ↔
    ∃ children changed,entryAt root parent=.ok (.dir children) ∧ change children=.ok changed := by
  constructor
  · rintro ⟨result,hrun⟩
    obtain ⟨children,changed,hchange,hseen,-⟩ := modifyAt_spec hrun
    have hentry := (hseen []).1
    rw [List.append_nil] at hentry
    exact ⟨children,changed,hentry,hchange⟩
  · rintro ⟨children,changed,hentry,hchange⟩
    induction parent generalizing root with
    | nil =>
      cases hentry
      rw [modifyAt,onDir,hchange]
      exact ⟨_,rfl⟩
    | cons first parent ih =>
      cases root with
      | file content => cases hentry
      | dir siblings =>
        rw [entryAt_dir_find] at hentry
        split at hentry
        · cases hentry
        rename_i entry hfind
        obtain ⟨later,hlater⟩ := ih hentry
        obtain ⟨front,back,rfl,hfront⟩ := split_of_find hfind
        rw [modifyAt,onDir,modifyChild_append_of_notMem missing hfront,modifyChild,if_pos rfl,hlater]
        exact ⟨_,rfl⟩

end

/-- A mutation leaves all paths alone that are not at or below its own. -/
theorem look_apply {mutation : Mutation} {root result : FsNode}
    (hrun : mutation.apply root=.ok result) {parts path : List Text}
    (hparts : splitAbsolutePath mutation.path=.ok parts) (hpath : ¬parts<+:path) :
    look result path=look root path := by
  obtain ⟨parent,name,hname,change,hmodify,hkind⟩ := apply_ok hrun
  rw [parentAndName_ok hname] at hparts
  cases hparts
  refine look_modifyAt ?_ hmodify hpath
  rcases hkind with ⟨node,-,-,rfl⟩|⟨bytes,-,-,rfl⟩|rfl
  · exact touchesOnly_pushChild _ name node
  · exact touchesOnly_writeChild name bytes
  · exact touchesOnly_removeChild name

end TuwaiqOS.TreeFrame
