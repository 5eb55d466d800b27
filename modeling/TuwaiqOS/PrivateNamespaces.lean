import TuwaiqOS.DataConfinement

/-!
# The private namespace of a process

`private_mutation_path` normalizes a path against the working directory and
compares the text with `/data/<name>`. For a canonical working directory the
comparison of texts is a comparison of components: a path is let through if
its components are `data`, the name and at least one more, and only then.
The namespaces of two names are disjoint, and the VFS is asked to mutate
nothing outside of the caller's.
-/

namespace TuwaiqOS.PrivateNamespaces

open Utf8Text VfsPath VfsMounts Scheduler DataConfinement

/-- A name that is one valid component. -/
structure ValidName (name : Text) : Prop where
  /-- It passes the check of components. -/
  valid : validateComponent name=.ok ()
  /-- It has no separator. -/
  noSlash : '/'∉name

/-- The paths that a process with this name may mutate. -/
def Private (name : Text) (allowDataRoot : Bool) (path : Text) : Prop :=
  (∃ first rest,parts path=dataDir name++first::rest) ∨
    allowDataRoot=true ∧ parts path=dataDir name

variable {name path absolute : Text} {allowDataRoot : Bool}

theorem ValidName.parts_dataRoot (hname : ValidName name) : parts (dataRoot name)=dataDir name :=
  DataConfinement.parts_dataRoot (validateComponent_ok hname.valid).1 hname.noSlash

/-! ## Texts and components -/

/-- The text of the data directory. -/
theorem dataRoot_eq (name : Text) : dataRoot name= '/'::joinSlash (dataDir name) := by
  rw [dataDir,joinSlash_cons (List.cons_ne_nil _ _),joinSlash_singleton]
  rfl

/-- A canonical path below the data directory, as text and as components. -/
theorem below_dataRoot_iff (hname : ValidName name) (hpath : Canonical path) :
    (∃ suffix,path=dataRoot name++ '/'::suffix) ↔
      ∃ first rest,parts path=dataDir name++first::rest := by
  have hroot := hname.parts_dataRoot
  have hbelow := @below_iff (dataRoot name) path (by rw [hroot]; exact dataRoot_eq name)
    (by rw [hroot]; exact List.cons_ne_nil _ _) hpath
  rw [hroot] at hbelow
  exact hbelow

theorem eq_dataRoot_iff (hname : ValidName name) (hpath : Canonical path) :
    path=dataRoot name ↔ parts path=dataDir name := by
  constructor
  · intro heq
    rw [heq]
    exact hname.parts_dataRoot
  · intro hparts
    have htext := hpath.text
    rw [hparts,← dataRoot_eq] at htext
    exact htext

/-- The comparison of texts decides whether a canonical path is private. -/
theorem private_iff (hname : ValidName name) (hpath : Canonical path) :
    (((path.dropPrefix? (dataRoot name)).any fun suffix => suffix.head?=some '/') ||
      (allowDataRoot && path=dataRoot name))=true ↔ Private name allowDataRoot path := by
  rw [Private,Bool.or_eq_true,Bool.and_eq_true,decide_eq_true_eq,dropPrefix_any_iff,
    below_dataRoot_iff hname hpath,eq_dataRoot_iff hname hpath]

/-- The data directory is a valid path if it is its own normal form, and only
then. -/
theorem normalize_dataRoot_iff (name : Text) :
    normalize ['/'] (dataRoot name)=.ok (dataRoot name) ↔ Canonical (dataRoot name) :=
  ⟨canonical_normalize canonical_root,normalize_canonical canonical_root⟩

/-- Different names have no path in common. -/
theorem private_disjoint {other : Text} (hother : other≠name) {allowed : Bool}
    (hpath : Private name allowDataRoot path) : ¬Private other allowed path := by
  have hsecond : ∀ {owner : Text} {allow : Bool},Private owner allow path →
      (parts path)[1]? = some owner := by
    rintro owner allow (⟨first,rest,hparts⟩|⟨-,hparts⟩) <;> rw [hparts] <;> rfl
  intro hboth
  have hsame := (hsecond hpath).symm.trans (hsecond hboth)
  exact hother (Option.some.inj hsame).symm

/-! ## The calls -/

variable {kernel : Kernel} {tcb : Tcb} {process : VmCalls.ProcessState}

section

variable (hcurrent : currentProcess kernel=some (tcb,process))
include hcurrent

theorem currentProcessName_eq
    (hname : ValidName tcb.name) : currentProcessName kernel=some tcb.name := by
  have hshort := (validateComponent_ok hname.valid).2.1
  rw [currentProcessName,hcurrent]
  exact if_neg (Nat.not_lt.mpr hshort)

theorem currentWorkingDirectory_eq
    (hcwd : Canonical process.cwd) : currentWorkingDirectory kernel=some process.cwd := by
  rw [currentWorkingDirectory,hcurrent]
  exact if_neg (Nat.not_lt.mpr hcwd.short)

/-- Which paths are let through. -/
theorem privateMutationPath_iff (hname : ValidName tcb.name) (hcwd : Canonical process.cwd) :
    privateMutationPath kernel path allowDataRoot=some absolute ↔
      normalize process.cwd path=.ok absolute ∧ Canonical (dataRoot tcb.name) ∧
        Private tcb.name allowDataRoot absolute := by
  rw [privateMutationPath,currentWorkingDirectory_eq hcurrent hcwd,
    currentProcessName_eq hcurrent hname]
  simp only [Option.bind_eq_bind,Option.bind_some]
  cases hnormal : normalize process.cwd path with
  | error reason =>
    refine iff_of_false (fun hsome => ?_) fun h => ?_
    · cases hsome
    · cases h.1
  | ok found =>
    have hfound : Canonical found := canonical_normalize hcwd hnormal
    change (if normalize ['/'] (dataRoot tcb.name)≠.ok (dataRoot tcb.name) then none
      else if _ then some found else none)=some absolute ↔ _
    rw [← normalize_dataRoot_iff]
    by_cases hroot : normalize ['/'] (dataRoot tcb.name)=.ok (dataRoot tcb.name)
    · rw [if_neg (not_not.mpr hroot)]
      have hiff := @private_iff _ _ allowDataRoot hname hfound
      by_cases hprivate : Private tcb.name allowDataRoot found
      · rw [if_pos (hiff.mpr hprivate)]
        constructor
        · intro hsome
          cases hsome
          exact ⟨rfl,hroot,hprivate⟩
        · rintro ⟨hsame,-,-⟩
          cases hsame
          rfl
      · rw [if_neg (mt hiff.mp hprivate)]
        refine iff_of_false (by simp) fun h => ?_
        obtain ⟨hsame,-,hthere⟩ := h
        cases hsame
        exact hprivate hthere
    · rw [if_pos hroot]
      exact iff_of_false (by simp) fun h => hroot h.2.1

end

/-- The mutation that a system call asks of the VFS, if it gets that far. -/
def mutator (system : System) : Call → Option VfsCall
  | .putFile path data _ => do
    let path ← copyUserPath path
    let bytes ← copyUserData data
    let absolute ← privateMutationPath system.kernel path false
    some (.writeFile ['/'] absolute bytes)
  | .remove path _ => do
    let path ← copyUserPath path
    let absolute ← privateMutationPath system.kernel path false
    some (.remove ['/'] absolute)
  | .mkdir path _ => do
    let path ← copyUserPath path
    let absolute ← privateMutationPath system.kernel path true
    some (.createDir ['/'] absolute)
  | _ => none

/-- `PUT_FILE`, `REMOVE` and `MKDIR`, with the outcome of persisting the
tree. -/
def persists : Call → Option (Except String Unit)
  | .putFile _ _ sync => some sync
  | .remove _ sync => some sync
  | .mkdir _ sync => some sync
  | _ => none

/-- These calls do what the VFS does with their mutation, and nothing
else. -/
theorem dispatch_mutator (system : System) {call : Call} {sync : Except String Unit}
    (hcall : persists call=some sync) :
    dispatch system call=returning system ((mutator system call).bind fun vfsCall =>
      (mutateFs system vfsCall sync).toOption) := by
  cases call with
  | chdir path => cases hcall
  | spawn path heap => cases hcall
  | putFile path data sync =>
    cases hcall
    rw [dispatch,sysPutFile,mutator]
    simp only [Option.bind_eq_bind,Option.bind_assoc,Option.bind_some]
  | remove path sync =>
    cases hcall
    rw [dispatch,sysRemove,mutator]
    simp only [Option.bind_eq_bind,Option.bind_assoc,Option.bind_some]
  | mkdir path sync =>
    cases hcall
    rw [dispatch,sysMkdir,mutator]
    simp only [Option.bind_eq_bind,Option.bind_assoc,Option.bind_some]

/-- The mutation has a private path. -/
theorem mutator_private {system : System} (hcurrent : currentProcess system.kernel=
      some (tcb,process)) (hname : ValidName tcb.name) (hcwd : Canonical process.cwd) {call : Call}
    {vfsCall : VfsCall} (hmutator : mutator system call=some vfsCall) :
    vfsCall.cwd=['/'] ∧ Canonical vfsCall.path ∧ Private tcb.name true vfsCall.path := by
  have hown : ∀ {path absolute : Text} {allowDataRoot : Bool},
      privateMutationPath system.kernel path allowDataRoot=some absolute →
        Canonical absolute ∧ Private tcb.name true absolute := by
    intro path absolute allowDataRoot hsome
    obtain ⟨hnormal,-,hprivate⟩ := (privateMutationPath_iff hcurrent hname hcwd).mp hsome
    exact ⟨canonical_normalize hcwd hnormal,hprivate.imp_right fun h => ⟨rfl,h.2⟩⟩
  cases call with
  | chdir path => cases hmutator
  | spawn path heap => cases hmutator
  | putFile path data sync =>
    obtain ⟨path,-,hrest⟩ := Option.bind_eq_some_iff.mp hmutator
    obtain ⟨bytes,-,hrest⟩ := Option.bind_eq_some_iff.mp hrest
    obtain ⟨absolute,habsolute,hmade⟩ := Option.bind_eq_some_iff.mp hrest
    cases hmade
    exact ⟨rfl,hown habsolute⟩
  | remove path sync =>
    obtain ⟨path,-,hrest⟩ := Option.bind_eq_some_iff.mp hmutator
    obtain ⟨absolute,habsolute,hmade⟩ := Option.bind_eq_some_iff.mp hrest
    cases hmade
    exact ⟨rfl,hown habsolute⟩
  | mkdir path sync =>
    obtain ⟨path,-,hrest⟩ := Option.bind_eq_some_iff.mp hmutator
    obtain ⟨absolute,habsolute,hmade⟩ := Option.bind_eq_some_iff.mp hrest
    cases hmade
    exact ⟨rfl,hown habsolute⟩

/-- The private namespace of a process is exact in its components. For a
process whose name is one valid component, and whose working directory is
canonical: a path is let through if its normal form is private and the data
directory is a valid path, and only then; no path is private for two names;
and `PUT_FILE`, `REMOVE` and `MKDIR` do nothing but ask the VFS for one
mutation with a private path that the VFS does not rewrite. -/
theorem private_namespace_exact (hcurrent : currentProcess kernel=some (tcb,process))
    (hname : ValidName tcb.name) (hcwd : Canonical process.cwd) :
    (∀ path allowDataRoot absolute,
      privateMutationPath kernel path allowDataRoot=some absolute ↔
        normalize process.cwd path=.ok absolute ∧ Canonical (dataRoot tcb.name) ∧
          Private tcb.name allowDataRoot absolute) ∧
    (∀ other≠tcb.name,∀ allowDataRoot allowed path,Private tcb.name allowDataRoot path →
      ¬Private other allowed path) ∧
    ∀ system call sync,system.kernel=kernel → persists call=some sync →
      dispatch system call=returning system ((mutator system call).bind fun vfsCall =>
        (mutateFs system vfsCall sync).toOption) ∧
      ∀ vfsCall,mutator system call=some vfsCall →
        normalize vfsCall.cwd vfsCall.path=.ok vfsCall.path ∧
          Private tcb.name true vfsCall.path := by
  refine ⟨fun path allowDataRoot absolute => privateMutationPath_iff hcurrent hname hcwd,
    fun other hother allowDataRoot allowed path => private_disjoint hother,
    fun system call sync hkernel hcall => ⟨dispatch_mutator system hcall,
      fun vfsCall hmutator => ?_⟩⟩
  rw [← hkernel] at hcurrent
  obtain ⟨hroot,hcanonical,hprivate⟩ := mutator_private hcurrent hname hcwd hmutator
  rw [hroot]
  exact ⟨normalize_canonical canonical_root hcanonical,hprivate⟩

/-- The process `a` at the root: a path that goes through the data of `b` and
back is let through, the data of `ab` is not. -/
theorem private_namespace_exact_detour :
    privateMutationPath firstProcess.kernel
        ['d','a','t','a','/','b','/','.','.','/','/','a','/','x'] false=
      some ['/','d','a','t','a','/','a','/','x'] ∧
    ∀ absolute,privateMutationPath firstProcess.kernel
      ['/','d','a','t','a','/','a','b','/','x'] true≠some absolute := by
  have hthere : ((currentProcess firstProcess.kernel).any fun current =>
      current.1.name=['a'] && current.2.cwd=['/'])=true := by decide +kernel
  obtain ⟨⟨tcb,process⟩,hcurrent,hsame⟩ := (Option.any_eq_true _ _).mp hthere
  rw [Bool.and_eq_true,decide_eq_true_eq,decide_eq_true_eq] at hsame
  obtain ⟨hname,hcwd⟩ := hsame
  dsimp only at hname hcwd
  have hvalid : ValidName tcb.name := by
    rw [hname]
    exact ⟨by decide,by decide⟩
  have hcanonical : Canonical process.cwd := by
    rw [hcwd]
    exact canonical_root
  obtain ⟨hiff,-,-⟩ := private_namespace_exact hcurrent hvalid hcanonical
  rw [hname,hcwd] at hiff
  refine ⟨(hiff _ _ _).mpr ⟨by decide,?_,Or.inl ⟨['x'],[],by decide⟩⟩,fun absolute hsome => ?_⟩
  · exact (normalize_dataRoot_iff ['a']).mp (by decide)
  · obtain ⟨hnormal,-,hprivate⟩ := (hiff _ _ _).mp hsome
    have hpath : normalize ['/'] ['/','d','a','t','a','/','a','b','/','x']=
      .ok ['/','d','a','t','a','/','a','b','/','x'] := by decide
    rw [hpath] at hnormal
    cases hnormal
    have hparts : parts ['/','d','a','t','a','/','a','b','/','x']=
      [['d','a','t','a'],['a','b'],['x']] := by decide
    rcases hprivate with ⟨first,rest,hsplit⟩|⟨-,hsplit⟩ <;> rw [hparts,dataDir] at hsplit <;>
      simp at hsplit

end TuwaiqOS.PrivateNamespaces
