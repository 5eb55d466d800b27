import TuwaiqOS.TreeCodec

/-!
# VFS path normalization

`normalize` resolves an input against a working directory by folding its
components over a text. The fold keeps an absolute text without control
bytes or backslashes, of bounded length, whose non-empty components are
valid. Such a path is legal for the backend: its records fit the on-disk
format.
-/

namespace TuwaiqOS.VfsPath

open Utf8Text FallibleSteps TreeInvariant TreeCodec

/-- `validate_component`. -/
def validateComponent (component : Text) : Except String Unit :=
  if component.isEmpty || len component>nameMax then .error "invalid path component length"
  else if component=['.'] ∨ component=['.','.'] then .error "reserved path component"
  else .ok ()

/-- The text before the last separator; empty if there is none. -/
def textBeforeSlash (path : Text) : Text := (path.reverse.dropWhile (·≠ '/')).tail.reverse

/-- Drop the last component: `truncate(rfind('/').unwrap_or(0).max(1))`. -/
def truncateLast (path : Text) : Text :=
  let before := textBeforeSlash path
  if before.isEmpty then path.take 1 else before

/-- One round of the component loop of `normalize`. -/
def normalizeStep (normalized component : Text) : Except String Text :=
  if component=[] ∨ component=['.'] then .ok normalized
  else if component=['.','.'] then
    .ok (if len normalized>1 then truncateLast normalized else normalized)
  else do
    validateComponent component
    let separatorLen := if normalized≠['/'] then 1 else 0
    if len normalized+separatorLen+len component>pathMax then .error "path too long"
    else pure (normalized++(if separatorLen≠0 then ['/'] else [])++component)

/-- What `normalize` starts from: the root, or the checked working
directory when the input is relative. -/
def normalizeStart (cwd input : Text) : Except String Text :=
  if input.head?=some '/' then .ok ['/']
  else if cwd.contains '\\' || hasControlByte cwd || (cwd.getLast?==some '/' && cwd≠['/']) then
    .error "invalid working directory"
  else do
    ((cwd.splitOn '/').filter fun part => !part.isEmpty).forM validateComponent
    pure cwd

/-- `normalize`. -/
def normalize (cwd input : Text) : Except String Text :=
  if input.isEmpty then .error "path required"
  else if cwd.head?≠some '/' ∨ len cwd>pathMax then .error "invalid working directory"
  else if input.contains '\\' || hasControlByte input then .error "invalid path character"
  else do
    let start ← normalizeStart cwd input
    (input.splitOn '/').foldlM normalizeStep start

/-- `basename`: the last non-empty component. -/
def basename (path : Text) : Text :=
  ((path.splitOn '/').reverse.find? fun part => !part.isEmpty).getD
    ['p','r','o','c','e','s','s']

example : normalize ['/','h','/','u'] ['.','.','/','b','/','.','/','t']=
    .ok ['/','h','/','b','/','t'] := by decide

example : normalize ['/'] ['/','/','a','/','/','/','h']=.ok ['/','a','/','h'] := by decide

/-- A path the VFS hands to the backend. -/
def Normalized (path : Text) : Prop := ∃ cwd input,normalize cwd input=.ok path

/-! ## Components -/

/-- The non-empty components of a text. -/
def parts (path : Text) : List Text := (path.splitOn '/').filter fun part => !part.isEmpty

/-- A separator joins the components of its two sides. -/
theorem parts_append_slash (first second : Text) :
    parts (first++ '/'::second)=parts first++parts second := by
  rw [parts,List.splitOn_append_cons_self,List.filter_append]
  rfl

variable {part component path result start cwd : Text} {components : List Text}

/-- A text without separator is its own only component. -/
theorem parts_of_noSlash (hslash : '/'∉part) : parts part=if part.isEmpty then [] else [part] := by
  have hsplit := splitOn_joinSlash (List.cons_ne_nil part []) (by simpa using hslash)
  rw [joinSlash_singleton] at hsplit
  rw [parts,hsplit]
  cases part <;> rfl

/-- What the component loop keeps. -/
structure Clean (path : Text) : Prop where
  /-- The text is absolute. -/
  absolute : path.head?=some '/'
  /-- It fits the path limit. -/
  short : len path≤pathMax
  /-- It contains no backslash. -/
  noBackslash : '\\'∉path
  /-- It contains no control byte. -/
  noControl : hasControlByte path=false
  /-- Its components are valid. -/
  valid : ∀ part∈parts path,validateComponent part=.ok ()

theorem validateComponent_ok (hvalid : validateComponent component=.ok ()) :
    component≠[] ∧ len component≤nameMax ∧ component≠['.'] ∧ component≠['.','.'] := by
  rw [validateComponent] at hvalid
  split at hvalid
  · cases hvalid
  · split at hvalid
    · cases hvalid
    · rename_i hlength hreserved
      simp only [Bool.or_eq_true,not_or,decide_eq_true_eq,List.isEmpty_iff] at hlength
      exact ⟨hlength.1,not_lt.mp hlength.2,fun h => hreserved (Or.inl h),
        fun h => hreserved (Or.inr h)⟩

/-! ## The loop keeps clean paths -/

/-- A text with a separator is split by its last one. -/
theorem textBeforeSlash_spec (hslash : '/'∈path) :
    ∃ last,'/'∉last ∧ path=textBeforeSlash path++ '/'::last := by
  obtain ⟨after,before,hreverse,hafter⟩ :=
    List.eq_append_cons_of_mem (List.mem_reverse.mpr hslash)
  have hdrop : path.reverse.dropWhile (·≠ '/')= '/'::before := by
    rw [hreverse,List.dropWhile_append_of_pos]
    · rfl
    · intro char hchar
      simpa using fun heq : char= '/' => hafter (heq▸hchar)
  refine ⟨after.reverse,by simpa using hafter,?_⟩
  rw [textBeforeSlash,hdrop,List.tail_cons]
  simpa using congrArg List.reverse hreverse

theorem clean_root : Clean ['/'] := by
  constructor <;> decide

/-- An absolute text contains a separator. -/
theorem Clean.slash_mem (hclean : Clean path) : '/'∈path :=
  List.mem_of_head? hclean.absolute

/-- Dropping the last component keeps a path clean. -/
theorem clean_truncateLast (hclean : Clean path) : Clean (truncateLast path) := by
  obtain ⟨last,-,hpath⟩ := textBeforeSlash_spec hclean.slash_mem
  rw [truncateLast]
  split
  · have hroot : path.take 1=['/'] := by
      obtain ⟨rest,hrest⟩ := List.head?_eq_some_iff.mp hclean.absolute
      rw [hrest]
      rfl
    rw [hroot]
    exact clean_root
  · rename_i hbefore
    have hne : textBeforeSlash path≠[] := by simpa using hbefore
    have habsolute := hclean.absolute
    have hshort := hclean.short
    have hback := hclean.noBackslash
    have hcontrol := hclean.noControl
    have hvalid := hclean.valid
    rw [hpath] at habsolute hshort hback hcontrol hvalid
    rw [List.head?_append_of_ne_nil _ hne] at habsolute
    rw [len_append] at hshort
    rw [hasControlByte_append,Bool.or_eq_false_iff] at hcontrol
    rw [parts_append_slash] at hvalid
    exact ⟨habsolute,by omega,fun hmem => hback (List.mem_append_left _ hmem),hcontrol.1,
      fun part hpart => hvalid part (List.mem_append_left _ hpart)⟩

/-- A piece of an accepted input. -/
structure PieceOk (component : Text) : Prop where
  /-- It contains no separator. -/
  noSlash : '/'∉component
  /-- It contains no backslash. -/
  noBackslash : '\\'∉component
  /-- It contains no control byte. -/
  noControl : hasControlByte component=false

/-- What stands before the separator of a new component. -/
def beforePush (path : Text) : Text := if path=['/'] then [] else path

/-- A valid component is pushed. At the root the separator is already there. -/
theorem normalizeStep_valid (hvalid : validateComponent component=.ok ()) (path : Text) :
    normalizeStep path component=
      if len (beforePush path++ '/'::component)>pathMax then .error "path too long"
      else .ok (beforePush path++ '/'::component) := by
  obtain ⟨hempty,-,hdot,hdots⟩ := validateComponent_ok hvalid
  rw [normalizeStep,if_neg (not_or.mpr ⟨hempty,hdot⟩),if_neg hdots,hvalid,len_append,
    len_slash_cons,beforePush,Nat.add_comm (len component),← Nat.add_assoc]
  change (if _ then _ else _)=_
  by_cases hroot : path=['/']
  · subst hroot
    rfl
  · simp only [ne_eq,hroot,not_false_eq_true,if_true,one_ne_zero,if_false,List.append_assoc,
      List.singleton_append]
    rfl

/-- What one round of the loop does. -/
theorem normalizeStep_cases (hstep : normalizeStep path component=.ok result) :
    (result=path ∨ 1<len path ∧ result=truncateLast path) ∨
      validateComponent component=.ok () ∧ len result≤pathMax ∧
        result=beforePush path++ '/'::component := by
  by_cases hvalid : validateComponent component=.ok ()
  · rw [normalizeStep_valid hvalid] at hstep
    split at hstep <;> cases hstep
    rename_i hfits
    exact Or.inr ⟨hvalid,not_lt.mp hfits,rfl⟩
  rw [normalizeStep] at hstep
  split at hstep
  · cases hstep
    exact Or.inl (Or.inl rfl)
  split at hstep
  · cases hstep
    split
    · rename_i hlong
      exact Or.inl (Or.inr ⟨hlong,rfl⟩)
    · exact Or.inl (Or.inl rfl)
  · obtain ⟨_,hok,-⟩ := bind_ok_iff.mp hstep
    exact absurd hok hvalid

/-- A valid component is appended to the components. -/
theorem parts_normalizeStep (hslash : '/'∉component) (hvalid : validateComponent component=.ok ())
    (hstep : normalizeStep path component=.ok result) : parts result=parts path++[component] := by
  have hown : parts component=[component] := by
    rw [parts_of_noSlash hslash,if_neg (by simpa using (validateComponent_ok hvalid).1)]
  rw [normalizeStep_valid hvalid] at hstep
  split at hstep <;> cases hstep
  rw [parts_append_slash,hown,beforePush]
  split
  · rename_i hroot
    rw [hroot]
    rfl
  · rfl

/-- One round of the loop keeps a path clean. -/
theorem clean_normalizeStep (hclean : Clean path) (hpiece : PieceOk component)
    (hstep : normalizeStep path component=.ok result) : Clean result := by
  rcases normalizeStep_cases hstep with (rfl|⟨-,rfl⟩)|⟨hvalid,hshort,hpush⟩
  · exact hclean
  · exact clean_truncateLast hclean
  · have hparts := parts_normalizeStep hpiece.noSlash hvalid hstep
    have htext : result.head?=some '/' ∧ '\\'∉result ∧ hasControlByte result=false := by
      have hcontrol := hpiece.noControl
      rw [hpush,beforePush]
      split
      · rw [List.nil_append,hasControlByte_slash_cons]
        exact ⟨rfl,by simpa using hpiece.noBackslash,hcontrol⟩
      · rw [List.head?_append_of_ne_nil _ (List.ne_nil_of_mem hclean.slash_mem),
          hasControlByte_append,hasControlByte_slash_cons,hclean.noControl,hcontrol]
        exact ⟨hclean.absolute,by simp [hclean.noBackslash,hpiece.noBackslash],rfl⟩
    refine ⟨htext.1,hshort,htext.2.1,htext.2.2,fun part hpart => ?_⟩
    rw [hparts] at hpart
    rcases List.mem_append.mp hpart with hold|hnew
    · exact hclean.valid part hold
    · rw [List.mem_singleton.mp hnew]
      exact hvalid

/-- The whole loop keeps what one round keeps. -/
theorem foldlM_keeps {P : Text → Prop} (hpieces : ∀ component∈components,PieceOk component)
    (hkeeps : ∀ {path component result},P path → PieceOk component →
      normalizeStep path component=.ok result → P result) (hstart : P start)
    (hfold : components.foldlM normalizeStep start=.ok result) : P result := by
  induction components generalizing start with
  | nil =>
    cases hfold
    exact hstart
  | cons component rest ih =>
    rw [List.foldlM_cons] at hfold
    obtain ⟨next,hstep,hrest⟩ := bind_ok_iff.mp hfold
    exact ih (fun part hpart => hpieces part (List.mem_cons_of_mem _ hpart))
      (hkeeps hstart (hpieces component List.mem_cons_self) hstep) hrest

/-- The pieces of an accepted input. -/
theorem pieceOk_of_mem {input : Text} (hback : '\\'∉input) (hcontrol : hasControlByte input=false)
    (hmem : component∈input.splitOn '/') : PieceOk component := by
  have hjoin := joinSlash_splitOn input
  refine ⟨slash_notMem_splitOn hmem,fun hchar => hback ?_,?_⟩
  · rw [← hjoin,mem_joinSlash (by decide)]
    exact ⟨component,hmem,hchar⟩
  · exact hasControlByte_of_mem_joinSlash (by rwa [hjoin]) hmem

/-- What an accepted input has passed. -/
theorem normalize_ok {input : Text} (hrun : normalize cwd input=.ok result) :
    (input≠[] ∧ '\\'∉input ∧ hasControlByte input=false) ∧
      (cwd.head?=some '/' ∧ len cwd≤pathMax) ∧ ∃ start,normalizeStart cwd input=.ok start ∧
        (input.splitOn '/').foldlM normalizeStep start=.ok result := by
  rw [normalize] at hrun
  iterate 3 (split at hrun; · cases hrun)
  rename_i hempty hcwd hinput
  simp only [not_or,not_not,not_lt,gt_iff_lt] at hcwd
  simp only [Bool.or_eq_true,not_or,List.contains_eq_mem,decide_eq_true_eq,
    Bool.not_eq_true] at hinput
  exact ⟨⟨by simpa using hempty,hinput⟩,hcwd,bind_ok_iff.mp hrun⟩

/-- Every normalized path is clean. -/
theorem Normalized.clean (hpath : Normalized path) : Clean path := by
  obtain ⟨cwd,input,hrun⟩ := hpath
  obtain ⟨⟨-,hback,hcontrol⟩,hcwd,start,hstart,hfold⟩ := normalize_ok hrun
  refine foldlM_keeps (fun _ hmem => pieceOk_of_mem hback hcontrol hmem) clean_normalizeStep ?_
    hfold
  rw [normalizeStart] at hstart
  split at hstart
  · cases hstart
    exact clean_root
  split at hstart
  · cases hstart
  rename_i hchecks
  obtain ⟨_,hvalid,hsame⟩ := bind_ok_iff.mp hstart
  cases hsame
  simp only [Bool.or_eq_true,not_or,List.contains_eq_mem,decide_eq_true_eq,
    Bool.not_eq_true] at hchecks
  exact ⟨hcwd.1,hcwd.2,hchecks.1.1,hchecks.1.2,forM_ok_iff.mp hvalid⟩

/-! ## Components of a normalized path -/

theorem parts_foldlM (hpieces : ∀ component∈components,'/'∉component)
    (hvalid : ∀ component∈components,component≠[] → validateComponent component=.ok ())
    (hfold : components.foldlM normalizeStep start=.ok result) :
    parts result=parts start++components.filter fun part => !part.isEmpty := by
  induction components generalizing start with
  | nil =>
    cases hfold
    exact (List.append_nil _).symm
  | cons component rest ih =>
    rw [List.foldlM_cons] at hfold
    obtain ⟨next,hstep,hrest⟩ := bind_ok_iff.mp hfold
    have hlater := ih (fun part hpart => hpieces part (.tail _ hpart))
      (fun part hpart => hvalid part (.tail _ hpart)) hrest
    by_cases hempty : component=[]
    · rw [hempty,normalizeStep,if_pos (.inl rfl)] at hstep
      cases hstep
      rw [hlater,hempty]
      rfl
    · rw [hlater,parts_normalizeStep (hpieces component (.head _))
        (hvalid component (.head _) hempty) hstep,
        List.filter_cons_of_pos (by simpa using hempty),List.append_assoc]
      rfl

/-- Normalizing an absolute path again keeps its components. -/
theorem parts_normalize (hclean : Clean path) (hrun : normalize cwd path=.ok result) :
    parts result=parts path := by
  obtain ⟨-,-,start,hstart,hfold⟩ := normalize_ok hrun
  rw [normalizeStart,if_pos hclean.absolute] at hstart
  cases hstart
  have hparts := parts_foldlM (fun part hpart => slash_notMem_splitOn hpart)
    (fun part hpart hne => hclean.valid part (List.mem_filter.mpr ⟨hpart,by simpa using hne⟩)) hfold
  have hroot : parts ['/']=[] := by decide
  rw [hroot,List.nil_append] at hparts
  exact hparts

/-- Leaving out empty components does not lengthen a joined path. -/
theorem len_joinSlash_filter (components : List Text) :
    len (joinSlash (components.filter fun part => !part.isEmpty))≤len (joinSlash components) := by
  induction components with
  | nil => exact le_rfl
  | cons first rest ih =>
    by_cases hrest : rest=[]
    · subst hrest
      cases first <;> simp
    · rw [joinSlash_cons hrest,len_append,len_slash_cons,List.filter_cons]
      cases first with
      | nil =>
        simp only [List.isEmpty_nil,Bool.not_true,Bool.false_eq_true,if_false,len_nil]
        omega
      | cons char later =>
        simp only [List.isEmpty_cons,Bool.not_false,if_true]
        by_cases hkept : rest.filter (fun part => !part.isEmpty)=[]
        · rw [hkept,joinSlash_singleton]
          omega
        · rw [joinSlash_cons hkept,len_append,len_slash_cons]
          omega

/-- The backend accepts every clean path as legal. -/
theorem Clean.legal (hclean : Clean path) : LegalPath path := by
  have hnames : ∀ part∈parts path,NameOk part := by
    intro part hpart
    obtain ⟨hne,hshort,hdot,hdots⟩ := validateComponent_ok (hclean.valid part hpart)
    have hpiece := pieceOk_of_mem hclean.noBackslash hclean.noControl (List.mem_filter.mp hpart).1
    exact ⟨hne,hshort,hdot,hdots,hpiece.noSlash,hpiece.noBackslash,hpiece.noControl⟩
  refine ⟨parts path,if_pos hclean.absolute,hnames,?_⟩
  have hlength := len_joinSlash_filter (path.splitOn '/')
  rw [joinSlash_splitOn] at hlength
  rw [pathLength_eq_len hnames]
  exact le_trans hlength hclean.short

/-! ## Canonical paths -/

/-- A path that is written as its components, each after one separator. -/
structure Canonical (path : Text) : Prop extends Clean path where
  /-- The text is given by the components. -/
  text : path= '/'::joinSlash (parts path)

theorem canonical_root : Canonical ['/'] := ⟨clean_root,by decide⟩

/-- The components of a text have no separator. -/
theorem slash_notMem_parts (hpart : part∈parts path) : '/'∉part :=
  slash_notMem_splitOn (List.mem_filter.mp hpart).1

theorem ne_nil_of_mem_parts (hpart : part∈parts path) : part≠[] := by
  simpa using (List.mem_filter.mp hpart).2

/-- The components of a text that is made of components. -/
theorem parts_slash_joinSlash (hne : ∀ part∈components,part≠[])
    (hslash : ∀ part∈components,'/'∉part) : parts ('/'::joinSlash components)=components := by
  by_cases hempty : components=[]
  · subst hempty
    decide
  · have hjoin := parts_append_slash [] (joinSlash components)
    have hown : parts (joinSlash components)=components := by
      rw [parts,splitOn_joinSlash hempty hslash]
      refine List.filter_eq_self.mpr fun part hpart => ?_
      simpa using hne part hpart
    rw [hown] at hjoin
    exact hjoin

/-- What stands before the last separator. -/
theorem textBeforeSlash_append (before : Text) {last : Text} (hlast : '/'∉last) :
    textBeforeSlash (before++ '/'::last)=before := by
  have hreverse : (before++ '/'::last).reverse=last.reverse++ '/'::before.reverse := by simp
  rw [textBeforeSlash,hreverse,List.dropWhile_append_of_pos]
  · simp
  · intro char hchar
    simpa using fun heq : char= '/' => hlast (heq▸List.mem_reverse.mp hchar)

/-- Appending a component to a canonical text. -/
theorem slash_joinSlash_concat (components : List Text) (component : Text) :
    '/'::joinSlash (components++[component])=
      if components=[] then '/'::component else '/'::joinSlash components++ '/'::component := by
  split
  · rename_i hempty
    rw [hempty,List.nil_append,joinSlash_singleton]
  · rename_i hne
    rw [joinSlash_concat hne,List.cons_append]

section

variable (hpath : Canonical path)
include hpath

/-- Dropping the last component of the text drops it from the list. -/
theorem truncateLast_eq (hlong : 1<len path) :
    truncateLast path= '/'::joinSlash (parts path).dropLast := by
  rcases List.eq_nil_or_concat' (parts path) with hempty|⟨front,last,hparts⟩
  · have htext := hpath.text
    rw [hempty] at htext
    rw [htext] at hlong
    exact absurd hlong (by decide)
  have hlast : '/'∉last := slash_notMem_parts (show last∈parts path by rw [hparts]; simp)
  have htext := hpath.text
  rw [hparts,slash_joinSlash_concat] at htext
  have hbefore : textBeforeSlash path=if front=[] then [] else '/'::joinSlash front := by
    rw [htext]
    split
    · exact textBeforeSlash_append [] hlast
    · exact textBeforeSlash_append _ hlast
  rw [truncateLast,hbefore,hparts,List.dropLast_concat]
  by_cases hfront : front=[]
  · have htake : path.take 1=['/'] := by
      rw [htext,if_pos hfront]
      rfl
    rw [if_pos hfront,if_pos List.isEmpty_nil,htake,hfront,joinSlash_nil]
  · rw [if_neg hfront,if_neg (by simp)]

/-- The components that are left. -/
theorem parts_truncateLast (hlong : 1<len path) :
    parts (truncateLast path)=(parts path).dropLast := by
  rw [truncateLast_eq hpath hlong]
  refine parts_slash_joinSlash (fun part hpart => ?_) fun part hpart => ?_
  · exact ne_nil_of_mem_parts (List.dropLast_subset _ hpart)
  · exact slash_notMem_parts (List.dropLast_subset _ hpart)

/-- Dropping the last component. -/
theorem canonical_truncateLast (hlong : 1<len path) : Canonical (truncateLast path) := by
  refine ⟨clean_truncateLast hpath.toClean,?_⟩
  rw [parts_truncateLast hpath hlong]
  exact truncateLast_eq hpath hlong

/-- One round of the loop keeps a path canonical. -/
theorem canonical_normalizeStep (hpiece : PieceOk component)
    (hstep : normalizeStep path component=.ok result) : Canonical result := by
  refine ⟨clean_normalizeStep hpath.toClean hpiece hstep,?_⟩
  have htext := hpath.text
  rcases normalizeStep_cases hstep with (rfl|⟨hlong,rfl⟩)|⟨hvalid,-,hpush⟩
  · exact htext
  · exact (canonical_truncateLast hpath hlong).text
  · rw [parts_normalizeStep hpiece.noSlash hvalid hstep,slash_joinSlash_concat,hpush,beforePush]
    by_cases hroot : path=['/']
    · subst hroot
      rfl
    · have hsome : parts path≠[] := by
        intro hempty
        rw [hempty] at htext
        exact hroot htext
      rw [if_neg hroot,if_neg hsome,← htext]

end

/-- Resolving against a canonical directory gives a canonical path. -/
theorem canonical_normalize {input : Text} (hcwd : Canonical cwd)
    (hrun : normalize cwd input=.ok result) : Canonical result := by
  obtain ⟨⟨-,hback,hcontrol⟩,-,start,hstart,hfold⟩ := normalize_ok hrun
  refine foldlM_keeps (fun _ hmem => pieceOk_of_mem hback hcontrol hmem) canonical_normalizeStep ?_
    hfold
  rw [normalizeStart] at hstart
  split at hstart
  · cases hstart
    exact canonical_root
  split at hstart
  · cases hstart
  obtain ⟨_,-,hsame⟩ := bind_ok_iff.mp hstart
  cases hsame
  exact hcwd

/-- A valid component is pushed as long as the path limit allows it. -/
theorem normalizeStep_push {front : List Text} (hvalid : validateComponent component=.ok ())
    (hne : ∀ part∈front,part≠[]) (hfits : len ('/'::joinSlash (front++[component]))≤pathMax) :
    normalizeStep ('/'::joinSlash front) component=.ok ('/'::joinSlash (front++[component])) := by
  have hroot : '/'::joinSlash front=['/'] ↔ front=[] := by
    constructor
    · intro hsame
      cases front with
      | nil => rfl
      | cons first rest =>
        have hnil : joinSlash (first::rest)=[] := (List.cons.inj hsame).2
        by_cases hrest : rest=[]
        · rw [hrest,joinSlash_singleton] at hnil
          exact absurd hnil (hne first List.mem_cons_self)
        · rw [joinSlash_cons hrest] at hnil
          exact absurd hnil (by simp)
    · rintro rfl
      rfl
  have hpushed : beforePush ('/'::joinSlash front)++ '/'::component=
      '/'::joinSlash (front++[component]) := by
    rw [slash_joinSlash_concat,beforePush]
    by_cases hfront : front=[]
    · rw [if_pos (hroot.mpr hfront),if_pos hfront]
      rfl
    · rw [if_neg (mt hroot.mp hfront),if_neg hfront]
  rw [normalizeStep_valid hvalid,hpushed,if_neg (not_lt.mpr hfits)]

/-- Pushing the components of a path one after another. -/
theorem foldlM_normalizeStep {front components : List Text}
    (hvalid : ∀ part∈components,validateComponent part=.ok ()) (hne : ∀ part∈front,part≠[])
    (hfits : len ('/'::joinSlash (front++components))≤pathMax) :
    components.foldlM normalizeStep ('/'::joinSlash front)=
      .ok ('/'::joinSlash (front++components)) := by
  induction components generalizing front with
  | nil =>
    rw [List.append_nil]
    rfl
  | cons component rest ih =>
    obtain ⟨hfirst,hrest⟩ := List.forall_mem_cons.mp hvalid
    rw [List.append_cons] at hfits ⊢
    have hshorter : len ('/'::joinSlash (front++[component]))≤
        len ('/'::joinSlash (front++[component]++rest)) := by
      by_cases hempty : rest=[]
      · rw [hempty,List.append_nil]
      · rw [joinSlash_append (by simp) hempty,len_slash_cons,len_slash_cons,len_append]
        omega
    rw [List.foldlM_cons,normalizeStep_push hfirst hne (hshorter.trans hfits)]
    refine ih hrest (fun part hpart => ?_) hfits
    rcases List.mem_append.mp hpart with hold|hnew
    · exact hne part hold
    · rw [List.mem_singleton.mp hnew]
      exact (validateComponent_ok hfirst).1

/-- A canonical path is its own normal form. -/
theorem normalize_canonical (hcwd : Canonical cwd) (hpath : Canonical path) :
    normalize cwd path=.ok path := by
  have hsplit : path.splitOn '/'=[]::(joinSlash (parts path)).splitOn '/' := by
    have happend : (([] : Text)++ '/'::joinSlash (parts path)).splitOn '/'=_ :=
      List.splitOn_append_cons_self [] (joinSlash (parts path))
    rw [List.nil_append,← hpath.text] at happend
    exact happend
  have hstart : normalizeStart cwd path=.ok ['/'] := by rw [normalizeStart,if_pos hpath.absolute]
  have hpush := @foldlM_normalizeStep [] (parts path) hpath.valid (by simp)
    (by rw [List.nil_append,← hpath.text]; exact hpath.short)
  rw [List.nil_append,joinSlash_nil,← hpath.text] at hpush
  rw [normalize,if_neg,if_neg,if_neg,hstart]
  · change (path.splitOn '/').foldlM normalizeStep ['/']=_
    rw [hsplit,List.foldlM_cons]
    change ((joinSlash (parts path)).splitOn '/').foldlM normalizeStep ['/']=_
    by_cases hempty : parts path=[]
    · rw [hempty] at hpush ⊢
      exact hpush
    · rw [splitOn_joinSlash hempty fun part hpart => slash_notMem_parts hpart]
      exact hpush
  · simp [hpath.noBackslash,hpath.noControl]
  · simp [hcwd.absolute,hcwd.short]
  · rw [hpath.text]
    simp

/-- A path in the directory of another one, as text and as components. -/
theorem below_iff {root path : Text} (hroot : root= '/'::joinSlash (parts root))
    (hsome : parts root≠[]) (hpath : Canonical path) :
    (∃ suffix,path=root++ '/'::suffix) ↔ ∃ first rest,parts path=parts root++first::rest := by
  constructor
  · rintro ⟨suffix,hsuffix⟩
    have hparts : parts path=parts root++parts suffix := by rw [hsuffix,parts_append_slash]
    cases hrest : parts suffix with
    | cons first rest => exact ⟨first,rest,by rw [hparts,hrest]⟩
    | nil =>
      -- a canonical path does not end with a separator
      have htext := hpath.text
      rw [hparts,hrest,List.append_nil,← hroot,hsuffix] at htext
      exact absurd htext (by simp)
  · rintro ⟨first,rest,hparts⟩
    refine ⟨joinSlash (first::rest),?_⟩
    have htext := hpath.text
    rw [hparts,joinSlash_append hsome (List.cons_ne_nil first rest),← List.cons_append,
      ← hroot] at htext
    exact htext

/-- Whether a text goes on with a separator behind another one. -/
theorem dropPrefix_any_iff {root : Text} :
    ((path.dropPrefix? root).any fun suffix => suffix.head?=some '/')=true ↔
      ∃ suffix,path=root++ '/'::suffix := by
  rw [Option.any_eq_true]
  constructor
  · rintro ⟨suffix,hdrop,hhead⟩
    obtain ⟨first,hjoin,hfirst⟩ := List.dropPrefix?_eq_some_iff.mp hdrop
    obtain ⟨rest,hrest⟩ := List.head?_eq_some_iff.mp (of_decide_eq_true hhead)
    exact ⟨rest,by rw [hjoin,eq_of_beq hfirst,hrest]⟩
  · rintro ⟨suffix,hsuffix⟩
    refine ⟨'/'::suffix,?_,by simp⟩
    rw [hsuffix]
    exact List.dropPrefix?_eq_some_iff.mpr ⟨root,rfl,by simp⟩

/-- A canonical path other than the root ends with its last component. -/
theorem Canonical.getLast_ne (hpath : Canonical path) (hroot : path≠['/']) :
    path.getLast?≠some '/' := by
  rcases List.eq_nil_or_concat' (parts path) with hempty|⟨front,last,hparts⟩
  · have htext := hpath.text
    rw [hempty] at htext
    exact absurd htext hroot
  have hmem : last∈parts path := by
    rw [hparts]
    exact List.mem_append_right _ List.mem_cons_self
  have htail : ∃ before,path=before++last := by
    have htext := hpath.text
    rw [hparts,slash_joinSlash_concat] at htext
    split at htext
    · exact ⟨['/'],htext⟩
    · exact ⟨'/'::joinSlash front++['/'],by rw [htext,List.append_assoc]; rfl⟩
  obtain ⟨before,hbefore⟩ := htail
  rw [hbefore,List.getLast?_append_of_ne_nil _ (ne_nil_of_mem_parts hmem)]
  exact fun hlast => slash_notMem_parts hmem (List.mem_of_getLast? hlast)

/-- A canonical working directory passes the checks. -/
theorem normalizeStart_eq (hcwd : Canonical cwd) (input : Text) :
    normalizeStart cwd input=.ok (if input.head?=some '/' then ['/'] else cwd) := by
  rw [normalizeStart]
  split
  · rfl
  have hchecks : (cwd.getLast?==some '/' && cwd≠['/'])=false := by
    by_cases hroot : cwd=['/']
    · simp [hroot]
    · simp [hcwd.getLast_ne hroot]
  have hcomponents := forM_ok_iff.mpr hcwd.valid
  rw [parts] at hcomponents
  simp only [List.contains_eq_mem,hcwd.noBackslash,hcwd.noControl,hchecks,decide_false,
    Bool.or_false,Bool.false_eq_true,if_false,hcomponents]
  rfl

/-- What `normalize` does for a canonical working directory. -/
theorem normalize_eq (hcwd : Canonical cwd) (input : Text) : normalize cwd input=
      if input.isEmpty then .error "path required"
      else if input.contains '\\' || hasControlByte input then .error "invalid path character"
      else (input.splitOn '/').foldlM normalizeStep
        (if input.head?=some '/' then ['/'] else cwd) := by
  rw [normalize,normalizeStart_eq hcwd]
  have hchecks : ¬(cwd.head?≠some '/' ∨ len cwd>pathMax) := by
    simp [hcwd.absolute,hcwd.short]
  rw [if_neg hchecks]
  rfl

/-- A name is resolved against a canonical directory by appending it. -/
theorem normalize_child {directory name : Text} (hdirectory : Canonical directory)
    (hname : NameOk name) (hfits : len ('/'::joinSlash (parts directory++[name]))≤pathMax) :
    normalize directory name=.ok ('/'::joinSlash (parts directory++[name])) := by
  have hvalid : validateComponent name=.ok () := by
    have hlong := Nat.not_lt.mpr hname.short
    simp [validateComponent,hname.nonempty,hname.notDot,hname.notDotDot,hlong]
  have hhead : name.head?≠some '/' := fun hhead => hname.noSlash (List.mem_of_head? hhead)
  have hsplit : name.splitOn '/'=[name] := by
    have hjoin := splitOn_joinSlash (List.cons_ne_nil name []) (by simpa using hname.noSlash)
    rw [joinSlash_singleton] at hjoin
    exact hjoin
  have hpush := normalizeStep_push hvalid (fun part hpart => ne_nil_of_mem_parts hpart) hfits
  rw [← hdirectory.text] at hpush
  rw [normalize_eq hdirectory,if_neg,if_neg,if_neg hhead,hsplit,List.foldlM_cons,hpush]
  · rfl
  · simp [hname.noBackslash,hname.noControl]
  · simp [hname.nonempty]

end TuwaiqOS.VfsPath
