import TuwaiqOS.VfsPath

/-!
# Normalization as lexical path resolution

`normalize` pushes and truncates one text. Here the same is said with lists
of components: a component is skipped, drops the last one or is appended
within the limits. The loop over the text and the loop over the list agree
round by round, so that the list gives the result and the list fails
exactly when `normalize` does.
-/

namespace TuwaiqOS.PathResolution

open Utf8Text TreeInvariant VfsPath

/-- Apply one component of an input to the components of a path: empty and
`.` do nothing, `..` drops the last one, others are appended if the component
and the path stay within the limits. -/
def resolveStep (components : List Text) (component : Text) : Option (List Text) :=
  if component=[] ∨ component=['.'] then some components
  else if component=['.','.'] then some components.dropLast
  else if len component>nameMax then none
  else if len ('/'::joinSlash (components++[component]))>pathMax then none
  else some (components++[component])

/-- Apply the components of an input from left to right, beginning with the
root or with the working directory. -/
def resolve (cwd input : Text) : Option (List Text) :=
  (input.splitOn '/').foldlM resolveStep (if input.head?=some '/' then [] else parts cwd)

/-- The text of a list of components. -/
def canonicalText (components : List Text) : Text := '/'::joinSlash components

/-- An input that can be resolved at all. -/
structure Accepted (input : Text) : Prop where
  /-- It is not empty. -/
  nonempty : input≠[]
  /-- It has no backslash. -/
  noBackslash : '\\'∉input
  /-- It has no byte below `0x20`. -/
  noControl : hasControlByte input=false

section

variable {path component : Text}

/-- Which components are refused by their text alone. -/
theorem validateComponent_isOk (hempty : component≠[]) (hdot : component≠['.'])
    (hdots : component≠['.','.']) : validateComponent component=
      if len component>nameMax then .error "invalid path component length" else .ok () := by
  rw [validateComponent,if_neg (not_or.mpr ⟨hdot,hdots⟩)]
  simp [hempty]

/-- The length of a canonical text with one more component. -/
theorem len_pushed (hpath : Canonical path) (component : Text) :
    len path+(if path≠['/'] then 1 else 0)+len component=
      len (canonicalText (parts path++[component])) := by
  have htext := hpath.text
  rw [canonicalText,slash_joinSlash_concat]
  by_cases hempty : parts path=[]
  · rw [hempty,joinSlash_nil] at htext
    rw [if_pos hempty,if_neg (not_not.mpr htext),htext,len_slash_cons,len_slash_cons,len_nil]
    omega
  · have hroot : path≠['/'] := by
      intro hsame
      exact hempty (by rw [hsame]; decide)
    rw [if_neg hempty,if_pos hroot,← htext,len_append,len_slash_cons]
    omega

/-- Only the root is a canonical text of one byte. -/
theorem parts_of_short (hpath : Canonical path) (hshort : ¬1<len path) : parts path=[] := by
  by_contra hsome
  obtain ⟨first,rest,hparts⟩ := List.exists_cons_of_ne_nil hsome
  have hne := ne_nil_of_mem_parts (show first∈parts path by rw [hparts]; simp)
  have hfirst := mt len_eq_zero.mp hne
  have htext := hpath.text
  rw [hparts] at htext
  rw [htext,len_slash_cons] at hshort
  by_cases hrest : rest=[]
  · rw [hrest,joinSlash_singleton] at hshort
    omega
  · rw [joinSlash_cons hrest,len_append] at hshort
    omega

/-- One round on the text does what one round on the list does. -/
theorem normalizeStep_resolves (hpath : Canonical path) (hpiece : PieceOk component) :
    (normalizeStep path component).toOption.map parts=resolveStep (parts path) component := by
  rw [resolveStep]
  by_cases hskip : component=[] ∨ component=['.']
  · rw [normalizeStep,if_pos hskip,if_pos hskip]
    rfl
  rw [if_neg hskip]
  by_cases hdots : component=['.','.']
  · rw [normalizeStep,if_neg hskip,if_pos hdots,if_pos hdots]
    split
    · rename_i hlong
      exact congrArg some (parts_truncateLast hpath hlong)
    · rename_i hshort
      change some (parts path)=some (parts path).dropLast
      rw [parts_of_short hpath hshort]
      rfl
  rw [if_neg hdots]
  obtain ⟨hempty,hdot⟩ := not_or.mp hskip
  have hvalid := validateComponent_isOk hempty hdot hdots
  have hlen := len_pushed hpath component
  by_cases hname : len component>nameMax
  · rw [if_pos hname] at hvalid
    rw [if_pos hname,normalizeStep,if_neg hskip,if_neg hdots,hvalid]
    rfl
  rw [if_neg hname] at hvalid
  rw [if_neg hname]
  by_cases hfits : len (canonicalText (parts path++[component]))>pathMax
  · rw [canonicalText] at hfits hlen
    rw [if_pos hfits,normalizeStep,if_neg hskip,if_neg hdots,hvalid]
    change (if len path+(if path≠['/'] then 1 else 0)+len component>pathMax then _ else _ :
      Except String Text).toOption.map parts=none
    rw [hlen,if_pos hfits]
    rfl
  · have hpush := normalizeStep_push hvalid (fun part hpart => ne_nil_of_mem_parts hpart)
      (Nat.not_lt.mp hfits)
    rw [← hpath.text] at hpush
    rw [canonicalText] at hfits
    have hparts := parts_normalizeStep hpiece.noSlash hvalid hpush
    rw [if_neg hfits,hpush]
    exact congrArg some hparts

/-- The whole loop on the text does what the loop on the list does. -/
theorem foldlM_resolves {components : List Text}
    (hpieces : ∀ component∈components,PieceOk component) (hpath : Canonical path) :
    (components.foldlM normalizeStep path).toOption.map parts=
      components.foldlM resolveStep (parts path) := by
  induction components generalizing path with
  | nil => rfl
  | cons component rest ih =>
    have hpiece := hpieces component List.mem_cons_self
    have hstep := normalizeStep_resolves hpath hpiece
    rw [List.foldlM_cons,List.foldlM_cons,← hstep]
    cases hnext : normalizeStep path component with
    | error reason => rfl
    | ok next =>
      exact ih (fun part hpart => hpieces part (List.mem_cons_of_mem _ hpart))
        (canonical_normalizeStep hpath hpiece hnext)

end

section

variable {cwd input path : Text}

/-- Other inputs are refused. -/
theorem normalize_accepted (hrun : normalize cwd input=.ok path) : Accepted input := by
  obtain ⟨⟨hnonempty,hback,hcontrol⟩,-⟩ := normalize_ok hrun
  exact ⟨hnonempty,hback,hcontrol⟩

/-- Accepted inputs resolve on the text as on the list. -/
theorem normalize_resolves (hcwd : Canonical cwd) (hinput : Accepted input) :
    (normalize cwd input).toOption.map parts=resolve cwd input := by
  have hpieces : ∀ part∈input.splitOn '/',PieceOk part :=
    fun part hpart => pieceOk_of_mem hinput.noBackslash hinput.noControl hpart
  have hstart : Canonical (if input.head?=some '/' then ['/'] else cwd) := by
    split
    · exact canonical_root
    · exact hcwd
  have hparts : parts (if input.head?=some '/' then ['/'] else cwd)=
      if input.head?=some '/' then [] else parts cwd := by
    split
    · decide
    · rfl
  have hfold := foldlM_resolves hpieces hstart
  rw [hparts] at hfold
  rw [normalize_eq hcwd,if_neg (by simpa using hinput.nonempty),
    if_neg (by simp [hinput.noBackslash,hinput.noControl])]
  exact hfold

/-- An input resolves to a path exactly as its components do. -/
theorem normalize_ok_iff (hcwd : Canonical cwd) : normalize cwd input=.ok path ↔
      Accepted input ∧ ∃ components,resolve cwd input=some components ∧
        path=canonicalText components := by
  constructor
  · intro hrun
    have hinput := normalize_accepted hrun
    have hresolve := normalize_resolves hcwd hinput
    rw [hrun] at hresolve
    exact ⟨hinput,parts path,hresolve.symm,(canonical_normalize hcwd hrun).text⟩
  · rintro ⟨hinput,components,hresolve,hpath⟩
    rw [← normalize_resolves hcwd hinput] at hresolve
    cases hrun : normalize cwd input with
    | error reason =>
      rw [hrun] at hresolve
      cases hresolve
    | ok found =>
      rw [hrun] at hresolve
      have hparts : parts found=components := Option.some.inj hresolve
      rw [hpath,canonicalText,← hparts,← (canonical_normalize hcwd hrun).text]

/-- Resolution of a joined input goes on where the first part ended. -/
theorem resolve_append {first second : Text} (hfirst : first≠[]) (hrelative : second.head?≠some '/')
    (hresolve : resolve cwd first=some (parts path)) :
    resolve cwd (first++ '/'::second)=resolve path second := by
  have hhead : (first++ '/'::second).head?=first.head? := by
    rw [List.head?_append_of_ne_nil _ hfirst]
  rw [resolve,hhead,List.splitOn_append_cons_self,List.foldlM_append]
  rw [resolve] at hresolve
  rw [hresolve,resolve,if_neg hrelative]
  rfl

theorem Accepted.append {first second : Text} (hfirst : Accepted first)
    (hsecond : Accepted second) : Accepted (first++ '/'::second) := by
  refine ⟨by simp,?_,?_⟩
  · simpa [List.mem_append] using ⟨hfirst.noBackslash,hsecond.noBackslash⟩
  · rw [hasControlByte_append,hasControlByte_slash_cons,hfirst.noControl,hsecond.noControl]
    rfl

/-- Components of a canonical text that is not the root. -/
theorem splitOn_tail (hpath : Canonical path) (hroot : path≠['/']) :
    path.tail.splitOn '/'=parts path := by
  have hsome : parts path≠[] := by
    intro hempty
    have htext := hpath.text
    rw [hempty] at htext
    exact hroot htext
  have htail : path.tail=joinSlash (parts path) := by rw [hpath.text,List.tail_cons,← hpath.text]
  rw [htail,splitOn_joinSlash hsome fun part hpart => slash_notMem_parts hpart]

/-- Normalization is lexical resolution. For a canonical working directory an
input has a result exactly when it is accepted and its components resolve,
and the result is their text; the result is canonical and its own normal
form, and a relative input resolves from there as its join with the first
input does. -/
theorem normalize_is_lexical_resolution (hcwd : Canonical cwd) :
    (∀ input path,normalize cwd input=.ok path ↔
      Accepted input ∧ ∃ components,resolve cwd input=some components ∧
        path=canonicalText components) ∧
    (∀ input path,normalize cwd input=.ok path →
      path.head?=some '/' ∧ (path≠['/'] → path.getLast?≠some '/' ∧
        ∀ component∈path.tail.splitOn '/',
          component≠[] ∧ component≠['.'] ∧ component≠['.','.']) ∧ len path ≤ pathMax ∧
      Canonical path ∧ ∀ other,Canonical other → normalize other path=.ok path) ∧
    ∀ first second middle last,second.head?≠some '/' → normalize cwd first=.ok middle →
      normalize middle second=.ok last → normalize cwd (first++ '/'::second)=.ok last := by
  refine ⟨fun input path => normalize_ok_iff hcwd,fun input path hrun => ?_,
    fun first second middle last hrelative hfirst hsecond => ?_⟩
  · have hpath := canonical_normalize hcwd hrun
    refine ⟨hpath.absolute,fun hroot => ⟨hpath.getLast_ne hroot,fun component hmem => ?_⟩,
      hpath.short,hpath,fun other hother => normalize_canonical hother hpath⟩
    rw [splitOn_tail hpath hroot] at hmem
    obtain ⟨hempty,-,hdot,hdots⟩ := validateComponent_ok (hpath.valid component hmem)
    exact ⟨hempty,hdot,hdots⟩
  · have hmiddle := canonical_normalize hcwd hfirst
    have hinput := normalize_accepted hfirst
    have hresolve := normalize_resolves hcwd hinput
    rw [hfirst] at hresolve
    obtain ⟨hrest,result,hresult,hlast⟩ := (normalize_ok_iff hmiddle).mp hsecond
    rw [← resolve_append hinput.nonempty hrelative hresolve.symm] at hresult
    exact (normalize_ok_iff hcwd).mpr ⟨hinput.append hrest,result,hresult,hlast⟩

/-- In `/h/u` the input `../b/./t` leads to `/h/b/t`, which is its own normal
form. -/
theorem normalize_is_lexical_resolution_sibling :
    normalize ['/','h','/','u'] ['.','.','/','b','/','.','/','t']=.ok ['/','h','/','b','/','t'] ∧
      normalize ['/'] ['/','h','/','b','/','t']=.ok ['/','h','/','b','/','t'] := by
  have hcwd : Canonical ['/','h','/','u'] := canonical_normalize canonical_root
    (show normalize ['/'] ['h','/','u']=.ok ['/','h','/','u'] by decide)
  obtain ⟨hiff,hcanonical,-⟩ := normalize_is_lexical_resolution hcwd
  have hrun := (hiff ['.','.','/','b','/','.','/','t'] ['/','h','/','b','/','t']).mpr
    ⟨⟨by decide,by decide,by decide⟩,[['h'],['b'],['t']],by decide,by decide⟩
  exact ⟨hrun,(hcanonical _ _ hrun).2.2.2.2 ['/'] canonical_root⟩

end

end TuwaiqOS.PathResolution
