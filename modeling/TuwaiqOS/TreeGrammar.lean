import TuwaiqOS.TreeCodec
import TuwaiqOS.TreeFrame

/-!
# The record grammar of the tree payload

A payload is a sequence of records, each with a kind, a path and for a file
its contents. The reader accepts a byte string exactly when it is such a
sequence in which parents come first and no path is used twice, and the tree
it builds has one node for each record. The records that the writer emits
for this tree are the same ones in another order, which is why a payload can
be written back in the same number of bytes.
-/

namespace TuwaiqOS.TreeGrammar

open ByteFields Utf8Text FallibleSteps FsTree TreeInvariant TreeFrame TreeCodec

/-! ## Entries and listings of a tree -/

/-- Names of the children of a directory, in their order. -/
def listing (root : FsNode) (path : List Text) : List Text :=
  match entryAt root path with
  | .ok (.dir children) => children.map Prod.fst
  | _ => []

variable {root : FsNode} {path parent : List Text} {name : Text} {children : Children}
  {missing notDir : String} {change : Children → Except String Children}

/-- A directory is what shows no contents. -/
theorem look_none_iff :
    look root path=.ok none ↔ ∃ children,entryAt root path=.ok (.dir children) := by
  rw [look]
  rcases entryAt root path with reason|(content|children)
  · constructor
    · intro h
      cases h
    · rintro ⟨_,h⟩
      cases h
  · constructor
    · intro h
      cases h
    · rintro ⟨_,h⟩
      cases h
  · exact ⟨fun _ => ⟨children,rfl⟩,fun _ => rfl⟩

/-! ## Changing one directory -/

/-- A successful descent leaves the changed children at its path. -/
theorem modifyAt_entry {result : FsNode}
    (hrun : modifyAt missing notDir path change root=.ok result) :
    ∃ children changed,entryAt root path=.ok (.dir children) ∧ change children=.ok changed ∧
      entryAt result path=.ok (.dir changed) := by
  obtain ⟨children,changed,hchange,hseen,-⟩ := modifyAt_spec hrun
  obtain ⟨hold,hnew⟩ := hseen []
  rw [List.append_nil] at hold hnew
  exact ⟨children,changed,hold,hchange,hnew⟩

/-- A change of the entry of one name keeps the listings of all other
directories that are not at or below this entry. -/
theorem listing_modifyAt (htouches : TouchesOnly name change) {result : FsNode}
    (hrun : modifyAt missing notDir parent change root=.ok result) (hpath : ¬parent++[name]<+:path)
    (hother : path≠parent) : listing result path=listing root path := by
  rw [listing,listing]
  rcases entryAt_off htouches hrun hpath with hsame|⟨children,changed,hold,hnew,hshown⟩
  · rw [hsame]
  · rw [hold,hnew]
    exact (hshown hother).1

/-! ## The tree of a sequence of records -/

/-- The tree has one node for each record, at its path and with its kind and
contents, and no others; the children of a directory stand in the order of
their records. -/
structure Describes (records : List Record) (tree : FsNode) : Prop where
  /-- Besides the root there is what the records say. -/
  nodes : ∀ path shown,look tree path=.ok shown ↔
    (path=[] ∧ shown=none) ∨ ∃ record∈records,record.path=path ∧ shallow record.node=shown
  /-- A directory lists the records that name it as parent. -/
  order : ∀ path,look tree path=.ok none →
    listing tree path=(records.filter fun record => record.parent=path).map Record.name

/-- A record may follow others: its parent is the root or one of their
directories, and its path is not among theirs. -/
structure Admissible (records : List Record) (record : Record) : Prop where
  /-- The parent directory is there. -/
  parent : record.parent=[] ∨
    ∃ earlier∈records,earlier.path=record.parent ∧ shallow earlier.node=none
  /-- The path is free. -/
  free : record.path∉records.map Record.path

/-- Every record may follow those before it. -/
def Sequenced (records : List Record) : Prop :=
  ∀ before record after,records=before++record::after → Admissible before record

/-- The empty root is the tree of no records. -/
theorem describes_nil : Describes [] emptyRoot := by
  refine ⟨fun path shown => ?_,fun path _ => ?_⟩
  · cases path with
    | nil =>
      have hroot : look emptyRoot []=.ok none := rfl
      rw [hroot]
      simp only [Except.ok.injEq,true_and,List.not_mem_nil,false_and,exists_false,or_false]
      exact eq_comm
    | cons part rest =>
      have hnone : look emptyRoot (part::rest)=.error "entry not found" := rfl
      rw [hnone]
      simp
  · cases path with
    | nil => rfl
    | cons part rest => rfl

section

variable {records : List Record} {record : Record} {tree grown : FsNode}

/-- Nothing is found at or below a name that is free in its directory. -/
theorem look_free (hparent : entryAt tree parent=.ok (.dir children))
    (hfree : name∉children.map Prod.fst) (rest : List Text) :
    look tree (parent++[name]++rest)=.error "entry not found" := by
  rw [look,List.append_assoc,entryAt_append hparent,List.singleton_append,entryAt_dir_find,
    find_none_iff.mpr hfree]
  rfl

/-- Where the tree shows nothing there is no record. -/
theorem Describes.notMem (hdescribes : Describes records tree) {reason : String}
    (hlook : look tree path=.error reason) {other : Record} (hother : other∈records) :
    other.path≠path := by
  intro hpath
  have hshown := (hdescribes.nodes path _).mpr (Or.inr ⟨other,hother,hpath,rfl⟩)
  rw [hlook] at hshown
  cases hshown

/-- The record is inserted exactly when it may follow the records of the
tree. -/
theorem insertRecord_iff (hdescribes : Describes records tree) :
    (∃ grown,insertRecord tree record=.ok grown) ↔ Admissible records record := by
  constructor
  · rintro ⟨grown,hrun⟩
    obtain ⟨children,changed,hparent,hpush,-⟩ := modifyAt_entry hrun
    obtain ⟨hfree,rfl⟩ := pushChild_ok hpush
    have hdir := (hdescribes.nodes _ _).mp (look_none_iff.mpr ⟨children,hparent⟩)
    refine ⟨hdir.imp_left And.left,fun hmem => ?_⟩
    obtain ⟨other,hother,hpath⟩ := List.mem_map.mp hmem
    have hlook := look_free hparent hfree []
    rw [List.append_nil] at hlook
    exact hdescribes.notMem hlook hother hpath
  · rintro ⟨hparent,hfree⟩
    have hdir := (hdescribes.nodes record.parent none).mpr
      (hparent.imp_left fun hroot => ⟨hroot,rfl⟩)
    obtain ⟨children,hentry⟩ := look_none_iff.mp hdir
    have hname : record.name∉children.map Prod.fst := by
      intro hmem
      cases hfind : find record.name children with
      | none => exact find_none_iff.mp hfind hmem
      | some entry =>
        have hlook : look tree record.path=.ok (shallow entry.2) := by
          rw [look,Record.path,entryAt_append hentry,entryAt_dir_find,hfind]
          rfl
        rcases (hdescribes.nodes _ _).mp hlook with ⟨hroot,-⟩|⟨other,hother,hpath,-⟩
        · exact record.path_ne_nil hroot
        · exact hfree (List.mem_map.mpr ⟨other,hother,hpath⟩)
    exact modifyAt_isOk_iff.mpr ⟨children,_,hentry,pushChild_of_notMem hname⟩

/-- What a record added is found at its path. -/
theorem look_inserted {node : FsNode}
    (hgrown : entryAt grown parent=.ok (.dir (children++[(name,node)])))
    (hfree : name∉children.map Prod.fst) (rest : List Text) :
    entryAt grown (parent++[name]++rest)=entryAt node rest := by
  rw [List.append_assoc,entryAt_append hgrown,List.singleton_append,entryAt_split hfree]

/-- Nothing is below a recorded node. -/
theorem look_node (hrecord : RecordOk record) (rest : List Text)
    (shown : Option (List UInt8)) : look record.node rest=.ok shown ↔ rest=[] ∧ shallow record.node=shown := by
  cases rest with
  | nil =>
    have hself : look record.node []=.ok (shallow record.node) := rfl
    rw [hself]
    simp
  | cons part rest =>
    rcases hrecord.node with ⟨content,hnode,-⟩|hnode
    · rw [hnode]
      have hnone : look (.file content) (part::rest)=.error "not a directory" := rfl
      rw [hnone]
      simp
    · rw [hnode]
      have hnone : look (.dir []) (part::rest)=.error "entry not found" := rfl
      rw [hnone]
      simp

section

variable (hdescribes : Describes records tree)
include hdescribes

section

variable (hrecord : RecordOk record)
include hrecord

/-- An inserted record adds its node to what the tree shows. -/
theorem nodes_insertRecord
    (hrun : insertRecord tree record=.ok grown) (path : List Text) (shown : Option (List UInt8)) :
    look grown path=.ok shown ↔ (path=[] ∧ shown=none) ∨
      ∃ other∈records++[record],other.path=path ∧ shallow other.node=shown := by
  simp only [List.mem_append,List.mem_singleton,or_and_right,exists_or,exists_eq_left]
  rw [← or_assoc,← hdescribes.nodes path shown]
  by_cases hbelow : record.path<+:path
  · obtain ⟨children,changed,hparent,hpush,hgrown⟩ := modifyAt_entry hrun
    obtain ⟨hfree,rfl⟩ := pushChild_ok hpush
    obtain ⟨rest,rfl⟩ := hbelow
    have hbefore : look tree (record.path++rest)=.error "entry not found" :=
      look_free hparent hfree rest
    have hafter : look grown (record.path++rest)=look record.node rest := by
      rw [look,look,Record.path,look_inserted hgrown hfree]
    rw [hbefore,hafter,look_node hrecord]
    simp
  · have hsame := look_modifyAt (touchesOnly_pushChild _ _ _) hrun hbelow
    have hother : record.path≠path := by
      rintro rfl
      exact hbelow (List.prefix_refl _)
    rw [hsame]
    simp [hother]

/-- An inserted record comes last in its parent directory. -/
theorem order_insertRecord
    (hrun : insertRecord tree record=.ok grown) (hdir : look grown path=.ok none) :
    listing grown path=
      ((records++[record]).filter fun other => other.parent=path).map Record.name := by
  obtain ⟨children,changed,hparent,hpush,hgrown⟩ := modifyAt_entry hrun
  obtain ⟨hfree,rfl⟩ := pushChild_ok hpush
  rw [List.filter_append,List.map_append]
  by_cases hsame : path=record.parent
  · subst hsame
    have hbefore := hdescribes.order record.parent (look_none_iff.mpr ⟨children,hparent⟩)
    rw [← hbefore,listing,listing,hparent,hgrown]
    simp
  · have hnone : ([record].filter fun other => other.parent=path)=[] := by
      simpa using Ne.symm hsame
    rw [hnone,List.map_nil,List.append_nil]
    by_cases hbelow : record.path<+:path
    · -- The new directory is empty, and no earlier record lies below it.
      obtain ⟨rest,rfl⟩ := hbelow
      have hempty : (records.filter fun other => other.parent=record.path++rest)=[] := by
        rw [List.filter_eq_nil_iff]
        intro other hother hbelow
        have hlook := look_free hparent hfree (rest++[other.name])
        refine hdescribes.notMem hlook hother ?_
        rw [Record.path,of_decide_eq_true hbelow,← List.append_assoc]
        rfl
      rw [hempty,List.map_nil,listing,Record.path,look_inserted hgrown hfree]
      rw [look,Record.path,look_inserted hgrown hfree] at hdir
      obtain ⟨rfl,-⟩ := (look_node hrecord rest none).mp hdir
      rcases hrecord.node with ⟨content,hnode,-⟩|hnode
      · rw [hnode]
        rfl
      · rw [hnode]
        rfl
    · have htouches := touchesOnly_pushChild "duplicate metadata path" record.name record.node
      rw [listing_modifyAt htouches hrun hbelow hsame]
      refine hdescribes.order path ?_
      rw [← look_modifyAt htouches hrun hbelow]
      exact hdir

theorem describes_insertRecord
    (hrun : insertRecord tree record=.ok grown) : Describes (records++[record]) grown :=
  ⟨nodes_insertRecord hdescribes hrecord hrun,
    fun _ => order_insertRecord hdescribes hrecord hrun⟩

end

end

end

theorem sequenced_concat {records : List Record} {record : Record} :
    Sequenced (records++[record]) ↔ Sequenced records ∧ Admissible records record := by
  constructor
  · intro hall
    refine ⟨fun before other after hsplit => ?_,hall records record [] rfl⟩
    exact hall before other (after++[record]) (by rw [hsplit]; simp)
  · rintro ⟨hall,hlast⟩ before other after hsplit
    rcases List.eq_nil_or_concat after with rfl|⟨after,final,rfl⟩
    · obtain ⟨rfl,hsame⟩ := List.append_inj' hsplit rfl
      cases hsame
      exact hlast
    · rw [List.concat_eq_append,← List.cons_append,← List.append_assoc] at hsplit
      exact hall before other after (List.append_inj' hsplit rfl).1

/-- Inserting acceptable records into the empty root gives the tree that
they describe. -/
theorem describes_foldlM {records : List Record} (hrecords : ∀ record∈records,RecordOk record)
    {tree : FsNode} (hfold : records.foldlM insertRecord emptyRoot=.ok tree) :
    Sequenced records ∧ Describes records tree := by
  induction records using List.reverseRecOn generalizing tree with
  | nil =>
    cases hfold
    exact ⟨fun before record after h => by simp at h,describes_nil⟩
  | append_singleton records record ih =>
    rw [List.foldlM_append] at hfold
    obtain ⟨before,hbefore,hlast⟩ := bind_ok_iff.mp hfold
    have hrun : insertRecord before record=.ok tree := by
      simpa using hlast
    obtain ⟨hsequenced,hdescribes⟩ := ih (fun r h => hrecords r (List.mem_append_left _ h)) hbefore
    have hrecord := hrecords record (List.mem_append_right _ (List.mem_singleton.mpr rfl))
    exact ⟨sequenced_concat.mpr ⟨hsequenced,(insertRecord_iff hdescribes).mp ⟨tree,hrun⟩⟩,
      describes_insertRecord hdescribes hrecord hrun⟩

/-- Records in sequence can all be inserted. -/
theorem foldlM_isOk {records : List Record} (hrecords : ∀ record∈records,RecordOk record)
    (hsequenced : Sequenced records) : ∃ tree,records.foldlM insertRecord emptyRoot=.ok tree := by
  induction records using List.reverseRecOn with
  | nil => exact ⟨emptyRoot,rfl⟩
  | append_singleton records record ih =>
    obtain ⟨hbefore,hlast⟩ := sequenced_concat.mp hsequenced
    have hok : ∀ other∈records,RecordOk other := fun r h => hrecords r (List.mem_append_left _ h)
    obtain ⟨before,hfold⟩ := ih hok hbefore
    obtain ⟨tree,hrun⟩ := (insertRecord_iff (describes_foldlM hok hfold).2).mpr hlast
    refine ⟨tree,?_⟩
    rw [List.foldlM_append,hfold]
    change [record].foldlM insertRecord before=.ok tree
    rw [List.foldlM_cons,hrun]
    rfl

/-! ## The grammar -/

/-- A record of the format. -/
structure Entry where
  /-- Path from the root, without a leading separator. -/
  path : Text
  /-- Contents of a file; `none` for a directory. -/
  content : Option (List UInt8)

namespace Entry

/-- Bytes of a record: its kind, the length of its path, the path, and for a
file a little-endian length and the contents. -/
def bytes (entry : Entry) : List UInt8 :=
  match entry.content with
  | some content =>
    1::UInt8.ofNat (len entry.path)::(asBytes entry.path++(leBytes 2 content.length++content))
  | none => 2::UInt8.ofNat (len entry.path)::asBytes entry.path

/-- The path is valid and the contents fit their length field. -/
structure Valid (entry : Entry) : Prop where
  /-- `validate_metadata_path` passes. -/
  path : validateMetadataPath entry.path=.ok ()
  /-- The length of a file is a 16-bit number. -/
  content : ∀ content,entry.content=some content → content.length<2^16

/-- Components of the path. -/
def parts (entry : Entry) : List Text := entry.path.splitOn '/'

/-- The node a record adds, under the last component of its path. -/
def record (entry : Entry) : Record :=
  ⟨entry.parts.dropLast,entry.parts.getLastD [],entry.content.elim (.dir []) .file⟩

@[simp] theorem path_record (entry : Entry) : entry.record.path=entry.parts := by
  have hne : entry.parts≠[] := List.splitOn_ne_nil '/' entry.path
  rw [record,Record.path,List.getLastD_eq_getLast?,List.getLast?_eq_some_getLast hne]
  exact List.dropLast_append_getLast hne

@[simp] theorem shallow_record (entry : Entry) : shallow entry.record.node=entry.content := by
  rw [record]
  cases entry.content <;> rfl

theorem joinSlash_parts (entry : Entry) : joinSlash entry.parts=entry.path :=
  joinSlash_splitOn entry.path

theorem encodeRecord_record (entry : Entry) : encodeRecord entry.record=entry.bytes := by
  have hpath : joinSlash entry.record.path=entry.path := by
    rw [path_record,joinSlash_parts]
  cases hcontent : entry.content with
  | none =>
    have hnode : entry.record.node=.dir [] := by rw [record,hcontent]; rfl
    rw [encodeRecord,hnode,hpath,bytes,hcontent]
    rfl
  | some content =>
    have hnode : entry.record.node=.file content := by rw [record,hcontent]; rfl
    rw [encodeRecord,hnode,hpath,bytes,hcontent]
    rfl

/-- Valid records are those that the codec accepts. -/
theorem Valid.recordOk {entry : Entry} (hvalid : entry.Valid) : RecordOk entry.record := by
  obtain ⟨hnames,hshort⟩ := validateMetadataPath_ok hvalid.path
  refine ⟨?_,?_,?_⟩
  · rw [path_record]
    exact hnames
  · rw [path_record,joinSlash_parts]
    exact hshort
  · cases hcontent : entry.content with
    | none => exact Or.inr (by rw [record,hcontent]; rfl)
    | some content =>
      have hlength := hvalid.content content hcontent
      exact Or.inl ⟨content,by rw [record,hcontent]; rfl,by rw [maxFileSize]; omega⟩

/-- The record of the format for an insertion. -/
def ofRecord (record : Record) : Entry := ⟨joinSlash record.path,shallow record.node⟩

theorem record_ofRecord {record : Record} (hrecord : RecordOk record) :
    (ofRecord record).record=record := by
  have hparts : (ofRecord record).parts=record.path :=
    splitOn_joinSlash record.path_ne_nil fun part h => (hrecord.names part h).noSlash
  have hnode : (shallow record.node).elim (.dir []) .file=record.node := by
    rcases hrecord.node with ⟨content,hnode,-⟩|hnode <;> rw [hnode] <;> rfl
  have hparent : (record.parent++[record.name]).dropLast=record.parent := List.dropLast_concat
  have hname : (record.parent++[record.name]).getLastD []=record.name := by simp
  rw [Entry.record,hparts,Record.path,hparent,hname]
  exact congrArg _ hnode

theorem valid_ofRecord {record : Record} (hrecord : RecordOk record) : (ofRecord record).Valid := by
  refine ⟨validateMetadataPath_joinSlash record.path_ne_nil hrecord.names hrecord.short,?_⟩
  intro content hcontent
  have hshown : shallow record.node=some content := hcontent
  rcases hrecord.node with ⟨found,hnode,hsize⟩|hnode
  · rw [hnode] at hshown
    cases hshown
    rw [maxFileSize] at hsize
    omega
  · rw [hnode] at hshown
    cases hshown

end Entry

/-- The grammar of a payload. -/
structure Grammar (data : List UInt8) (entries : List Entry) : Prop where
  /-- The records cover the data completely. -/
  covers : data=entries.flatMap Entry.bytes
  /-- There are at most `MAX_NODE_COUNT` records. -/
  few : entries.length ≤ maxNodeCount
  /-- Every record is valid. -/
  valid : ∀ entry∈entries,entry.Valid
  /-- A parent is the root or the directory of an earlier record. -/
  parents : ∀ before entry after,entries=before++entry::after →
    entry.parts.dropLast=[] ∨
      ∃ earlier∈before,earlier.content=none ∧ earlier.parts=entry.parts.dropLast
  /-- No path occurs twice. -/
  distinct : (entries.map Entry.path).Nodup

theorem Grammar.sequenced {data : List UInt8} {entries : List Entry}
    (hgrammar : Grammar data entries) : Sequenced (entries.map Entry.record) := by
  intro before record after hsplit
  obtain ⟨first,later,hentries,rfl,hlater⟩ := List.map_eq_append_iff.mp hsplit
  obtain ⟨entry,rest,rfl,rfl,rfl⟩ := List.map_eq_cons_iff.mp hlater
  refine ⟨?_,?_⟩
  · rcases hgrammar.parents first entry rest hentries with hroot|⟨earlier,hmem,hdir,hparts⟩
    · exact Or.inl hroot
    · refine Or.inr ⟨earlier.record,List.mem_map_of_mem hmem,?_,?_⟩
      · rw [Entry.path_record,hparts]
        rfl
      · rw [Entry.shallow_record,hdir]
  · intro hmem
    rw [List.map_map] at hmem
    obtain ⟨earlier,hearlier,hpath⟩ := List.mem_map.mp hmem
    have hsame : earlier.path=entry.path := by
      rw [Function.comp_apply,Entry.path_record,Entry.path_record] at hpath
      rw [← Entry.joinSlash_parts,hpath,Entry.joinSlash_parts]
    have hdistinct := hgrammar.distinct
    rw [hentries,List.map_append,List.map_cons] at hdistinct
    exact List.disjoint_of_nodup_append hdistinct (List.mem_map_of_mem hearlier)
      (by rw [hsame]; exact List.mem_cons_self)

/-- Records in sequence have distinct paths. -/
theorem Sequenced.nodup {records : List Record} (hsequenced : Sequenced records) :
    (records.map Record.path).Nodup := by
  induction records using List.reverseRecOn with
  | nil => exact List.nodup_nil
  | append_singleton records record ih =>
    obtain ⟨hbefore,hlast⟩ := sequenced_concat.mp hsequenced
    rw [List.map_append,List.map_singleton]
    exact List.nodup_append_comm.mp (List.nodup_cons.mpr ⟨hlast.free,ih hbefore⟩)

/-- A sequence of records is a payload of the grammar. -/
theorem grammar_of_sequenced {records : List Record} (hrecords : ∀ record∈records,RecordOk record)
    (hcount : records.length ≤ maxNodeCount) (hsequenced : Sequenced records) :
    Grammar (records.flatMap encodeRecord) (records.map Entry.ofRecord) := by
  refine ⟨?_,?_,?_,?_,?_⟩
  · rw [List.flatMap_map]
    refine List.flatMap_congr fun record hmem => ?_
    rw [← Entry.encodeRecord_record,Entry.record_ofRecord (hrecords record hmem)]
  · rwa [List.length_map]
  · intro entry hmem
    obtain ⟨record,hrecord,rfl⟩ := List.mem_map.mp hmem
    exact Entry.valid_ofRecord (hrecords record hrecord)
  · intro before entry after hsplit
    obtain ⟨first,later,rfl,rfl,hlater⟩ := List.map_eq_append_iff.mp hsplit
    obtain ⟨record,rest,rfl,rfl,rfl⟩ := List.map_eq_cons_iff.mp hlater
    have hparts : ∀ other∈first++record::rest,(Entry.ofRecord other).parts=other.path := by
      intro other hother
      rw [← Entry.path_record,Entry.record_ofRecord (hrecords other hother)]
    have hparent : (Entry.ofRecord record).parts.dropLast=record.parent := by
      rw [hparts record (by simp),Record.path,List.dropLast_concat]
    rcases (hsequenced first record rest rfl).parent with hroot|⟨earlier,hmem,hpath,hdir⟩
    · exact Or.inl (hparent.trans hroot)
    · refine Or.inr ⟨Entry.ofRecord earlier,List.mem_map_of_mem hmem,hdir,?_⟩
      rw [hparent,hparts earlier (List.mem_append_left _ hmem),hpath]
  · rw [List.map_map]
    have hpaths : records.map (Entry.path∘Entry.ofRecord)=
        (records.map Record.path).map joinSlash := by rw [List.map_map]; rfl
    rw [hpaths]
    refine hsequenced.nodup.map_on fun first hfirst second hsecond hsame => ?_
    obtain ⟨one,hone,rfl⟩ := List.mem_map.mp hfirst
    obtain ⟨two,htwo,rfl⟩ := List.mem_map.mp hsecond
    have hsplits : ∀ record∈records,(joinSlash record.path).splitOn '/'=record.path :=
      fun record h => splitOn_joinSlash record.path_ne_nil
        fun part hpart => ((hrecords record h).names part hpart).noSlash
    rw [← hsplits one hone,hsame,hsplits two htwo]

/-- Valid records are read by inserting them in order. -/
theorem deserializeTree_entries {entries : List Entry} (hvalid : ∀ entry∈entries,entry.Valid)
    (hcount : entries.length ≤ maxNodeCount) : (∀ record∈entries.map Entry.record,RecordOk record) ∧
      deserializeTree (entries.flatMap Entry.bytes)=
        (entries.map Entry.record).foldlM insertRecord emptyRoot := by
  have hrecords : ∀ record∈entries.map Entry.record,RecordOk record := by
    intro record hmem
    obtain ⟨entry,hentry,rfl⟩ := List.mem_map.mp hmem
    exact (hvalid entry hentry).recordOk
  have hbytes : entries.flatMap Entry.bytes=(entries.map Entry.record).flatMap encodeRecord := by
    rw [List.flatMap_map]
    exact List.flatMap_congr fun entry _ => entry.encodeRecord_record.symm
  refine ⟨hrecords,?_⟩
  rw [deserializeTree,hbytes,deserializeFrom_records hrecords]
  rw [List.length_map]
  exact hcount

/-- `deserialize_tree` accepts exactly the payloads of the grammar, and the
tree it returns has exactly the nodes that the records describe. -/
theorem deserializeTree_grammar (data : List UInt8) :
    ((∃ tree,deserializeTree data=.ok tree) ↔ ∃ entries,Grammar data entries) ∧
      ∀ tree entries,deserializeTree data=.ok tree → Grammar data entries →
        Describes (entries.map Entry.record) tree := by
  refine ⟨⟨?_,?_⟩,?_⟩
  · rintro ⟨tree,htree⟩
    obtain ⟨records,hrecords,hcount,rfl,hfold⟩ := deserializeFrom_ok htree
    exact ⟨_,grammar_of_sequenced hrecords hcount (describes_foldlM hrecords hfold).1⟩
  · rintro ⟨entries,hgrammar⟩
    obtain ⟨hrecords,hread⟩ := deserializeTree_entries hgrammar.valid hgrammar.few
    rw [hgrammar.covers,hread]
    exact foldlM_isOk hrecords hgrammar.sequenced
  · intro tree entries htree hgrammar
    obtain ⟨hrecords,hread⟩ := deserializeTree_entries hgrammar.valid hgrammar.few
    rw [hgrammar.covers,hread] at htree
    exact (describes_foldlM hrecords htree).2

/-- Records in an order that the writer does not produce: a directory, a
second one, and a file in the first. -/
def reordered : List Entry :=
  [⟨['a'],none⟩,⟨['b'],none⟩,⟨['a','/','x'],some [7]⟩]

/-- The tree of `reordered`. -/
def reorderedTree : FsNode :=
  .dir [(['a'],.dir [(['x'],.file [7])]),(['b'],.dir [])]

theorem deserializeTree_reordered :
    deserializeTree (reordered.flatMap Entry.bytes)=.ok reorderedTree := by
  have hvalid : ∀ entry∈reordered,entry.Valid := by
    intro entry hmem
    simp only [reordered,List.mem_cons,List.not_mem_nil,or_false] at hmem
    rcases hmem with rfl|rfl|rfl
    · exact ⟨by decide,by simp⟩
    · exact ⟨by decide,by simp⟩
    · exact ⟨by decide,by simp⟩
  rw [(deserializeTree_entries hvalid (by decide)).2]
  rfl

theorem deserializeTree_grammar_reordered :
    ∃ entries,Grammar (reordered.flatMap Entry.bytes) entries ∧
      Describes (entries.map Entry.record) reorderedTree := by
  obtain ⟨haccepts,hbuilds⟩ := deserializeTree_grammar (reordered.flatMap Entry.bytes)
  obtain ⟨entries,hgrammar⟩ := haccepts.mp ⟨reorderedTree,deserializeTree_reordered⟩
  exact ⟨entries,hgrammar,hbuilds _ _ deserializeTree_reordered hgrammar⟩

/-! ## Writing a payload back -/

/-- Two sequences of acceptable records of one tree have the same records. -/
theorem mem_of_describes {first second : List Record} {tree : FsNode}
    (hfirst : ∀ record∈first,RecordOk record) (hsecond : ∀ record∈second,RecordOk record)
    (hone : Describes first tree) (htwo : Describes second tree) {record : Record}
    (hmem : record∈first) : record∈second := by
  have hlook := (hone.nodes record.path (shallow record.node)).mpr
    (Or.inr ⟨record,hmem,rfl,rfl⟩)
  rcases (htwo.nodes _ _).mp hlook with ⟨hroot,-⟩|⟨other,hother,hpath,hshown⟩
  · exact absurd hroot record.path_ne_nil
  · have hsame : Entry.ofRecord other=Entry.ofRecord record := by
      rw [Entry.ofRecord,Entry.ofRecord,hpath,hshown]
    rw [← Entry.record_ofRecord (hfirst record hmem),← hsame,
      Entry.record_ofRecord (hsecond other hother)]
    exact hother

/-- Two sequences of acceptable records of one tree differ in order only. -/
theorem perm_of_foldlM {first second : List Record} {tree : FsNode}
    (hfirst : ∀ record∈first,RecordOk record) (hsecond : ∀ record∈second,RecordOk record)
    (hone : first.foldlM insertRecord emptyRoot=.ok tree)
    (htwo : second.foldlM insertRecord emptyRoot=.ok tree) : first.Perm second := by
  obtain ⟨hsequencedOne,hdescribesOne⟩ := describes_foldlM hfirst hone
  obtain ⟨hsequencedTwo,hdescribesTwo⟩ := describes_foldlM hsecond htwo
  refine (List.perm_ext_iff_of_nodup (hsequencedOne.nodup.of_map _)
    (hsequencedTwo.nodup.of_map _)).mpr fun record => ⟨?_,?_⟩
  · exact mem_of_describes hfirst hsecond hdescribesOne hdescribesTwo
  · exact mem_of_describes hsecond hfirst hdescribesTwo hdescribesOne

/-- A payload that `deserialize_tree` accepts is written back behind the
magic in as many bytes, and reads back as the same tree. -/
theorem deserializeTree_serializeTree {data : List UInt8} {tree : FsNode}
    (hread : deserializeTree data=.ok tree) :
    ∃ blob,serializeTree tree=.ok blob ∧ blob.take 4=treeMagic ∧
      blob.length=data.length+4 ∧ deserializeTree (blob.drop 4)=.ok tree := by
  obtain ⟨htree,hcount⟩ := deserializeTree_treeOk hread
  obtain ⟨blob,hblob,hmagic,hback⟩ := deserialize_serialize htree
  rw [if_pos hcount] at hback
  refine ⟨blob,hblob,hmagic,?_,hback⟩
  obtain ⟨children,rfl⟩ := htree.isDir
  obtain ⟨hwritten,hbytes⟩ := serializeTree_eq htree
  obtain ⟨records,hrecords,-,rfl,hfold⟩ := deserializeFrom_ok hread
  have hperm := perm_of_foldlM hrecords hwritten hfold (foldlM_insertRecord_emptyRoot htree)
  have hlength := (hperm.flatMap_right encodeRecord).length_eq
  have hwrite : blob=treeMagic++(recordsBelow [] children).flatMap encodeRecord := by
    rw [hblob] at hbytes
    cases hbytes
    rfl
  have hfour : treeMagic.length=4 := rfl
  rw [hwrite,List.length_append,hlength,hfour]
  omega

theorem deserializeTree_serializeTree_reordered :
    ∃ blob,serializeTree reorderedTree=.ok blob ∧ blob.take 4=treeMagic ∧
      blob.length=(reordered.flatMap Entry.bytes).length+4 ∧
      deserializeTree (blob.drop 4)=.ok reorderedTree :=
  deserializeTree_serializeTree deserializeTree_reordered

end TuwaiqOS.TreeGrammar
