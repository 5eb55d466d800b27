import TuwaiqOS.ByteFields
import TuwaiqOS.TreeInvariant

/-!
# The serialized tree: records in preorder

`serialize_tree` writes one record for every node below the root, parents
first. `deserialize_tree` reads records one by one and inserts each at its
path, with a bound on their number that the writer does not have. The round
trip goes through the list of records of a tree: inserting them in order
rebuilds the tree, because all insertions below one directory fuse into a
single change of it.
-/

namespace TuwaiqOS.TreeCodec

open Utf8Text ByteFields FallibleSteps FsTree TreeInvariant

/-- Largest checkpoint payload, 511 sectors (`MAX_METADATA_BYTES`). -/
def maxMetadataBytes : ℕ := (512-1)*512

/-- Largest number of records the reader accepts (`MAX_NODE_COUNT`). -/
def maxNodeCount : ℕ := 1024

/-- First bytes of every payload, `TREE` (`TREE_MAGIC`). -/
def treeMagic : List UInt8 := [0x54,0x52,0x45,0x45]

/-! ## Writer -/

/-- Path of a child as text (`join_path`). -/
def joinPath (base name : Text) : Text := if base.isEmpty then name else base++ '/'::name

/-- Bytes of one record (`write_record`). -/
def writeRecord (kind : UInt8) (path : Text) (content : Option (List UInt8)) :
    Except String (List UInt8) :=
  let pathBytes := asBytes path
  if pathBytes.isEmpty || pathBytes.length>120 then .error "invalid path"
  else
    let head := kind::UInt8.ofNat pathBytes.length::pathBytes
    if kind=1 then
      match content with
      | none => .error "missing file content"
      | some bytes =>
        if bytes.length>maxFileSize then .error "file too large"
        else .ok (head++leBytes 2 bytes.length++bytes)
    else .ok head

mutual
/-- Records of a node and everything below it (`flatten_tree`). -/
def flattenTree (path : Text) : FsNode → Except String (List UInt8)
  | .file content => writeRecord 1 path (some content)
  | .dir children => do
    let own ← if path.isEmpty then pure [] else writeRecord 2 path none
    let below ← flattenChildren path children
    pure (own++below)
/-- The loop of `flatten_tree` over the children of a directory. -/
def flattenChildren (path : Text) : Children → Except String (List UInt8)
  | [] => pure []
  | (name,child)::rest => do
    let first ← flattenTree (joinPath path name) child
    let later ← flattenChildren path rest
    pure (first++later)
end

/-- `serialize_tree`. -/
def serializeTree (root : FsNode) : Except String (List UInt8) := do
  let body ← flattenTree [] root
  pure (treeMagic++body)

/-! ## Reader -/

/-- `validate_metadata_path`. -/
def validateMetadataPath (path : Text) : Except String Unit :=
  if path.isEmpty || len path>120 || path.head?==some '/' || path.getLast?==some '/' ||
      path.contains '\\' || hasControlByte path then .error "invalid metadata path"
  else if (path.splitOn '/').any fun component =>
      component.isEmpty || component==['.'] || component==['.','.'] || len component>64 then
    .error "invalid metadata path component"
  else .ok ()

/-- `insert_at_path`. -/
def insertAtPath (root : FsNode) (path : Text) (node : FsNode) : Except String FsNode :=
  let parts := (path.splitOn '/').filter fun part => !part.isEmpty
  match parts.getLast? with
  | none => .ok root
  | some name =>
    modifyAt "metadata parent directory missing" "path conflict" parts.dropLast
      (pushChild "duplicate metadata path" name node) root

/-- Read one record from the front of the data: its path, its node and
the data behind it. This is the body of the loop of `deserialize_tree`. -/
def readRecord : List UInt8 → Except String (Text×FsNode×List UInt8)
  | kind::pathLen::data =>
    if pathLen.toNat>data.length then .error "truncated record path"
    else
      match fromUtf8 (data.take pathLen.toNat) with
      | none => .error "invalid path in metadata"
      | some path => do
        validateMetadataPath path
        let body := data.drop pathLen.toNat
        if kind=1 then
          if 2>body.length then .error "truncated file record"
          else
            let contentLen := leValue (body.take 2)
            let tail := body.drop 2
            if contentLen>tail.length then .error "truncated file content"
            else .ok (path,.file (tail.take contentLen),tail.drop contentLen)
        else if kind=2 then .ok (path,.dir [],body)
        else .error "unknown record kind"
  | _ => .error "truncated record header"

/-- The loop of `deserialize_tree`; `budget` is what is left of
`MAX_NODE_COUNT`. -/
def deserializeFrom : ℕ → FsNode → List UInt8 → Except String FsNode
  | _,root,[] => .ok root
  | 0,_,_::_ => .error "too many metadata records"
  | budget+1,root,byte::data => do
    let (path,node,rest) ← readRecord (byte::data)
    let grown ← insertAtPath root path node
    deserializeFrom budget grown rest

/-- `deserialize_tree`. -/
def deserializeTree (data : List UInt8) : Except String FsNode :=
  deserializeFrom maxNodeCount emptyRoot data

/-- The payload of a tree reads back as the tree. -/
def RoundTrips (tree : FsNode) : Prop :=
  ∃ blob,serializeTree tree=.ok blob ∧ deserializeTree (blob.drop 4)=.ok tree

/-! ## Records of a tree -/

/-- One record: the node it adds, under a name in a parent directory. -/
structure Record where
  /-- Components of the parent directory. -/
  parent : List Text
  /-- Name of the new entry. -/
  name : Text
  /-- The file, or the directory recorded empty. -/
  node : FsNode

/-- Components of the recorded path. -/
def Record.path (record : Record) : List Text := record.parent++[record.name]

mutual
/-- The records of an entry and everything below it, parents first. -/
def recordsOf (parent : List Text) (name : Text) : FsNode → List Record
  | .file content => [⟨parent,name,.file content⟩]
  | .dir children => ⟨parent,name,.dir []⟩::recordsBelow (parent++[name]) children
/-- The records of all children of a directory. -/
def recordsBelow (path : List Text) : Children → List Record
  | [] => []
  | (name,child)::rest => recordsOf path name child++recordsBelow path rest
end

/-- Bytes of a record. -/
def encodeRecord (record : Record) : List UInt8 :=
  let pathBytes := asBytes (joinSlash record.path)
  match record.node with
  | .file content =>
    1::UInt8.ofNat pathBytes.length::(pathBytes++(leBytes 2 content.length++content))
  | .dir _ => 2::UInt8.ofNat pathBytes.length::pathBytes

/-- Insertion of a record by its components. -/
def insertRecord (root : FsNode) (record : Record) : Except String FsNode :=
  modifyAt "metadata parent directory missing" "path conflict" record.parent
    (pushChild "duplicate metadata path" record.name record.node) root

/-- A record that both sides accept. -/
structure RecordOk (record : Record) : Prop where
  /-- Components are legal. -/
  names : ∀ part∈record.path,NameOk part
  /-- The joined path fits. -/
  short : len (joinSlash record.path)≤pathMax
  /-- A file fits its length field and a directory is recorded empty. -/
  node : (∃ content,record.node=.file content ∧ content.length ≤ maxFileSize) ∨ record.node=.dir []

theorem Record.path_ne_nil (record : Record) : record.path≠[] := by simp [Record.path]

/-- A tree has one record for each node below its root. -/
theorem length_recordsOf (parent : List Text) (name : Text) (node : FsNode) :
    (recordsOf parent name node).length=1+descendants node := by
  induction node using FsNode.byContents generalizing parent name with
  | hfile content => rfl
  | hdir children ih =>
    have hbelow : (recordsBelow (parent++[name]) children).length=population children := by
      induction children with
      | nil => rfl
      | cons entry rest ihrest =>
        obtain ⟨childName,child⟩ := entry
        rw [recordsBelow,List.length_append,ih _ List.mem_cons_self,
          ihrest (fun e he => ih e (List.mem_cons_of_mem _ he)),population]
    rw [recordsOf,List.length_cons,hbelow,descendants]
    omega

theorem length_recordsBelow (path : List Text) (children : Children) :
    (recordsBelow path children).length=population children := by
  induction children with
  | nil => rfl
  | cons entry rest ih =>
    obtain ⟨name,child⟩ := entry
    rw [recordsBelow,List.length_append,length_recordsOf,ih,population]

variable {path parent : List Text} {record : Record} {name : Text} {children : Children}
  {node root tree : FsNode} {data : List UInt8} {records : List Record} {budget : ℕ}

/-- Legal components have a non-empty join. -/
theorem joinSlash_ne_nil (hpath : path≠[]) (hnames : ∀ part∈path,NameOk part) :
    joinSlash path≠[] := by
  cases path with
  | nil => exact absurd rfl hpath
  | cons first rest =>
    have hfirst := (hnames first List.mem_cons_self).nonempty
    by_cases hrest : rest=[]
    · subst hrest
      rwa [joinSlash_singleton]
    · rw [joinSlash_cons hrest]
      simp [hfirst]

/-- The counted path length is the byte length of the joined path. -/
theorem pathLength_eq_len (hnames : ∀ part∈path,NameOk part) :
    pathLength 0 path=len (joinSlash path) := by
  induction path using List.reverseRecOn with
  | nil => rfl
  | append_singleton path name ih =>
    have hpath : ∀ part∈path,NameOk part :=
      fun part h => hnames part (List.mem_append_left _ h)
    rw [pathLength_concat,ih hpath]
    by_cases hempty : path=[]
    · subst hempty
      rw [List.nil_append,joinSlash_singleton,joinSlash_nil,len_nil,childLength,if_pos rfl]
    · have hne : len (joinSlash path)≠0 := mt len_eq_zero.mp (joinSlash_ne_nil hempty hpath)
      rw [childLength,if_neg hne,joinSlash_concat hempty,len_append,len_slash_cons]
      omega

theorem joinPath_joinSlash (hnames : ∀ part∈path,NameOk part) (name : Text) :
    joinPath (joinSlash path) name=joinSlash (path++[name]) := by
  by_cases hempty : path=[]
  · subst hempty
    rw [List.nil_append,joinSlash_singleton]
    rfl
  · have hne : (joinSlash path).isEmpty=false := by
      simpa using joinSlash_ne_nil hempty hnames
    rw [joinPath,hne,joinSlash_concat hempty]
    rfl

/-! ## The writer emits the records of the tree -/

/-- The path checks of the writer pass on an acceptable record. -/
theorem RecordOk.path_accepted (hrecord : RecordOk record) :
    asBytes (joinSlash record.path)≠[] ∧ (asBytes (joinSlash record.path)).length≤120 := by
  have hne := mt len_eq_zero.mp (joinSlash_ne_nil record.path_ne_nil hrecord.names)
  refine ⟨?_,hrecord.short⟩
  intro hnil
  exact hne (by rw [len,hnil]; rfl)

/-- The writer accepts an acceptable file record. -/
theorem writeRecord_file {content : List UInt8} (hrecord : RecordOk ⟨parent,name,.file content⟩) :
    writeRecord 1 (joinSlash (parent++[name])) (some content)=
      .ok (encodeRecord ⟨parent,name,.file content⟩) := by
  obtain ⟨hne,hshort⟩ := hrecord.path_accepted
  have hsize : ¬maxFileSize<content.length := by
    rcases hrecord.node with ⟨stored,heq,hsize⟩|heq
    · cases heq
      exact not_lt.mpr hsize
    · cases heq
  simp only [Record.path] at hne hshort
  simp [writeRecord,encodeRecord,Record.path,hne,not_lt.mpr hshort,hsize]

/-- The writer accepts an acceptable directory record. -/
theorem writeRecord_dir (hrecord : RecordOk ⟨parent,name,.dir []⟩) :
    writeRecord 2 (joinSlash (parent++[name])) none= .ok (encodeRecord ⟨parent,name,.dir []⟩) := by
  obtain ⟨hne,hshort⟩ := hrecord.path_accepted
  simp only [Record.path] at hne hshort
  simp [writeRecord,encodeRecord,Record.path,hne,hshort]

/-- The writer's records for one entry are acceptable and complete. -/
def Flattens (parent : List Text) (name : Text) (node : FsNode) : Prop :=
  (∀ record∈recordsOf parent name node,RecordOk record) ∧
    flattenTree (joinSlash (parent++[name])) node=
      .ok ((recordsOf parent name node).flatMap encodeRecord)

/-- The loop over a directory emits the records of its entries in order. -/
theorem flattenChildren_records (hnames : ∀ part∈path,NameOk part)
    (hchildren : ∀ entry∈children,Flattens path entry.1 entry.2) :
    (∀ record∈recordsBelow path children,RecordOk record) ∧
      flattenChildren (joinSlash path) children=
        .ok ((recordsBelow path children).flatMap encodeRecord) := by
  induction children with
  | nil => exact ⟨fun record h => absurd h List.not_mem_nil,rfl⟩
  | cons entry rest ih =>
    obtain ⟨name,child⟩ := entry
    obtain ⟨hfirst,hfirstBytes⟩ := hchildren _ List.mem_cons_self
    obtain ⟨hrest,hrestBytes⟩ := ih fun e he => hchildren e (List.mem_cons_of_mem _ he)
    constructor
    · intro record hmem
      rcases List.mem_append.mp hmem with hin|hin
      · exact hfirst record hin
      · exact hrest record hin
    · rw [flattenChildren,joinPath_joinSlash hnames,hfirstBytes,hrestBytes,recordsBelow,
        List.flatMap_append]
      rfl

/-- Every well-formed entry is written as its records. -/
theorem flattens_of_wellFormed (hparent : ∀ part∈parent,NameOk part)
    (hentry : EntryOk (pathLength 0 parent) (name,node)) : Flattens parent name node := by
  induction node using FsNode.byContents generalizing parent name with
  | hfile content =>
    obtain ⟨hname,hlength,hsize⟩ := hentry
    have hnames : ∀ part∈parent++[name],NameOk part := by
      simpa [or_imp,forall_and] using ⟨hparent,hname⟩
    have hrecord : RecordOk ⟨parent,name,.file content⟩ :=
      ⟨hnames,by rwa [Record.path,← pathLength_eq_len hnames,pathLength_concat],
        Or.inl ⟨content,rfl,hsize⟩⟩
    refine ⟨fun record h => List.mem_singleton.mp h▸hrecord,?_⟩
    rw [flattenTree,writeRecord_file hrecord,recordsOf,List.flatMap_singleton]
  | hdir children ih =>
    obtain ⟨hname,hlength,hwell⟩ := hentry
    rw [wellFormed_dir] at hwell
    have hnames : ∀ part∈parent++[name],NameOk part := by
      simpa [or_imp,forall_and] using ⟨hparent,hname⟩
    have hrecord : RecordOk ⟨parent,name,.dir []⟩ :=
      ⟨hnames,by rwa [Record.path,← pathLength_eq_len hnames,pathLength_concat],Or.inr rfl⟩
    obtain ⟨hbelow,hbytes⟩ := flattenChildren_records hnames fun entry hmem =>
      ih entry hmem hnames (by rw [pathLength_concat]; exact hwell.2 entry hmem)
    refine ⟨?_,?_⟩
    · intro record hmem
      rcases List.mem_cons.mp hmem with rfl|hin
      · exact hrecord
      · exact hbelow record hin
    · have hne : (joinSlash (parent++[name])).isEmpty=false := by
        simpa using joinSlash_ne_nil (List.append_ne_nil_of_right_ne_nil _ (by simp)) hnames
      simp only [flattenTree,hne,Bool.false_eq_true,if_false,writeRecord_dir hrecord,hbytes,
        recordsOf,List.flatMap_cons]
      rfl

/-- The payload of a well-formed tree is its records behind the magic. -/
theorem serializeTree_eq (htree : TreeOk (.dir children)) :
    (∀ record∈recordsBelow [] children,RecordOk record) ∧ serializeTree (.dir children)=
        .ok (treeMagic++(recordsBelow [] children).flatMap encodeRecord) := by
  have hwell := (wellFormed_dir 0 children).mp htree.wellFormed
  have hnone : ∀ part∈([] : List Text),NameOk part := fun part h => absurd h List.not_mem_nil
  obtain ⟨hrecords,hbytes⟩ := flattenChildren_records hnone fun entry hmem =>
    flattens_of_wellFormed hnone (hwell.2 entry hmem)
  refine ⟨hrecords,?_⟩
  rw [joinSlash_nil] at hbytes
  simp only [serializeTree,flattenTree,hbytes]
  rfl

/-! ## The reader parses one record -/

/-- A path of legal components does not begin with a separator. -/
theorem head_joinSlash (hnames : ∀ part∈path,NameOk part) : (joinSlash path).head?≠some '/' := by
  cases path with
  | nil => simp
  | cons first rest =>
    have hname := hnames first List.mem_cons_self
    have hstart : ∃ later,joinSlash (first::rest)=first++later := by
      by_cases hrest : rest=[]
      · exact ⟨[],by rw [hrest,joinSlash_singleton,List.append_nil]⟩
      · exact ⟨_,joinSlash_cons hrest⟩
    obtain ⟨later,hlater⟩ := hstart
    rw [hlater,List.head?_append_of_ne_nil _ hname.nonempty]
    exact fun h => hname.noSlash (List.mem_of_head? h)

/-- A path of legal components does not end with a separator. -/
theorem getLast_joinSlash (hnames : ∀ part∈path,NameOk part) :
    (joinSlash path).getLast?≠some '/' := by
  induction path using List.reverseRecOn with
  | nil => simp
  | append_singleton path name _ =>
    have hname := hnames name (List.mem_append_right _ (List.mem_singleton.mpr rfl))
    have hend : ∃ earlier,joinSlash (path++[name])=earlier++name := by
      by_cases hpath : path=[]
      · exact ⟨[],by rw [hpath,List.nil_append,joinSlash_singleton,List.nil_append]⟩
      · exact ⟨joinSlash path++['/'],by rw [joinSlash_concat hpath]; simp⟩
    obtain ⟨earlier,hearlier⟩ := hend
    rw [hearlier,List.getLast?_append_of_ne_nil _ hname.nonempty]
    exact fun h => hname.noSlash (List.mem_of_getLast? h)

/-- A path of legal components passes `validate_metadata_path`. -/
theorem validateMetadataPath_joinSlash (hpath : path≠[]) (hnames : ∀ part∈path,NameOk part)
    (hshort : len (joinSlash path)≤pathMax) : validateMetadataPath (joinSlash path)=.ok () := by
  have hsplit := splitOn_joinSlash hpath fun part h => (hnames part h).noSlash
  have hempty : (joinSlash path).isEmpty=false := by
    simpa using joinSlash_ne_nil hpath hnames
  have hlong : ¬len (joinSlash path)>120 := not_lt.mpr hshort
  have hback : '\\'∉joinSlash path := by
    rw [mem_joinSlash (by decide)]
    rintro ⟨part,hpart,hmem⟩
    exact (hnames part hpart).noBackslash hmem
  have hcontrol := hasControlByte_joinSlash fun part h => (hnames part h).noControl
  have hparts : (path.any fun component =>
      component.isEmpty || component==['.'] || component==['.','.'] || len component>64)=false := by
    rw [List.any_eq_false]
    intro part hpart
    have hname := hnames part hpart
    have hlength : ¬len part>64 := not_lt.mpr hname.short
    simp [hname.nonempty,hname.notDot,hname.notDotDot,hlength]
  simp [validateMetadataPath,hempty,hlong,hback,hcontrol,head_joinSlash hnames,
    getLast_joinSlash hnames,hsplit,hparts]

/-- Only paths of legal components pass `validate_metadata_path`. -/
theorem validateMetadataPath_ok {path : Text} (hvalid : validateMetadataPath path=.ok ()) :
    (∀ part∈path.splitOn '/',NameOk part) ∧ len path≤pathMax := by
  rw [validateMetadataPath] at hvalid
  split at hvalid
  · cases hvalid
  · rename_i hpath
    split at hvalid
    · cases hvalid
    · rename_i hparts
      simp only [Bool.or_eq_true,not_or,decide_eq_true_eq,List.contains_eq_mem] at hpath
      obtain ⟨⟨⟨⟨⟨-,hshort⟩,-⟩,-⟩,hback⟩,hcontrol⟩ := hpath
      refine ⟨fun part hpart => ?_,not_lt.mp hshort⟩
      rw [Bool.not_eq_true,List.any_eq_false] at hparts
      have hchecks := hparts part hpart
      simp only [Bool.or_eq_true,not_or,decide_eq_true_eq,List.isEmpty_iff,beq_iff_eq] at hchecks
      obtain ⟨⟨⟨hne,hdot⟩,hdots⟩,hlength⟩ := hchecks
      have hjoin := joinSlash_splitOn path
      exact ⟨hne,not_lt.mp hlength,hdot,hdots,slash_notMem_splitOn hpart,
        fun hmem => hback (by rw [← hjoin,mem_joinSlash (by decide)]; exact ⟨part,hpart,hmem⟩),
        hasControlByte_of_mem_joinSlash (by rw [hjoin]; simpa using hcontrol) hpart⟩

/-- Inserting at a path of legal components is inserting the record. -/
theorem insertAtPath_joinSlash (hnames : ∀ part∈record.path,NameOk part) (root : FsNode) :
    insertAtPath root (joinSlash record.path) record.node=insertRecord root record := by
  have hsplit := splitOn_joinSlash record.path_ne_nil fun part h => (hnames part h).noSlash
  have hkeep : record.path.filter (fun part => !part.isEmpty)=record.path :=
    List.filter_eq_self.mpr fun part h => by simpa using (hnames part h).nonempty
  simp only [insertAtPath,hsplit,hkeep]
  simp [Record.path,insertRecord]

/-- The reader gets back the record that stands at the front. -/
theorem readRecord_encodeRecord (hrecord : RecordOk record) (rest : List UInt8) :
    readRecord (encodeRecord record++rest)=.ok (joinSlash record.path,record.node,rest) := by
  have hvalid := validateMetadataPath_joinSlash record.path_ne_nil hrecord.names hrecord.short
  have hshort : len (joinSlash record.path)≤120 := hrecord.short
  have hcount : (UInt8.ofNat (asBytes (joinSlash record.path)).length).toNat=
      (asBytes (joinSlash record.path)).length := by
    rw [UInt8.toNat_ofNat']
    exact Nat.mod_eq_of_lt (lt_of_le_of_lt hshort (by decide))
  rcases hrecord.node with ⟨content,hnode,hsize⟩|hnode
  · have hfield : leValue (leBytes 2 content.length)=content.length :=
      leValue_leBytes (lt_of_le_of_lt hsize (by decide))
    have htake : ∀ tail,(leBytes 2 content.length++tail).take 2=leBytes 2 content.length :=
      fun tail => List.take_left' (length_leBytes 2 _)
    have hdrop : ∀ tail,(leBytes 2 content.length++tail).drop 2=tail :=
      fun tail => List.drop_left' (length_leBytes 2 _)
    have hroom : ¬2+(content.length+rest.length)≤1 := by omega
    simp [encodeRecord,hnode,readRecord,hcount,fromUtf8_asBytes,hvalid,htake,hdrop,hfield,hroom]
    rfl
  · simp [encodeRecord,hnode,readRecord,hcount,fromUtf8_asBytes,hvalid]
    rfl

/-- A valid path with a fitting node is an acceptable record. -/
theorem recordOk_of_path {path : Text} (hvalid : validateMetadataPath path=.ok ())
    (hnode : (∃ content,node=.file content ∧ content.length ≤ maxFileSize) ∨ node=.dir []) :
    ∃ record,RecordOk record ∧ record.path=path.splitOn '/' ∧ record.node=node := by
  obtain ⟨hnames,hshort⟩ := validateMetadataPath_ok hvalid
  have hne : path.splitOn '/'≠[] := List.splitOn_ne_nil '/' path
  have hpath : Record.path ⟨(path.splitOn '/').dropLast,(path.splitOn '/').getLast hne,node⟩=
      path.splitOn '/' := List.dropLast_append_getLast hne
  refine ⟨⟨(path.splitOn '/').dropLast,(path.splitOn '/').getLast hne,node⟩,⟨?_,?_,hnode⟩,
    hpath,rfl⟩
  · rwa [hpath]
  · rwa [hpath,joinSlash_splitOn]

/-- What the reader gets is an acceptable record, and the data began with
its bytes. -/
theorem readRecord_ok {rest : List UInt8} {path : Text}
    (hread : readRecord data=.ok (path,node,rest)) :
    ∃ record,RecordOk record ∧ path=joinSlash record.path ∧ node=record.node ∧
      data=encodeRecord record++rest := by
  rcases data with _|⟨kind,_|⟨pathLen,data⟩⟩
  · cases hread
  · cases hread
  rw [readRecord] at hread
  split at hread
  · cases hread
  rename_i hfits
  split at hread
  · cases hread
  rename_i found hfound
  obtain ⟨_,hvalid,hbody⟩ := bind_ok_iff.mp hread
  -- The two header bytes and the path bytes are those of the record.
  have hbytes := asBytes_fromUtf8 hfound
  have hlength : (asBytes found).length=pathLen.toNat := by
    rw [hbytes,List.length_take]
    omega
  have hpathLen : UInt8.ofNat (asBytes found).length=pathLen := by
    rw [hlength,UInt8.ofNat_toNat]
  have hdata : data=asBytes found++data.drop pathLen.toNat := by
    rw [hbytes,List.take_append_drop]
  dsimp only at hbody
  split at hbody
  · rename_i hkind
    split at hbody
    · cases hbody
    rename_i hfield
    split at hbody
    · cases hbody
    rename_i hcontent
    generalize htail : data.drop pathLen.toNat=tail at *
    cases hbody
    have htwo : (tail.take 2).length=2 := List.length_take_of_le (by omega)
    have hsize : ((tail.drop 2).take (leValue (tail.take 2))).length=leValue (tail.take 2) :=
      List.length_take_of_le (by omega)
    have hbound := leValue_lt (tail.take 2)
    rw [htwo] at hbound
    obtain ⟨record,hok,hpath,hnode⟩ := recordOk_of_path hvalid (Or.inl ⟨_,rfl,by
      rw [hsize,maxFileSize]
      omega⟩)
    refine ⟨record,hok,by rw [hpath,joinSlash_splitOn],hnode.symm,?_⟩
    have hdigits : leBytes 2 (leValue (tail.take 2))=tail.take 2 := by
      have hall := leBytes_leValue (tail.take 2)
      rwa [htwo] at hall
    rw [encodeRecord,hnode,hpath,joinSlash_splitOn,hkind]
    simp only [hpathLen,hsize,hdigits,List.cons_append,List.append_assoc,List.take_append_drop]
    rw [← hdata]
  · split at hbody
    · rename_i hkind
      cases hbody
      obtain ⟨record,hok,hpath,hnode⟩ := recordOk_of_path hvalid (Or.inr rfl)
      refine ⟨record,hok,by rw [hpath,joinSlash_splitOn],hnode.symm,?_⟩
      rw [encodeRecord,hnode,hpath,joinSlash_splitOn,hkind]
      simp only [hpathLen,List.cons_append]
      rw [← hdata]
    · cases hbody

/-! ## Inserting the records rebuilds the tree -/

/-- Pushing entries of distinct names one by one appends them all. -/
theorem foldlM_pushChild (taken : String) {before : Children}
    (hnames : ((before++children).map Prod.fst).Nodup) :
    children.foldlM (fun list entry => pushChild taken entry.1 entry.2 list) before=
      .ok (before++children) := by
  induction children generalizing before with
  | nil => rw [List.foldlM_nil,List.append_nil]; rfl
  | cons entry rest ih =>
    have hfresh : entry.1∉before.map Prod.fst := by
      rw [List.map_append,List.map_cons,List.nodup_append] at hnames
      exact fun hmem => hnames.2.2 _ hmem _ List.mem_cons_self rfl
    rw [List.foldlM_cons,pushChild_of_notMem hfresh]
    change rest.foldlM _ (before++[(entry.1,entry.2)])=_
    rw [ih (by simpa using hnames)]
    simp

/-- A fold of changes under the last entry of a directory happens there. -/
theorem foldlM_modifyChild_last {missing notDir : String} {before inner : Children}
    (hname : name∉before.map Prod.fst) (change : Text×FsNode → Children → Except String Children)
    (items : Children) :
    items.foldlM (fun list item => modifyChild missing name (onDir notDir (change item)) list)
        (before++[(name,.dir inner)])= (fun later => before++[(name,.dir later)])<$>
        items.foldlM (fun list item => change item list) inner := by
  induction items generalizing inner with
  | nil => rfl
  | cons item rest ih =>
    rw [List.foldlM_cons,List.foldlM_cons,modifyChild_append_of_notMem missing hname]
    simp only [modifyChild,if_true,onDir]
    rcases change item inner with reason|later
    · rfl
    · exact ih

/-- When the records of each entry insert that entry, the records of a
directory insert its entries one after the other. -/
theorem foldlM_recordsBelow {path : List Text} {children : Children}
    (hchildren : ∀ entry∈children,∀ tree, (recordsOf path entry.1 entry.2).foldlM insertRecord tree=
        insertRecord tree ⟨path,entry.1,entry.2⟩) (tree : FsNode) :
    (recordsBelow path children).foldlM insertRecord tree=
      children.foldlM (fun grown entry => insertRecord grown ⟨path,entry.1,entry.2⟩) tree := by
  induction children generalizing tree with
  | nil => rfl
  | cons entry rest ih =>
    obtain ⟨name,child⟩ := entry
    rw [recordsBelow,List.foldlM_append,hchildren _ List.mem_cons_self,List.foldlM_cons]
    congr 1
    funext grown
    exact ih (fun e he => hchildren e (List.mem_cons_of_mem _ he)) grown

/-- Inserting the records of an entry is inserting the whole entry. -/
theorem foldlM_recordsOf {base : ℕ} (hnode : WellFormed base node) (root : FsNode) :
    (recordsOf parent name node).foldlM insertRecord root=
      insertRecord root ⟨parent,name,node⟩ := by
  induction node using FsNode.byContents generalizing parent name root base with
  | hfile content =>
    rw [recordsOf,List.foldlM_cons]
    simp
  | hdir children ih =>
    rw [wellFormed_dir] at hnode
    have hbelow := @foldlM_recordsBelow (parent++[name]) children fun entry hmem =>
      ih entry hmem (hnode.2 entry hmem).2.2
    -- Insertions below the new directory are changes of its parent's children,
    -- so they fuse with the insertion of the directory itself.
    simp only [recordsOf,List.foldlM_cons,hbelow]
    simp only [insertRecord,modifyAt_concat]
    rw [modifyAt_foldlM]
    congr 1
    funext siblings
    by_cases hname : name∈siblings.map Prod.fst
    · rw [pushChild_of_mem hname,pushChild_of_mem hname]
      rfl
    · rw [pushChild_of_notMem hname,pushChild_of_notMem hname]
      change children.foldlM _ (siblings++[(name,.dir [])])=_
      rw [foldlM_modifyChild_last hname,foldlM_pushChild _ (by simpa using hnode.1)]
      rfl

/-- Inserting all records of a tree into the empty root gives the tree. -/
theorem foldlM_insertRecord_emptyRoot (htree : TreeOk (.dir children)) :
    (recordsBelow [] children).foldlM insertRecord emptyRoot=.ok (.dir children) := by
  have hwell := (wellFormed_dir 0 children).mp htree.wellFormed
  rw [foldlM_recordsBelow fun entry hmem => foldlM_recordsOf (hwell.2 entry hmem).2.2]
  have hfuse := modifyAt_foldlM "metadata parent directory missing" "path conflict" []
    (fun (entry : Text×FsNode) => pushChild "duplicate metadata path" entry.1 entry.2) children
    pure emptyRoot
  simp only [insertRecord]
  change children.foldlM _ emptyRoot=_ at hfuse
  rw [hfuse]
  simp only [emptyRoot,modifyAt,onDir,pure_bind]
  rw [foldlM_pushChild _ (by simpa using hwell.1)]
  rfl

/-! ## Whole payloads -/

theorem encodeRecord_ne_nil (record : Record) : ∃ byte rest,encodeRecord record=byte::rest := by
  rcases hnode : record.node with content|children
  · exact ⟨_,_,by rw [encodeRecord,hnode]⟩
  · exact ⟨_,_,by rw [encodeRecord,hnode]⟩

/-- The reader takes one acceptable record off the front. -/
theorem deserializeFrom_cons (hrecord : RecordOk record) (budget : ℕ) (root : FsNode)
    (rest : List UInt8) : deserializeFrom (budget+1) root (encodeRecord record++rest)=
      (insertRecord root record>>=fun grown => deserializeFrom budget grown rest) := by
  have hread := readRecord_encodeRecord hrecord rest
  obtain ⟨byte,tail,hbytes⟩ := encodeRecord_ne_nil record
  rw [hbytes,List.cons_append] at hread ⊢
  rw [deserializeFrom,hread,← insertAtPath_joinSlash hrecord.names]
  rfl

/-- Within the bound, reading a payload inserts its records in order. -/
theorem deserializeFrom_records (hrecords : ∀ record∈records,RecordOk record)
    (hbudget : records.length≤budget) (root : FsNode) :
    deserializeFrom budget root (records.flatMap encodeRecord)=
      records.foldlM insertRecord root := by
  induction records generalizing budget root with
  | nil =>
    rw [List.flatMap_nil,deserializeFrom]
    rfl
  | cons record rest ih =>
    obtain ⟨budget,rfl⟩ : ∃ smaller,budget=smaller+1 :=
      Nat.exists_eq_succ_of_ne_zero (by simp at hbudget; omega)
    rw [List.flatMap_cons,deserializeFrom_cons (hrecords record List.mem_cons_self),
      List.foldlM_cons]
    congr 1
    funext grown
    exact ih (fun r hr => hrecords r (List.mem_cons_of_mem _ hr))
      (by simpa using hbudget) grown

/-- Past the bound, reading stops with an error although every record
could be inserted. -/
theorem deserializeFrom_tooMany (hrecords : ∀ record∈records,RecordOk record)
    (hbudget : budget < records.length) (hinsert : records.foldlM insertRecord root=.ok tree) :
    deserializeFrom budget root (records.flatMap encodeRecord)=
      .error "too many metadata records" := by
  induction records generalizing budget root with
  | nil => simp at hbudget
  | cons record rest ih =>
    rw [List.flatMap_cons]
    cases budget with
    | zero =>
      obtain ⟨byte,tail,hbytes⟩ := encodeRecord_ne_nil record
      rw [hbytes,List.cons_append,deserializeFrom]
    | succ budget =>
      rw [List.foldlM_cons] at hinsert
      obtain ⟨grown,hgrown,hrest⟩ := bind_ok_iff.mp hinsert
      rw [deserializeFrom_cons (hrecords record List.mem_cons_self),hgrown]
      exact ih (fun r hr => hrecords r (List.mem_cons_of_mem _ hr)) (by simpa using hbudget) hrest

/-- Every well-formed tree is written; it is read back exactly when it has
at most `MAX_NODE_COUNT` nodes below the root, and rejected otherwise. -/
theorem deserialize_serialize (htree : TreeOk tree) :
    ∃ blob,serializeTree tree=.ok blob ∧ blob.take 4=treeMagic ∧ deserializeTree (blob.drop 4)=
        if descendants tree ≤ maxNodeCount then .ok tree
        else .error "too many metadata records" := by
  obtain ⟨children,rfl⟩ := htree.isDir
  obtain ⟨hrecords,hblob⟩ := serializeTree_eq htree
  have hinsert := foldlM_insertRecord_emptyRoot htree
  have hlength := length_recordsBelow [] children
  refine ⟨_,hblob,rfl,?_⟩
  change deserializeFrom maxNodeCount emptyRoot ((recordsBelow [] children).flatMap encodeRecord)=_
  rw [descendants]
  split
  · rw [deserializeFrom_records hrecords (by omega),hinsert]
  · exact deserializeFrom_tooMany hrecords (by omega) hinsert

/-- A well-formed tree round-trips exactly when the reader's bound holds. -/
theorem roundTrips_iff (htree : TreeOk tree) :
    RoundTrips tree ↔ descendants tree ≤ maxNodeCount := by
  obtain ⟨blob,hblob,-,hread⟩ := deserialize_serialize htree
  constructor
  · rintro ⟨other,hother,hback⟩
    rw [hblob] at hother
    cases hother
    by_contra hmany
    rw [hread,if_neg hmany] at hback
    cases hback
  · intro hfew
    exact ⟨blob,hblob,by rw [hread,if_pos hfew]⟩

/-- Inserting an acceptable record keeps a tree well formed and adds one
node. -/
theorem insertRecord_treeOk (hrecord : RecordOk record) (hroot : TreeOk root)
    (hinsert : insertRecord root record=.ok tree) :
    TreeOk tree ∧ descendants tree=descendants root+1 := by
  obtain ⟨children,rfl⟩ := hroot.isDir
  have hparent : ∀ part∈record.parent,NameOk part :=
    fun part h => hrecord.names part (List.mem_append_left _ h)
  have hentry : EntryOk (pathLength 0 record.parent) (record.name,record.node) := by
    refine ⟨hrecord.names _ (List.mem_append_right _ (List.mem_singleton.mpr rfl)),?_,?_⟩
    · have hshort := hrecord.short
      rwa [← pathLength_eq_len hrecord.names,Record.path,pathLength_concat] at hshort
    · rcases hrecord.node with ⟨content,hnode,hsize⟩|hnode
      · rw [hnode]
        exact hsize
      · rw [hnode,wellFormed_dir]
        exact ⟨List.nodup_nil,fun entry hmem => absurd hmem List.not_mem_nil⟩
  have hempty : descendants record.node=0 := by
    rcases hrecord.node with ⟨content,hnode,-⟩|hnode <;> rw [hnode] <;> rfl
  obtain ⟨before,after,hpush,-,hcount⟩ := modifyAt_spec hinsert
  obtain ⟨-,rfl⟩ := pushChild_ok hpush
  simp only [population_append,population,hempty] at hcount
  obtain ⟨-,later,-,hlater⟩ := modifyAt_dirs hinsert
  refine ⟨⟨⟨later,hlater⟩,wellFormed_modifyAt hinsert hroot.wellFormed ?_⟩,by omega⟩
  exact fun _ _ hdir hrun => wellFormed_pushChild hentry hdir hrun

/-- Whatever the reader accepts is a sequence of acceptable records within
its bound, and it has inserted them in order. -/
theorem deserializeFrom_ok (hread : deserializeFrom budget root data=.ok tree) :
    ∃ records : List Record,(∀ record∈records,RecordOk record) ∧ records.length≤budget ∧
      data=records.flatMap encodeRecord ∧ records.foldlM insertRecord root=.ok tree := by
  induction budget generalizing root data with
  | zero =>
    cases data with
    | nil =>
      rw [deserializeFrom] at hread
      exact ⟨[],by simp,le_rfl,rfl,hread⟩
    | cons byte data => cases hread
  | succ budget ih =>
    cases data with
    | nil =>
      rw [deserializeFrom] at hread
      exact ⟨[],by simp,Nat.zero_le _,rfl,hread⟩
    | cons byte data =>
      obtain ⟨⟨path,node,rest⟩,hrecord,hgrow⟩ := bind_ok_iff.mp hread
      obtain ⟨grown,hinsert,hrest⟩ := bind_ok_iff.mp hgrow
      obtain ⟨record,hok,rfl,rfl,hdata⟩ := readRecord_ok hrecord
      rw [insertAtPath_joinSlash hok.names] at hinsert
      obtain ⟨records,hrecords,hcount,rfl,hfold⟩ := ih hrest
      refine ⟨record::records,List.forall_mem_cons.mpr ⟨hok,hrecords⟩,?_,?_,?_⟩
      · rw [List.length_cons]
        omega
      · rw [hdata,List.flatMap_cons]
      · rw [List.foldlM_cons,hinsert]
        exact hfold

/-- Inserting acceptable records keeps a tree well formed and adds a node
for each. -/
theorem foldlM_insertRecord_treeOk (hrecords : ∀ record∈records,RecordOk record)
    (hroot : TreeOk root) (hfold : records.foldlM insertRecord root=.ok tree) :
    TreeOk tree ∧ descendants tree=descendants root+records.length := by
  induction records generalizing root with
  | nil =>
    cases hfold
    exact ⟨hroot,rfl⟩
  | cons record records ih =>
    obtain ⟨hrecord,hrest⟩ := List.forall_mem_cons.mp hrecords
    rw [List.foldlM_cons] at hfold
    obtain ⟨grown,hinsert,hfold⟩ := bind_ok_iff.mp hfold
    obtain ⟨hgrown,hone⟩ := insertRecord_treeOk hrecord hroot hinsert
    obtain ⟨htree,hcount⟩ := ih hrest hgrown hfold
    refine ⟨htree,?_⟩
    rw [List.length_cons]
    omega

/-- The empty root is well formed. -/
theorem treeOk_emptyRoot : TreeOk emptyRoot := ⟨⟨[],rfl⟩,by decide⟩

/-- A decoded tree is well formed and round-trips. -/
theorem deserializeTree_treeOk (hread : deserializeTree data=.ok tree) :
    TreeOk tree ∧ descendants tree ≤ maxNodeCount := by
  obtain ⟨records,hrecords,hcount,-,hfold⟩ := deserializeFrom_ok hread
  obtain ⟨htree,hnodes⟩ := foldlM_insertRecord_treeOk hrecords treeOk_emptyRoot hfold
  have hempty : descendants emptyRoot=0 := rfl
  exact ⟨htree,by omega⟩

end TuwaiqOS.TreeCodec
